import CanBinder.Binding
import CanBinder.Codec
import CanBinder.Loaded

/-!
# What running leaves alone

Once a configuration is loaded, frames and requests change the values of
entries, their times and applied entries, the frames of the CAN-IDs, and the
events. The trees, the links and the definitions stay as they are
(`SameLayout`), so everything the registrations established holds for the
whole run.

Decoding a frame into a property is more local: it changes the entries of the
property's chain and nothing else (`Touches`). Chains of different
properties have no entry in common, so what one of them reports is not
affected by the others.
-/

/-- The fields of an entry that are fixed by the configuration are the
same. -/
def CanBit.SameEntry (p q : CanBit) : Prop :=
  q.toPropDef = p.toPropDef ∧ q.mycanid = p.mycanid ∧ q.next = p.next

theorem CanBit.SameEntry.refl (p : CanBit) : p.SameEntry p := ⟨rfl, rfl, rfl⟩

theorem CanBit.SameEntry.trans {p q r : CanBit} (h : p.SameEntry q) (h' : q.SameEntry r) :
    p.SameEntry r :=
  ⟨h'.1.trans h.1, h'.2.1.trans h.2.1, h'.2.2.trans h.2.2⟩

namespace Dict

/-- **Nothing but values changed**, in the entries `l` alone. -/
structure Touches (l : List Addr) (d d' : Dict) : Prop where
  rest : { d' with mem := d.mem } = d
  same : ∀ x ∉ l, d'.mem x = d.mem x
  entry : ∀ x, (d.mem x).SameEntry (d'.mem x)

theorem Touches.refl (l : List Addr) (d : Dict) : Touches l d d :=
  ⟨rfl, fun _ _ => rfl, fun _ => CanBit.SameEntry.refl _⟩

theorem Touches.trans {l : List Addr} {d d' d'' : Dict} (h : Touches l d d')
    (h' : Touches l d' d'') : Touches l d d'' := by
  refine ⟨?_, fun x hx => (h'.same x hx).trans (h.same x hx),
    fun x => (h.entry x).trans (h'.entry x)⟩
  have h₁ := h.rest
  rw [← h'.rest] at h₁
  exact h₁

theorem Touches.mono {l l' : List Addr} {d d' : Dict} (h : Touches l d d') (hl : l ⊆ l') :
    Touches l' d d' :=
  ⟨h.rest, fun x hx => h.same x (fun hm => hx (hl hm)), h.entry⟩

/-- Overwriting an entry by one of the same definition. -/
theorem touches_setBit {d : Dict} {a : Addr} {p : CanBit} (h : (d.mem a).SameEntry p) :
    Touches [a] d (d.setBit a p) := by
  refine ⟨rfl, fun x hx => setBit_mem_of_ne d (by simpa using hx) p, fun x => ?_⟩
  by_cases hx : x = a
  · rw [hx, setBit_mem_self]
    exact h
  · rw [setBit_mem_of_ne d hx]
    exact CanBit.SameEntry.refl _

/-- Decoding a frame into an entry keeps its definition. -/
theorem sameEntry_canframe2property (v : BitVec 64) (p : CanBit) :
    p.SameEntry (canframe2property v p).2 := by
  unfold canframe2property
  rw [updatePropertyValue_eq]
  exact ⟨rfl, rfl, rfl⟩

theorem touches_resetChain (entries : List Addr) (d : Dict) :
    Touches entries d (resetChain entries d) := by
  induction entries generalizing d with
  | nil => exact Touches.refl [] d
  | cons n entries ih =>
    rw [resetChain]
    have hset : Touches [n] d (d.setBit n { d.mem n with curValue := DataContent.zero }) :=
      touches_setBit ⟨rfl, rfl, rfl⟩
    exact (hset.mono (List.cons_subset_cons n (List.nil_subset _))).trans
      ((ih _).mono (List.subset_cons_self n entries))

/-- **The decode loop changes the chain it decodes**, and marks an entry of
it. -/
theorem touches_decodeChain (multi : Bool) (elaps cycle : BitVec 32) (canV64 : BitVec 64)
    (timestamp : Timeval) (entries : List Addr) (d : Dict) (mark : Option Addr) (update : ℕ) :
    Touches entries d
      (decodeChain multi elaps cycle canV64 timestamp entries d mark update).1 := by
  induction entries generalizing d mark update with
  | nil => exact Touches.refl [] d
  | cons p entries ih =>
    have hstep : ∀ q, (d.mem p).SameEntry q → ∀ mark update, Touches (p :: entries) d
        (decodeChain multi elaps cycle canV64 timestamp entries (d.setBit p q) mark update).1 :=
      fun q hq mark update =>
        ((touches_setBit hq).mono (List.cons_subset_cons p (List.nil_subset _))).trans
          ((ih _ mark update).mono (List.subset_cons_self p entries))
    have hq := sameEntry_canframe2property canV64 (d.mem p)
    rw [decodeChain]
    split
    · rename_i q heq
      rw [heq] at hq
      cases multi
      · exact hstep { q with updatetime := timestamp } ⟨hq.1, hq.2.1, hq.2.2⟩ _ _
      · exact hstep q hq _ _
    · rename_i q heq
      rw [heq] at hq
      split_ifs
      · exact hstep { q with updatetime := timestamp } ⟨hq.1, hq.2.1, hq.2.2⟩ _ _
      · exact hstep q hq _ _
    · rename_i q heq
      rw [heq] at hq
      exact (touches_setBit hq).mono (List.cons_subset_cons p (List.nil_subset _))

/-- The entry the decode loop marks is one of the chain. -/
theorem mem_of_decodeChain {multi : Bool} {elaps cycle : BitVec 32} {canV64 : BitVec 64}
    {timestamp : Timeval} {entries : List Addr} {d d' : Dict} {mark : Option Addr}
    {update update' : ℕ} {m : Addr}
    (h : decodeChain multi elaps cycle canV64 timestamp entries d mark update
      = (d', some (some m, update'))) : mark = some m ∨ m ∈ entries := by
  induction entries generalizing d mark update with
  | nil =>
    cases h
    exact Or.inl rfl
  | cons p entries ih =>
    rw [decodeChain] at h
    split at h
    · rcases ih h with hm | hm
      · exact Or.inr (Option.some.inj hm ▸ List.mem_cons_self)
      · exact Or.inr (List.mem_cons_of_mem p hm)
    · split_ifs at h
      · exact (ih h).imp_right (List.mem_cons_of_mem p)
      · exact (ih h).imp_right (List.mem_cons_of_mem p)
    · cases h

theorem touches_stamp (d : Dict) (a : Addr) (timestamp : Timeval) :
    Touches [a] d (d.stamp a timestamp) :=
  touches_setBit ⟨rfl, rfl, rfl⟩

theorem touches_applyMark (d : Dict) (a : Addr) (elaps cycle : BitVec 32)
    (preApValue : DataContent) (timestamp : Timeval) (mark : Option Addr) (update : ℕ)
    {l : List Addr} (ha : a ∈ l) (hm : ∀ m, mark = some m → m ∈ l) :
    Touches l d (d.applyMark a elaps cycle preApValue timestamp mark update).1 := by
  have hsub : ∀ x ∈ l, [x] ⊆ l := fun x hx => List.cons_subset.mpr ⟨hx, List.nil_subset _⟩
  have hstamp : ∀ d : Dict, Touches l d (d.stamp a timestamp) := fun d =>
    (touches_stamp d a timestamp).mono (hsub a ha)
  unfold applyMark
  cases mark with
  | none =>
    dsimp only
    split_ifs
    · exact hstamp d
    · exact Touches.refl l d
  | some m =>
    dsimp only
    split_ifs
    · have hset : Touches l d (d.setBit a { d.mem a with applyinfo := some m }) := by
        have hself : Touches [a] d (d.setBit a { d.mem a with applyinfo := some m }) :=
          touches_setBit ⟨rfl, rfl, rfl⟩
        exact hself.mono (hsub a ha)
      exact (hset.trans (hstamp _)).trans
        ((touches_stamp _ m timestamp).mono (hsub m (hm m rfl)))
    · exact hstamp d
    · exact Touches.refl l d

/-- The chain from an entry starts with it. -/
theorem self_mem_chain (d : Dict) (a : Addr) : a ∈ d.chain a := List.mem_cons_self

/-- **Decoding a frame into a property changes the entries of its chain**, and
nothing else. -/
theorem touches_updateProperty (d : Dict) (canV64 : BitVec 64) (a : Addr)
    (timestamp : Timeval) :
    Touches (d.chain a) d (d.updateProperty canV64 a timestamp).1 := by
  unfold updateProperty
  dsimp only
  have hreset : Touches (d.chain a) d
      (if (d.mem a).next.isSome = true then resetChain (d.chain a) d else d) := by
    split_ifs
    · exact touches_resetChain _ d
    · exact Touches.refl _ d
  generalize (if (d.mem a).next.isSome = true then resetChain (d.chain a) d else d) = d₁
    at hreset ⊢
  have hdecode := touches_decodeChain (d.mem a).next.isSome
    (elapsMs (d₁.mem a).updatetime timestamp) (d.info (d.mem a).mycanid).cycle canV64 timestamp
    (d.chain a) d₁ none 0
  split
  · rename_i d₂ heq
    rw [heq] at hdecode
    exact hreset.trans hdecode
  · rename_i d₂ mark update heq
    rw [heq] at hdecode
    split_ifs
    · refine (hreset.trans hdecode).trans (touches_applyMark _ _ _ _ _ _ _ _
        (self_mem_chain d a) (fun m hm => ?_))
      subst hm
      exact (mem_of_decodeChain heq).resolve_left (by simp)
    · exact hreset.trans hdecode

/-! ## The layout -/

/-- **The same configuration**: only values of entries and frames of CAN-IDs
may differ. -/
structure SameLayout (d d' : Dict) : Prop where
  canidRoot : d'.canidRoot = d.canidRoot
  propertyRoot : d'.propertyRoot = d.propertyRoot
  supportPropertyList : d'.supportPropertyList = d.supportPropertyList
  ncell : d'.ncell = d.ncell
  timers : d'.timers = d.timers
  entry : ∀ x, (d.mem x).SameEntry (d'.mem x)
  info : ∀ c, ∃ f, d'.info c = { d.info c with canrawFrame := f }

theorem SameLayout.refl (d : Dict) : SameLayout d d :=
  ⟨rfl, rfl, rfl, rfl, rfl, fun _ => CanBit.SameEntry.refl _, fun _ => ⟨_, rfl⟩⟩

theorem SameLayout.trans {d d' d'' : Dict} (h : SameLayout d d') (h' : SameLayout d' d'') :
    SameLayout d d'' := by
  refine ⟨h'.canidRoot.trans h.canidRoot, h'.propertyRoot.trans h.propertyRoot,
    h'.supportPropertyList.trans h.supportPropertyList, h'.ncell.trans h.ncell,
    h'.timers.trans h.timers, fun x => (h.entry x).trans (h'.entry x), fun c => ?_⟩
  obtain ⟨f, hf⟩ := h.info c
  obtain ⟨f', hf'⟩ := h'.info c
  exact ⟨f', by rw [hf', hf]⟩

/-- A change of values keeps the layout. -/
theorem Touches.sameLayout {l : List Addr} {d d' : Dict} (h : Touches l d d') :
    SameLayout d d' := by
  have hrest : ∀ {α : Type} (f : Dict → α), f { d' with mem := d.mem } = f d :=
    fun f => congrArg f h.rest
  exact ⟨hrest canidRoot, hrest propertyRoot, hrest supportPropertyList, hrest ncell,
    hrest timers, h.entry, fun c => ⟨(d.info c).canrawFrame, congrFun (hrest info) c⟩⟩

/-- A change of values leaves the CAN-IDs alone. -/
theorem Touches.info_eq {l : List Addr} {d d' : Dict} (h : Touches l d d') :
    d'.info = d.info := by
  show ({ d' with mem := d.mem } : Dict).info = d.info
  rw [h.rest]

/-- A new frame keeps the layout. -/
theorem sameLayout_setInfo (d : Dict) (c : CanId) (f : CanFrame) :
    SameLayout d (d.setInfo c { d.info c with canrawFrame := f }) := by
  refine ⟨rfl, rfl, rfl, rfl, rfl, fun _ => CanBit.SameEntry.refl _, fun x => ?_⟩
  by_cases hx : x = c
  · rw [hx, setInfo_info_self]
    exact ⟨f, rfl⟩
  · rw [setInfo_info_of_ne d hx]
    exact ⟨_, rfl⟩

section SameLayout

variable {d d' : Dict}

theorem SameLayout.name_eq (h : SameLayout d d') : d'.name = d.name :=
  funext (fun x => congrArg PropDef.name (h.entry x).1)

theorem SameLayout.next_eq (h : SameLayout d d') : d'.next = d.next :=
  funext (fun x => (h.entry x).2.2)

theorem SameLayout.chain_eq (h : SameLayout d d') (a : Addr) : d'.chain a = d.chain a := by
  unfold chain
  rw [h.next_eq, h.ncell]

/-- **Lookups are those of the loaded data.** -/
theorem SameLayout.getPropertyDict (h : SameLayout d d') (n : String) :
    d'.getPropertyDict n = d.getPropertyDict n := by
  unfold Dict.getPropertyDict
  rw [h.name_eq, h.propertyRoot]

theorem SameLayout.getCANIDDict (h : SameLayout d d') (c : CanId) :
    d'.getCANIDDict c = d.getCANIDDict c := by
  unfold Dict.getCANIDDict
  rw [h.canidRoot]

/-- The data of a CAN-ID, its frame aside. -/
theorem SameLayout.info_eq (h : SameLayout d d') (c : CanId) :
    (d'.info c).canid = (d.info c).canid ∧ (d'.info c).nData = (d.info c).nData
      ∧ (d'.info c).kind = (d.info c).kind ∧ (d'.info c).cycle = (d.info c).cycle
      ∧ (d'.info c).timerfd = (d.info c).timerfd := by
  obtain ⟨f, hf⟩ := h.info c
  rw [hf]
  exact ⟨rfl, rfl, rfl, rfl, rfl⟩

/-- **Well-formedness holds for the whole run.** -/
theorem SameLayout.wf (h : SameLayout d d') (hd : d.WF) : d'.WF := by
  refine hd.congr h.canidRoot h.propertyRoot h.ncell h.entry (fun c => ?_)
  obtain ⟨hcanid, hdata, hkind, -, -⟩ := h.info_eq c
  exact ⟨hcanid, hdata, hkind⟩

end SameLayout

end Dict

namespace Binder

/-! ## The inputs -/

/-- Where a frame leads. -/
theorem step_frame {b b' : Binder} {frame : CanFrame} {timestamp : Timeval} {out : List Output}
    (h : b.step (.frame frame timestamp) = some (b', out)) :
    (b.parseFrame frame timestamp).1 = b' ∧ (b.parseFrame frame timestamp).2.1 = out :=
  Prod.mk.inj (Option.some.inj h)

/-- Where a `set` leads. -/
theorem step_set {b b' : Binder} {client : Client} {event value : Option String} {sent : Bool}
    {out : List Output} (h : b.step (.set client event value sent) = some (b', out)) :
    b.set client event value sent = (b', out) :=
  Option.some.inj h

theorem removeEvent_toDict (b : Binder) (name : String) :
    (b.removeEvent name).1.toDict = b.toDict := by
  unfold removeEvent
  split <;> rfl

/-- Notifying changes no data. -/
theorem notifyPropertyChanged_toDict (b : Binder) (a : Addr) :
    (b.notifyPropertyChanged a).1.toDict = b.toDict := by
  unfold notifyPropertyChanged
  split
  · rfl
  · split_ifs
    · dsimp only
      split_ifs
      · exact removeEvent_toDict b _
      · rfl
    · rfl

/-- **What a frame does to a property** does not depend on the events. -/
theorem updateIviproperty_toDict (b : Binder) (canV64 : BitVec 64) (a : Addr)
    (timestamp : Timeval) :
    (b.updateIviproperty canV64 a timestamp).1.toDict
      = (b.toDict.updateProperty canV64 a timestamp).1 := by
  unfold updateIviproperty
  split
  · rename_i d heq
    rw [heq]
  · rename_i d update heq
    rw [heq]
    dsimp only
    split_ifs
    · exact notifyPropertyChanged_toDict _ a
    · rfl

/-- What a frame does to an array, one slot after the other. -/
theorem parseCandata_toDict (canV64 : BitVec 64) (c : CanId) (timestamp : Timeval)
    (slots : List ℕ) (b : Binder) :
    (parseCandata canV64 c timestamp slots b).1.toDict
      = slots.foldl (fun d i => (d.updateProperty canV64 (.slot c i) timestamp).1)
          b.toDict := by
  induction slots generalizing b with
  | nil => rfl
  | cons i slots ih =>
    rw [parseCandata, List.foldl_cons, ← updateIviproperty_toDict]
    exact ih _

/-! ## Requests for events -/

/-- What every turn of a loop over names keeps, the loop keeps. -/
theorem forAll_invariant {σ : Type} {P : σ → Prop} {signal : σ → String → Option (σ × ℕ)}
    (hP : ∀ s n s' e, P s → signal s n = some (s', e) → P s') {names : List String}
    {s s' : σ} {err e : ℕ} (h : forAll signal names (s, err) = some (s', e)) (hs : P s) :
    P s' := by
  induction names generalizing s err with
  | nil =>
    cases h
    exact hs
  | cons n names ih =>
    rw [forAll] at h
    split at h
    · cases h
    · rename_i s₁ e₁ heq
      exact ih h (hP s n s₁ e₁ hs heq)

/-- **What every subscription to one name keeps, a request keeps**, to any depth. -/
theorem subscribeSignal_invariant {client : Client} {answers : DaemonAnswers}
    {P : Binder × List (String × Json) → Prop}
    (hone : ∀ s name, name ≠ "*" → P s → P (subscribeOne client answers s name).1)
    {depth : ℕ} {s s' : Binder × List (String × Json)} {name : String} {e : ℕ}
    (h : subscribeSignal client answers depth s name = some (s', e)) (hs : P s) : P s' := by
  induction depth generalizing s s' name e with
  | zero => cases h
  | succ depth ih =>
    rw [subscribeSignal] at h
    split_ifs at h with hname
    · exact forAll_invariant (fun t n t' e' ht hn => ih hn ht) h hs
    · have hkeep := hone s name hname hs
      rwa [Option.some.inj h] at hkeep

/-- The same for the requests that release events. -/
theorem unsubscribeSignal_invariant {client : Client} {answers : DaemonAnswers}
    {P : Binder → Prop}
    (hone : ∀ b name, name ≠ "*" → P b → P (unsubscribeOne client answers b name).1)
    {depth : ℕ} {b b' : Binder} {name : String} {e : ℕ}
    (h : unsubscribeSignal client answers depth b name = some (b', e)) (hb : P b) : P b' := by
  induction depth generalizing b b' name e with
  | zero => cases h
  | succ depth ih =>
    rw [unsubscribeSignal] at h
    split_ifs at h with hname
    · exact forAll_invariant (fun t n t' e' ht hn => ih hn ht) h hb
    · have hkeep := hone b name hname hb
      rwa [Option.some.inj h] at hkeep

/-- **Where the verb `subscribe` leads**: without a name it fails; with one, the
receive filter is computed anew from the events there are after the request, and the
values are the answer if there was no error. -/
theorem subscribe_cases {b b' : Binder} {client : Client} {event : Option String}
    {answers : DaemonAnswers} {out : List Output}
    (h : b.subscribe client event answers = some (b', out)) :
    event = none ∧ b' = b ∧ out = [.fail client "error"]
      ∨ ∃ name b₁ apply err, event = some name
        ∧ subscribeSignal client answers callDepth (b, []) name = some ((b₁, apply), err)
        ∧ b' = b₁.socketcanUpdateFilter b₁.getSubscribedCanids
        ∧ out = [if err = 0 then .success client (some (.object apply))
          else .fail client "error"] := by
  unfold subscribe at h
  cases event with
  | none =>
    cases h
    exact Or.inl ⟨rfl, rfl, rfl⟩
  | some name =>
    dsimp only at h
    split at h
    · cases h
    · rename_i b₁ apply err heq
      refine Or.inr ⟨name, b₁, apply, err, rfl, heq, ?_⟩
      split_ifs at h with herr
      · cases h
        exact ⟨rfl, by rw [if_pos herr]⟩
      · cases h
        exact ⟨rfl, by rw [if_neg herr]⟩

/-- **Where the verb `unsubscribe` leads**: to the request for each of the names that
it was given. -/
theorem unsubscribe_eq_some {b b' : Binder} {client : Client} {args : Option Json}
    {answers : DaemonAnswers} {out : List Output}
    (h : b.unsubscribe client args answers = some (b', out)) :
    ∃ names err, unsubscribeNames args = some names
      ∧ forAll (unsubscribeSignal client answers callDepth) names (b, 0) = some (b', err)
      ∧ out = [if err = 0 then .success client none else .fail client "error"] := by
  unfold unsubscribe at h
  split at h
  · cases h
  · rename_i names hnames
    split at h
    · cases h
    · rename_i b₁ err heq
      cases h
      exact ⟨names, err, hnames, heq, rfl⟩

/-- What every request for one name keeps, the verb keeps. -/
theorem unsubscribe_invariant {client : Client} {answers : DaemonAnswers} {P : Binder → Prop}
    (hone : ∀ b name, name ≠ "*" → P b → P (unsubscribeOne client answers b name).1)
    {b b' : Binder} {args : Option Json} {out : List Output}
    (h : b.unsubscribe client args answers = some (b', out)) (hb : P b) : P b' := by
  obtain ⟨names, err, -, hall, -⟩ := unsubscribe_eq_some h
  exact forAll_invariant (fun t n t' e' ht hn => unsubscribeSignal_invariant hone hn ht) hall hb

/-- Installing a receive filter changes the filter and nothing else. -/
theorem socketcanUpdateFilter_eq (b : Binder) (canids : List (BitVec 32)) :
    ∃ filter, b.socketcanUpdateFilter canids = { b with filter := filter } := by
  unfold socketcanUpdateFilter
  split_ifs
  · exact ⟨b.filter, rfl⟩
  · exact ⟨_, rfl⟩

/-- **Where one named unsubscription leads**: there is no event, or the daemon
refuses; or the client leaves the event. -/
theorem unsubscribeOne_cases (client : Client) (answers : DaemonAnswers) (b : Binder)
    (name : String) :
    unsubscribeOne client answers b name = (b, 1)
      ∨ ∃ event, b.getEvent name = some event
        ∧ unsubscribeOne client answers b name
          = (b.afbReqUnsubscribe client event.event, 0) := by
  unfold unsubscribeOne
  cases hev : b.getEvent name with
  | none => exact Or.inl rfl
  | some event =>
    dsimp only
    split_ifs
    · exact Or.inl rfl
    · exact Or.inr ⟨event, rfl, rfl⟩

/-- The binding with one more event, under a name that has none. -/
def addEvent (b : Binder) (event : BindEvent) : Binder :=
  { b with
    bindEventRoot := (SearchTree.tsearch BindEvent.name event b.bindEventRoot).2
    clients := Function.update b.clients b.nextEvent []
    nextEvent := b.nextEvent + 1 }

/-- **What `register_event` does**: it makes an event of the property the name
resolves to, with a handle that is not in use. -/
theorem registerEvent_eq_some {b b' : Binder} {answers : DaemonAnswers} {name : String}
    {event : BindEvent} (h : b.registerEvent answers name = some (b', event)) :
    ∃ a, b.getPropertyDict name = some a ∧ event = ⟨name, ⟨true, b.nextEvent⟩, a⟩
      ∧ b' = b.addEvent event := by
  unfold registerEvent at h
  cases hp : b.getPropertyDict name with
  | none =>
    rw [hp] at h
    cases h
  | some a =>
    have hname : b.name a = name := SearchTree.key_of_tfind_eq_some hp
    rw [hp] at h
    dsimp only at h
    rw [hname] at h
    split_ifs at h with hitf
    cases h
    rw [Bool.not_eq_false] at hitf
    exact ⟨a, rfl, by rw [hitf], rfl⟩

theorem registerEvent_toDict {b b' : Binder} {answers : DaemonAnswers} {name : String}
    {event : BindEvent} (h : b.registerEvent answers name = some (b', event)) :
    b'.toDict = b.toDict := by
  obtain ⟨a, -, -, rfl⟩ := registerEvent_eq_some h
  rfl

/-- **Where one named subscription leads**: there is no event and none can be
made; or there is one or one was made, and the daemon refuses the client, or
takes it and the answer gets the value. -/
theorem subscribeOne_cases (client : Client) (answers : DaemonAnswers) (b : Binder)
    (apply : List (String × Json)) (name : String) :
    subscribeOne client answers (b, apply) name = ((b, apply), 1)
      ∨ ∃ b' event, (b' = b ∧ b.getEvent name = some event
          ∨ b.getEvent name = none ∧ b.registerEvent answers name = some (b', event))
        ∧ (subscribeOne client answers (b, apply) name = ((b', apply), 1)
          ∨ subscribeOne client answers (b, apply) name
            = ((b'.afbReqSubscribe client event.event, Json.objectAdd apply event.name
                ((b'.property2json event.rawInfo).getD .null)), 0)) := by
  unfold subscribeOne
  dsimp only
  cases hev : b.getEvent name with
  | some event =>
    refine Or.inr ⟨b, event, Or.inl ⟨rfl, rfl⟩, ?_⟩
    dsimp only
    split_ifs
    · exact Or.inl rfl
    · exact Or.inr rfl
  | none =>
    dsimp only
    cases hr : b.registerEvent answers name with
    | none => exact Or.inl rfl
    | some r =>
      obtain ⟨b', event⟩ := r
      refine Or.inr ⟨b', event, Or.inr ⟨rfl, rfl⟩, ?_⟩
      dsimp only
      split_ifs
      · exact Or.inl rfl
      · exact Or.inr rfl

/-- What a new event and a new client leave alone, a named subscription does. -/
theorem subscribeOne_keeps {α : Type} (f : Binder → α)
    (hadd : ∀ b event, f (addEvent b event) = f b)
    (hclient : ∀ b client event, f (b.afbReqSubscribe client event) = f b) (client : Client)
    (answers : DaemonAnswers) (s : Binder × List (String × Json)) (name : String) :
    f (subscribeOne client answers s name).1.1 = f s.1 := by
  obtain ⟨b, apply⟩ := s
  rcases subscribeOne_cases client answers b apply name with heq | ⟨b', event, hfound, hcase⟩
  · rw [heq]
  · have hb' : f b' = f b := by
      rcases hfound with ⟨rfl, -⟩ | ⟨-, hr⟩
      · rfl
      · obtain ⟨a, -, -, rfl⟩ := registerEvent_eq_some hr
        exact hadd b event
    rcases hcase with heq | heq
    · rw [heq]
      exact hb'
    · rw [heq]
      exact (hclient b' client event.event).trans hb'

theorem subscribeOne_toDict (client : Client) (answers : DaemonAnswers)
    (s : Binder × List (String × Json)) (name : String) :
    (subscribeOne client answers s name).1.1.toDict = s.1.toDict := by
  obtain ⟨b, apply⟩ := s
  rcases subscribeOne_cases client answers b apply name with heq | ⟨b', event, hfound, hcase⟩
  · rw [heq]
  · have hb' : b'.toDict = b.toDict := by
      rcases hfound with ⟨rfl, -⟩ | ⟨-, hr⟩
      · rfl
      · exact registerEvent_toDict hr
    rcases hcase with heq | heq
    · rw [heq]
      exact hb'
    · rw [heq]
      exact hb'

theorem subscribeSignal_toDict {client : Client} {answers : DaemonAnswers} {depth : ℕ}
    {s s' : Binder × List (String × Json)} {name : String} {e : ℕ}
    (h : subscribeSignal client answers depth s name = some (s', e)) :
    s'.1.toDict = s.1.toDict := by
  exact subscribeSignal_invariant (P := fun t => t.1.toDict = s.1.toDict)
    (fun t n _ ht => (subscribeOne_toDict client answers t n).trans ht) h rfl

theorem subscribe_toDict {b b' : Binder} {client : Client} {event : Option String}
    {answers : DaemonAnswers} {out : List Output}
    (h : b.subscribe client event answers = some (b', out)) : b'.toDict = b.toDict := by
  rcases subscribe_cases h with ⟨-, rfl, -⟩ | ⟨name, b₁, apply, err, -, heq, rfl, -⟩
  · rfl
  · obtain ⟨filter, hfilter⟩ := socketcanUpdateFilter_eq b₁ b₁.getSubscribedCanids
    rw [hfilter]
    exact subscribeSignal_toDict heq

theorem unsubscribeOne_toDict (client : Client) (answers : DaemonAnswers) (b : Binder)
    (name : String) : (unsubscribeOne client answers b name).1.toDict = b.toDict := by
  rcases unsubscribeOne_cases client answers b name with heq | ⟨event, -, heq⟩
  · rw [heq]
  · rw [heq]
    rfl

theorem unsubscribe_toDict {b b' : Binder} {client : Client} {args : Option Json}
    {answers : DaemonAnswers} {out : List Output}
    (h : b.unsubscribe client args answers = some (b', out)) : b'.toDict = b.toDict := by
  exact unsubscribe_invariant (P := fun t => t.toDict = b.toDict)
    (fun t n _ ht => (unsubscribeOne_toDict client answers t n).trans ht) h rfl

/-! ## Requests to send -/

/-- Writing a value keeps the definition of the property. -/
theorem sameEntry_property2canframe (p : CanBit) (data : Payload) (v : BitVec 32) :
    p.SameEntry (property2canframe p data v).2.1 := by
  unfold property2canframe
  rw [updatePropertyValue_eq]
  cases (p.decode p.curValue v).1 <;> exact ⟨rfl, rfl, rfl⟩

/-- **What `can_signal_send` leaves in memory**: the value in the property and
its bits in the frame of the CAN-ID. -/
theorem canSignalSend_toDict (b : Binder) (a : Addr) (v : BitVec 32) (sent : Bool) :
    (b.canSignalSend a v sent).1.toDict
      = (b.setBit a (property2canframe (b.mem a)
          (b.info (b.mem a).mycanid).canrawFrame.data v).2.1).setInfo (b.mem a).mycanid
        { b.info (b.mem a).mycanid with
          canrawFrame := { (b.info (b.mem a).mycanid).canrawFrame with
            data := (property2canframe (b.mem a)
              (b.info (b.mem a).mycanid).canrawFrame.data v).2.2 } } := by
  unfold canSignalSend
  dsimp only
  split_ifs <;> rfl

/-- It changes nothing but the memory. -/
theorem canSignalSend_eq (b : Binder) (a : Addr) (v : BitVec 32) (sent : Bool) :
    ∃ d, (b.canSignalSend a v sent).1 = { b with toDict := d } := by
  unfold canSignalSend
  dsimp only
  split_ifs
  · exact ⟨_, rfl⟩
  · exact ⟨_, rfl⟩

/-- `set` on a name that resolves. -/
theorem set_of_resolves {b : Binder} {n : String} {a : Addr}
    (ha : b.getPropertyDict n = some a) (client : Client) (v : String) (sent : Bool) :
    (b.set client (some n) (some v) sent).1
        = (b.canSignalSend a (BitVec.ofInt 32 (CLib.strtol v 0)) sent).1
      ∧ (b.set client (some n) (some v) sent).2
        = (b.canSignalSend a (BitVec.ofInt 32 (CLib.strtol v 0)) sent).2
          ++ (b.canSignalSend a (BitVec.ofInt 32 (CLib.strtol v 0)) sent).1.updateSendTimer
            ((b.canSignalSend a (BitVec.ofInt 32 (CLib.strtol v 0)) sent).1.mem a).mycanid
          ++ [.success client none] := by
  unfold set
  dsimp only
  rw [ha]
  exact ⟨rfl, rfl⟩

/-- `set` without a name or value, or with a name that does not resolve,
fails. -/
theorem set_of_not_resolves {b : Binder} {event value : Option String}
    (h : ¬∃ n v a, event = some n ∧ value = some v ∧ b.getPropertyDict n = some a)
    (client : Client) (sent : Bool) :
    ∃ status, b.set client event value sent = (b, [.fail client status]) := by
  unfold set
  cases event with
  | none => exact ⟨_, rfl⟩
  | some n =>
    cases value with
    | none => exact ⟨_, rfl⟩
    | some v =>
      have hnone : b.getPropertyDict n = none :=
        Option.eq_none_iff_forall_ne_some.mpr (fun a ha => h ⟨n, v, a, rfl, rfl, ha⟩)
      dsimp only
      rw [hnone]
      exact ⟨_, rfl⟩

/-- **Where the verb `set` leads**: it fails, or sends a value and arms the timer. -/
theorem set_cases (b : Binder) (client : Client) (event value : Option String) (sent : Bool) :
    (∃ status, b.set client event value sent = (b, [.fail client status]))
      ∨ ∃ a v, (b.set client event value sent).1 = (b.canSignalSend a v sent).1
        ∧ (b.set client event value sent).2 = (b.canSignalSend a v sent).2
          ++ (b.canSignalSend a v sent).1.updateSendTimer
            ((b.canSignalSend a v sent).1.mem a).mycanid
          ++ [.success client none] := by
  by_cases hres : ∃ n v a, event = some n ∧ value = some v ∧ b.getPropertyDict n = some a
  · obtain ⟨n, v, a, rfl, rfl, ha⟩ := hres
    exact Or.inr ⟨a, _, set_of_resolves ha client v sent⟩
  · exact Or.inl (set_of_not_resolves hres client sent)

/-- **A request to send changes nothing but the memory.** -/
theorem set_eq (b : Binder) (client : Client) (event value : Option String) (sent : Bool) :
    ∃ d, (b.set client event value sent).1 = { b with toDict := d } := by
  rcases set_cases b client event value sent with ⟨status, heq⟩ | ⟨a, v, heq, -⟩
  · rw [heq]
    exact ⟨b.toDict, rfl⟩
  · rw [heq]
    exact canSignalSend_eq b a v sent

/-! ## The layout of a run -/

/-- **A relation that every change of the data keeps**: the decoding of a frame into
a slot, a frame kept in a CAN-ID, and a value written to send it. -/
structure RunRelation (R : Dict → Dict → Prop) : Prop where
  refl : ∀ d, R d d
  trans : ∀ {d d' d''}, R d d' → R d' d'' → R d d''
  update : ∀ (d : Dict) canV64 c i timestamp, R d (d.updateProperty canV64 (.slot c i) timestamp).1
  frame : ∀ (d : Dict) c f, R d (d.setInfo c { d.info c with canrawFrame := f })
  send : ∀ (d : Dict) a data v, R d (d.setBit a (property2canframe (d.mem a) data v).2.1)

section RunRelation

variable {R : Dict → Dict → Prop}

theorem RunRelation.parseCandata (hR : RunRelation R) (canV64 : BitVec 64) (c : CanId)
    (timestamp : Timeval) (slots : List ℕ) (b : Binder) :
    R b.toDict (parseCandata canV64 c timestamp slots b).1.toDict := by
  rw [parseCandata_toDict]
  generalize b.toDict = d
  induction slots generalizing d with
  | nil => exact hR.refl d
  | cons i slots ih =>
    rw [List.foldl_cons]
    exact hR.trans (hR.update d canV64 c i timestamp) (ih _)

theorem RunRelation.parseFrame (hR : RunRelation R) (b : Binder) (frame : CanFrame)
    (timestamp : Timeval) : R b.toDict (b.parseFrame frame timestamp).1.toDict := by
  unfold Binder.parseFrame
  dsimp only
  split_ifs
  · exact hR.refl _
  · split
    · exact hR.refl _
    · rename_i c hc
      have hframe := hR.frame b.toDict c frame
      split_ifs
      · exact hframe
      · exact hR.trans hframe (hR.parseCandata (canvalue2host frame.data) c timestamp _
          { b with toDict := b.setInfo c { b.info c with canrawFrame := frame } })

theorem RunRelation.canSignalSend (hR : RunRelation R) (b : Binder) (prop : Addr)
    (v : BitVec 32) (sent : Bool) : R b.toDict (b.canSignalSend prop v sent).1.toDict := by
  rw [canSignalSend_toDict]
  exact hR.trans (hR.send b.toDict prop _ v) (hR.frame _ (b.mem prop).mycanid _)

theorem RunRelation.set (hR : RunRelation R) (b : Binder) (client : Client)
    (event value : Option String) (sent : Bool) :
    R b.toDict (b.set client event value sent).1.toDict := by
  rcases set_cases b client event value sent with ⟨status, heq⟩ | ⟨a, v, heq, -⟩
  · rw [heq]
    exact hR.refl _
  · rw [heq]
    exact hR.canSignalSend b a v sent

/-- **Such a relation holds across every input.** -/
theorem RunRelation.step (hR : RunRelation R) {b b' : Binder} {input : Input}
    {out : List Output} (h : b.step input = some (b', out)) : R b.toDict b'.toDict := by
  cases input with
  | frame frame timestamp =>
    cases h
    exact hR.parseFrame b frame timestamp
  | timer c sent =>
    cases h
    exact hR.refl _
  | get client event =>
    cases h
    exact hR.refl _
  | set client event value sent =>
    have hset := hR.set b client event value sent
    rwa [step_set h] at hset
  | list client =>
    cases h
    exact hR.refl _
  | subscribe client event answers =>
    rw [show b'.toDict = b.toDict from subscribe_toDict h]
    exact hR.refl _
  | unsubscribe client args answers =>
    rw [show b'.toDict = b.toDict from unsubscribe_toDict h]
    exact hR.refl _

/-- **And across every run.** -/
theorem RunRelation.run (hR : RunRelation R) {b b' : Binder} {ins : List Input}
    {outs : List Output} (h : run b ins = some (b', outs)) : R b.toDict b'.toDict :=
  Machine.run_invariant (fun s => R b.toDict s.toDict)
    (fun _ _ _ _ hs _ hstep => hR.trans hs (hR.step hstep))
    (hR.refl _) (Machine.meets_of_forall (fun _ _ => trivial) b ins) h

end RunRelation

/-- **The layout is kept by every change of the data.** -/
theorem runRelation_sameLayout : RunRelation Dict.SameLayout where
  refl := Dict.SameLayout.refl
  trans := Dict.SameLayout.trans
  update d canV64 c i timestamp :=
    (d.touches_updateProperty canV64 (.slot c i) timestamp).sameLayout
  frame := Dict.sameLayout_setInfo
  send d a data v :=
    (Dict.touches_setBit (sameEntry_property2canframe (d.mem a) data v)).sameLayout

/-! ## Where a frame leads -/

/-- The binding with a frame in a CAN-ID. -/
def keepFrame (b : Binder) (c : CanId) (frame : CanFrame) : Binder :=
  { b with toDict := b.setInfo c { b.info c with canrawFrame := frame } }

/-- The frame is one for a CAN-ID. -/
def IsFor (c : CanId) (frame : CanFrame) : Prop :=
  ¬8#8 < frame.canDlc ∧ (frame.canId &&& CAN_SFF_MASK).setWidth 16 = c

instance (c : CanId) (frame : CanFrame) : Decidable (IsFor c frame) :=
  inferInstanceAs (Decidable (_ ∧ _))

/-- **Where a frame leads**: it is too long or for no CAN-ID, and nothing
happens; or it is for a registered one, and is kept there, and decoded into its
array unless the CAN-ID is one to send. -/
theorem parseFrame_cases {d : Dict} {b : Binder} (hd : d.WF) (hb : d.SameLayout b.toDict)
    (frame : CanFrame) (timestamp : Timeval) :
    (¬∃ c ∈ d.canidRoot, IsFor c frame) ∧ b.parseFrame frame timestamp = (b, [], 1)
      ∨ ∃ c ∈ d.canidRoot, IsFor c frame
        ∧ ((d.info c).kind = .send ∧ b.parseFrame frame timestamp = (b.keepFrame c frame, [], 0)
          ∨ (d.info c).kind ≠ .send ∧ b.parseFrame frame timestamp =
            let r := parseCandata (canvalue2host frame.data) c timestamp
              (List.range (d.info c).nData) (b.keepFrame c frame)
            (r.1, r.2, 0)) := by
  unfold parseFrame
  dsimp only
  by_cases hdlc : 8#8 < frame.canDlc
  · rw [if_pos hdlc]
    exact Or.inl ⟨fun ⟨c, _, hfor⟩ => hfor.1 hdlc, rfl⟩
  · rw [if_neg hdlc, hb.getCANIDDict]
    cases hget : d.getCANIDDict ((frame.canId &&& CAN_SFF_MASK).setWidth 16) with
    | none =>
      refine Or.inl ⟨fun ⟨c, hc, hfor⟩ => ?_, rfl⟩
      exact Dict.getCANIDDict_eq_none_iff.mp hget (hfor.2 ▸ hc)
    | some c =>
      obtain ⟨hroot, hcid⟩ := hd.getCANIDDict_eq_some_iff.mp hget
      obtain ⟨-, hn, hk, -, -⟩ := hb.info_eq c
      refine Or.inr ⟨c, hroot, ⟨hdlc, hcid.symm⟩, ?_⟩
      dsimp only
      rw [← hn, ← hk, Dict.setInfo_info_self]
      by_cases hsend : (b.info c).kind = .send
      · exact Or.inl ⟨hsend, if_pos hsend⟩
      · exact Or.inr ⟨hsend, if_neg hsend⟩

end Binder
