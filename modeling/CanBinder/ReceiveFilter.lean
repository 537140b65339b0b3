import CanBinder.Ledger

/-!
# The receive filter

The filter of the socket is computed when somebody subscribes, and events are
also dropped by notifications in between. It never misses an event: dropping
one only leaves an identifier too many in it, until the next subscription
computes it anew from the events there are.

The identifiers are collected in an array of fixed size, each of them once.
As long as there are no more of them than the array has room for, all of them
are in it.
-/

/-! ## Collecting into an array of fixed size -/

section Collect

variable {β : Type} [DecidableEq β]

/-- Add an element once, if there is room. -/
def addOnce (cap : ℕ) (l : List β) (x : β) : List β :=
  if x ∈ l then l else if cap ≤ l.length then l else l ++ [x]

/-- **What is collected** has no duplicates, and if there is room for
everything it is everything. -/
theorem foldl_addOnce {cap : ℕ} {xs l : List β} (hl : l.Nodup)
    (hcap : (l.toFinset ∪ xs.toFinset).card ≤ cap) :
    (xs.foldl (addOnce cap) l).Nodup
      ∧ (xs.foldl (addOnce cap) l).toFinset = l.toFinset ∪ xs.toFinset := by
  induction xs generalizing l with
  | nil => exact ⟨hl, by simp⟩
  | cons x xs ih =>
    rw [List.foldl_cons]
    by_cases hx : x ∈ l
    · have hsame : l.toFinset ∪ (x :: xs).toFinset = l.toFinset ∪ xs.toFinset := by
        rw [List.toFinset_cons, Finset.union_insert,
          Finset.insert_eq_of_mem (Finset.mem_union_left _ (List.mem_toFinset.mpr hx))]
      have hadd : addOnce cap l x = l := if_pos hx
      rw [hsame] at hcap ⊢
      rw [hadd]
      exact ih hl hcap
    · have hmove : l.toFinset ∪ (x :: xs).toFinset = (l ++ [x]).toFinset ∪ xs.toFinset := by
        ext y
        simp only [List.toFinset_cons, List.toFinset_append, List.toFinset_nil, Finset.mem_union,
          Finset.mem_insert, List.mem_toFinset, Finset.notMem_empty, or_false]
        tauto
      have hnodup : (l ++ [x]).Nodup := by
        refine List.nodup_append.mpr ⟨hl, List.nodup_singleton x, fun y hy z hz hyz => ?_⟩
        rw [List.mem_singleton.mp hz] at hyz
        exact hx (hyz ▸ hy)
      rw [hmove] at hcap ⊢
      -- the elements so far and this one are among those there is room for
      have hroom : ¬cap ≤ l.length := by
        have hle := (Finset.card_le_card Finset.subset_union_left).trans hcap
        rw [List.toFinset_card_of_nodup hnodup, List.length_append, List.length_singleton] at hle
        omega
      have hadd : addOnce cap l x = l ++ [x] := (if_neg hx).trans (if_neg hroom)
      rw [hadd]
      exact ih hnodup hcap

end Collect

namespace Binder

/-- The CAN-ID of an event's property, as the filter has it. -/
def eventCanid (b : Binder) (e : BindEvent) : BitVec 32 :=
  (b.info (b.mem e.rawInfo).mycanid).canid.setWidth 32

/-- **The CAN-IDs of the registered events.** -/
def registeredCanids (b : Binder) : Finset (BitVec 32) :=
  (b.bindEventRoot.map b.eventCanid).toFinset

/-- **The filter lets through the CAN-ID of every event.** -/
def Covers (b : Binder) : Prop :=
  ∀ e ∈ b.bindEventRoot, ∃ f ∈ b.filter, f.accepts (b.eventCanid e) = true

/-- What is collected for the filter is the CAN-IDs of the events. -/
theorem getSubscribedCanids_eq (b : Binder) :
    b.getSubscribedCanids
      = (b.bindEventRoot.map b.eventCanid).foldl (addOnce SUPPORT_CANID_MAX) [] := by
  rw [List.foldl_map]
  rfl

/-- **Where the array has room**, all CAN-IDs are collected, each once. -/
theorem getSubscribedCanids_spec {b : Binder} (h : b.registeredCanids.card ≤ SUPPORT_CANID_MAX) :
    b.getSubscribedCanids.Nodup ∧ b.getSubscribedCanids.toFinset = b.registeredCanids := by
  rw [getSubscribedCanids_eq]
  unfold registeredCanids at h ⊢
  have hroom : (([] : List (BitVec 32)).toFinset ∪ (b.bindEventRoot.map b.eventCanid).toFinset).card
      ≤ SUPPORT_CANID_MAX := by
    rwa [List.toFinset_nil, Finset.empty_union]
  obtain ⟨hnodup, hset⟩ := foldl_addOnce List.nodup_nil hroom
  rw [List.toFinset_nil, Finset.empty_union] at hset
  exact ⟨hnodup, hset⟩

/-! ## What a subscription installs -/

/-- Installing the filter changes neither the data nor the events. -/
theorem registeredCanids_socketcanUpdateFilter (b : Binder) (canids : List (BitVec 32)) :
    (b.socketcanUpdateFilter canids).registeredCanids = b.registeredCanids
      ∧ (b.socketcanUpdateFilter canids).bindEventRoot = b.bindEventRoot := by
  unfold socketcanUpdateFilter
  split_ifs <;> exact ⟨rfl, rfl⟩

/-- **The filter computed from the events** is the list of their CAN-IDs, each
once, if there is an event. -/
theorem filter_socketcanUpdateFilter {b : Binder}
    (h : b.registeredCanids.card ≤ SUPPORT_CANID_MAX) (hne : b.bindEventRoot ≠ []) :
    ∃ canids : List (BitVec 32), canids.Nodup ∧ canids.toFinset = b.registeredCanids
      ∧ (b.socketcanUpdateFilter b.getSubscribedCanids).filter
        = canids.map (fun c => ⟨c, CAN_SFF_MASK⟩) := by
  obtain ⟨hnodup, hset⟩ := getSubscribedCanids_spec h
  refine ⟨b.getSubscribedCanids, hnodup, hset, ?_⟩
  have hsome : ¬b.getSubscribedCanids.length ≤ 0 := by
    intro hlen
    have hempty : b.registeredCanids = ∅ := by
      rw [← hset, List.length_eq_zero_iff.mp (Nat.le_zero.mp hlen), List.toFinset_nil]
    unfold registeredCanids at hempty
    rw [List.toFinset_eq_empty_iff, List.map_eq_nil_iff] at hempty
    exact hne hempty
  unfold socketcanUpdateFilter
  rw [if_neg hsome]

/-- **It covers the events.** -/
theorem covers_socketcanUpdateFilter {b : Binder}
    (h : b.registeredCanids.card ≤ SUPPORT_CANID_MAX) :
    (b.socketcanUpdateFilter b.getSubscribedCanids).Covers := by
  intro e he
  have hroot := (registeredCanids_socketcanUpdateFilter b b.getSubscribedCanids).2
  rw [hroot] at he
  obtain ⟨canids, -, hset, hfilter⟩ := filter_socketcanUpdateFilter h (List.ne_nil_of_mem he)
  have hmem : b.eventCanid e ∈ canids := by
    rw [← List.mem_toFinset, hset]
    exact List.mem_toFinset.mpr (List.mem_map_of_mem he)
  have hsame : (b.socketcanUpdateFilter b.getSubscribedCanids).eventCanid e = b.eventCanid e := by
    unfold socketcanUpdateFilter
    split_ifs <;> rfl
  rw [hfilter, hsame]
  exact ⟨_, List.mem_map_of_mem hmem, decide_eq_true rfl⟩

/-! ## What the other inputs leave of it -/

/-- **Events are only taken away, and the filter stays.** -/
structure Shrinks (b b' : Binder) : Prop where
  events : b'.bindEventRoot ⊆ b.bindEventRoot
  filter : b'.filter = b.filter

theorem Shrinks.refl (b : Binder) : b.Shrinks b := ⟨List.Subset.refl _, rfl⟩

theorem Shrinks.trans {b b' b'' : Binder} (h : b.Shrinks b') (h' : b'.Shrinks b'') :
    b.Shrinks b'' :=
  ⟨List.Subset.trans h'.events h.events, h'.filter.trans h.filter⟩

theorem shrinks_notify (b : Binder) (a : Addr) : b.Shrinks (b.notifyPropertyChanged a).1 := by
  have hremove : ∀ name, b.Shrinks (b.removeEvent name).1 := fun name => by
    unfold removeEvent
    split
    · exact Shrinks.refl b
    · exact ⟨fun e he => (SearchTree.mem_tdelete.mp he).1, rfl⟩
  unfold notifyPropertyChanged
  split
  · exact Shrinks.refl b
  · split_ifs
    · dsimp only
      split_ifs
      · exact hremove _
      · exact Shrinks.refl b
    · exact Shrinks.refl b

theorem shrinks_updateIviproperty (b : Binder) (canV64 : BitVec 64) (a : Addr)
    (timestamp : Timeval) : b.Shrinks (b.updateIviproperty canV64 a timestamp).1 := by
  have hdec : b.Shrinks (b.decodedInto canV64 a timestamp) := ⟨List.Subset.refl _, rfl⟩
  cases hn : b.notifies canV64 a timestamp with
  | false =>
    rw [(updateIviproperty_of_not_notifies hn).1]
    exact hdec
  | true =>
    rw [(updateIviproperty_of_notifies hn).1]
    exact hdec.trans (shrinks_notify _ a)

theorem shrinks_parseCandata (canV64 : BitVec 64) (c : CanId) (timestamp : Timeval)
    (slots : List ℕ) (b : Binder) :
    b.Shrinks (parseCandata canV64 c timestamp slots b).1 := by
  induction slots generalizing b with
  | nil => exact Shrinks.refl b
  | cons i slots ih => exact (shrinks_updateIviproperty b canV64 (.slot c i) timestamp).trans (ih _)

theorem shrinks_parseFrame (b : Binder) (frame : CanFrame) (timestamp : Timeval) :
    b.Shrinks (b.parseFrame frame timestamp).1 := by
  have hkeep : ∀ c, b.Shrinks (b.keepFrame c frame) := fun c => ⟨List.Subset.refl _, rfl⟩
  unfold parseFrame
  dsimp only
  split_ifs
  · exact Shrinks.refl b
  · split
    · exact Shrinks.refl b
    · rename_i c _
      split_ifs
      · exact hkeep c
      · exact (hkeep c).trans (shrinks_parseCandata _ c timestamp _ _)

theorem shrinks_set (b : Binder) (client : Client) (event value : Option String) (sent : Bool) :
    b.Shrinks (b.set client event value sent).1 := by
  obtain ⟨d, heq⟩ := set_eq b client event value sent
  rw [heq]
  exact ⟨List.Subset.refl _, rfl⟩

theorem shrinks_unsubscribeOne (b : Binder) (client : Client) (answers : DaemonAnswers)
    (name : String) : b.Shrinks (unsubscribeOne client answers b name).1 := by
  rcases unsubscribeOne_cases client answers b name with heq | ⟨event, -, heq⟩
  · rw [heq]
    exact Shrinks.refl b
  · rw [heq]
    exact ⟨List.Subset.refl _, rfl⟩

theorem shrinks_unsubscribe {client : Client} {args : Option Json} {answers : DaemonAnswers}
    {b b' : Binder} {out : List Output} (h : b.unsubscribe client args answers = some (b', out)) :
    b.Shrinks b' := by
  exact unsubscribe_invariant (P := fun t => b.Shrinks t)
    (fun t n _ ht => ht.trans (shrinks_unsubscribeOne t client answers n)) h (Shrinks.refl b)

/-- The CAN-ID of an event never changes. -/
theorem eventCanid_of_sameLayout {b b' : Binder} (h : b.toDict.SameLayout b'.toDict)
    (e : BindEvent) : b'.eventCanid e = b.eventCanid e := by
  unfold eventCanid
  rw [(h.entry e.rawInfo).2.1, (h.info_eq _).1]

/-- **A filter that covers the events covers them when some are taken
away.** -/
theorem Covers.shrinks {b b' : Binder} (h : b.Covers) (hlayout : b.toDict.SameLayout b'.toDict)
    (hs : b.Shrinks b') : b'.Covers := by
  intro e he
  obtain ⟨f, hf, hacc⟩ := h e (hs.events he)
  refine ⟨f, hs.filter ▸ hf, ?_⟩
  rwa [eventCanid_of_sameLayout hlayout]

/-! ## Runs -/

/-- **The input leaves no more CAN-IDs with an event than the array has room
for.** -/
def FewCanids (b : Binder) (input : Input) : Prop :=
  ∀ b' out, b.step input = some (b', out) → b'.registeredCanids.card ≤ SUPPORT_CANID_MAX

/-- The verb `subscribe` with a name installs the filter of the events there
are after it. -/
theorem subscribe_filter {b b' : Binder} {client : Client} {name : String}
    {answers : DaemonAnswers} {out : List Output}
    (h : b.subscribe client (some name) answers = some (b', out)) :
    ∃ b₁ : Binder, b' = b₁.socketcanUpdateFilter b₁.getSubscribedCanids := by
  rcases subscribe_cases h with ⟨hnone, -, -⟩ | ⟨-, b₁, -, -, -, -, hb', -⟩
  · cases hnone
  · exact ⟨b₁, hb'⟩

/-- **One input keeps the events covered.** -/
theorem Covers.step {b b' : Binder} {input : Input} {out : List Output} (h : b.Covers)
    (hfew : b.FewCanids input) (hs : b.step input = some (b', out)) : b'.Covers := by
  have hlayout := runRelation_sameLayout.step hs
  cases input with
  | frame frame timestamp =>
    cases hs
    exact h.shrinks hlayout (shrinks_parseFrame b frame timestamp)
  | timer c sent =>
    cases hs
    exact h
  | get client event =>
    cases hs
    exact h
  | set client event value sent =>
    have hset := shrinks_set b client event value sent
    rw [step_set hs] at hset
    exact h.shrinks hlayout hset
  | list client =>
    cases hs
    exact h
  | subscribe client event answers =>
    cases event with
    | none =>
      cases hs
      exact h
    | some name =>
      have hcard := hfew b' out hs
      obtain ⟨b₁, rfl⟩ := subscribe_filter hs
      rw [(registeredCanids_socketcanUpdateFilter b₁ _).1] at hcard
      exact covers_socketcanUpdateFilter hcard
  | unsubscribe client args answers => exact h.shrinks hlayout (shrinks_unsubscribe hs)

/-- **The receive filter misses no event.** Over any run in which the events
have at most 512 CAN-IDs, the filter lets the CAN-ID of every event through,
and a subscription that leaves an event installs exactly the CAN-IDs of the
events, each once. -/
theorem filter_covers_events {d : Dict} {ins : List Input}
    (hfew : Machine.Meets step FewCanids (start d) ins) {b : Binder} {outs : List Output}
    (hrun : run (start d) ins = some (b, outs)) :
    b.Covers ∧ ∀ client name answers b' out, b.FewCanids (.subscribe client (some name) answers) →
      b.subscribe client (some name) answers = some (b', out) → b'.bindEventRoot ≠ [] →
        ∃ canids : List (BitVec 32), canids.Nodup ∧ canids.toFinset = b'.registeredCanids
          ∧ b'.filter = canids.map (fun c => ⟨c, CAN_SFF_MASK⟩) := by
  refine ⟨Machine.run_invariant Covers (fun _ _ _ _ hcov hok hs => hcov.step hok hs)
    (fun e he => absurd he List.not_mem_nil) hfew hrun,
    fun client name answers b' out hfew' hs hne => ?_⟩
  have hcard := hfew' b' out hs
  obtain ⟨b₁, rfl⟩ := subscribe_filter hs
  obtain ⟨hsame, hroot⟩ := registeredCanids_socketcanUpdateFilter b₁ b₁.getSubscribedCanids
  rw [hsame] at hcard ⊢
  rw [hroot] at hne
  exact filter_socketcanUpdateFilter hcard hne

theorem filter_covers_events_sample :
    ∃ d b outs, canDefineInit sampleConfig = some d
      ∧ run (start d) [.subscribe 1 (some "speed") {}] = some (b, outs) ∧ b.Covers
      ∧ b.filter = [⟨0x100#32, CAN_SFF_MASK⟩] := by
  have hload : (canDefineInit sampleConfig).bind (fun d =>
      (run (start d) [.subscribe 1 (some "speed") {}]).map (fun r =>
        (r.1.filter, r.1.bindEventRoot.map r.1.eventCanid)))
      = some ([⟨0x100#32, CAN_SFF_MASK⟩], [0x100#32]) := by
    decide
  obtain ⟨d, hd, hrun⟩ := Option.bind_eq_some_iff.mp hload
  obtain ⟨⟨b, outs⟩, hr, hval⟩ := Option.map_eq_some_iff.mp hrun
  obtain ⟨hfilter, hcanids⟩ := Prod.mk.inj hval
  have hfew : FewCanids (start d) (.subscribe 1 (some "speed") {}) := fun b' out hs => by
    obtain ⟨b₁, out₁, out₂, hs₁, hnil, -⟩ := Machine.run_cons_eq_some.mp hr
    rw [hs₁] at hs
    cases hs
    cases hnil
    unfold registeredCanids
    rw [hcanids]
    decide
  have hmeets : Machine.Meets step FewCanids (start d) [.subscribe 1 (some "speed") {}] :=
    ⟨hfew, fun _ _ _ => trivial⟩
  exact ⟨d, b, outs, hd, hr, (filter_covers_events hmeets hr).1, hfilter⟩

end Binder
