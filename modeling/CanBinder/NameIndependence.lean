import CanBinder.Audiences
import CanBinder.Enumerations
import CanBinder.ServerRefinement

/-!
# Names are independent

What is told under a name, by pushes and when its event is dropped, does not
depend on what happens to the others: a run in which only the frames of its
CAN-ID, the requests to set it and the requests for its events are left
(`Input.concerns`) shows the same under it, and leaves it with the same value and
the same clients (`name_independent`). In what order the inputs of different
names come is of no matter to any of them. Answers to requests are not told
under a name, and a `get` is none of the inputs that concern it.

`Server.Alike` relates two servers that are the same as far as a name goes.
An input that concerns the name keeps them alike and shows the same under it,
one that does not shows nothing and may happen to one of them alone. The rest
is `Machine.run_filter`, and that the runs of the binding are the server's.
-/

namespace Binder

/-- **Two loops over names** that stay related name by name. Where that is
asked for, the errors counted are the same. -/
theorem forAll_rel {σ τ : Type} (R : σ → τ → Prop) (same : Prop)
    {signal : σ → String → Option (σ × ℕ)} {signal' : τ → String → Option (τ × ℕ)}
    {names : List String}
    (h : ∀ n ∈ names, ∀ s t s' e, R s t → signal s n = some (s', e) →
      ∃ t' e', signal' t n = some (t', e') ∧ R s' t' ∧ (same → e' = e))
    {s s' : σ} {t : τ} {err e : ℕ} (err' : ℕ) (hR : R s t) (herr : same → err' = err)
    (hr : forAll signal names (s, err) = some (s', e)) :
    ∃ t' e', forAll signal' names (t, err') = some (t', e') ∧ R s' t' ∧ (same → e' = e) := by
  induction names generalizing s t err err' with
  | nil =>
    cases hr
    exact ⟨t, err', rfl, hR, herr⟩
  | cons n names ih =>
    rw [forAll] at hr
    cases hs : signal s n with
    | none =>
      rw [hs] at hr
      cases hr
    | some r =>
      obtain ⟨s₁, e₁⟩ := r
      rw [hs] at hr
      obtain ⟨t₁, e₁', ht, hR₁, he₁⟩ := h n List.mem_cons_self s t s₁ e₁ hR hs
      have herr' : same → err' + e₁' = err + e₁ := fun hsame => by rw [herr hsame, he₁ hsame]
      obtain ⟨t', e', hrun, hR', he'⟩ :=
        ih (fun m hm => h m (List.mem_cons_of_mem n hm)) _ hR₁ herr' hr
      exact ⟨t', e', by rw [forAll, ht]; exact hrun, hR', he'⟩

/-- A loop over names that keeps a property. -/
theorem forAll_keeps {σ : Type} {P : σ → Prop} {signal : σ → String → Option (σ × ℕ)}
    {names : List String}
    (h : ∀ n ∈ names, ∀ s s' e, P s → signal s n = some (s', e) → P s') {s s' : σ} {err e : ℕ}
    (hs : P s) (hr : forAll signal names (s, err) = some (s', e)) : P s' := by
  obtain ⟨-, -, -, hP, -⟩ := forAll_rel (fun t (_ : Unit) => P t) False
    (fun n hn s u s' e hs hr => ⟨u, 0, (rfl : (fun u _ => some (u, 0)) u n = some (u, 0)),
      h n hn s s' e hs hr, False.elim⟩) 0 (t := ()) hs False.elim hr
  exact hP

end Binder

/-! ## What concerns a name -/

/-- **The inputs that concern a name** of a CAN-ID: its frames, the requests to
set it, and the requests for events that ask for it or for all. -/
def Input.concerns (n : String) (c : CanId) : Input → Bool
  | .frame f _ => (f.canId &&& CAN_SFF_MASK).setWidth 16 = c
  | .set _ event _ _ => event = some n
  | .subscribe _ event _ => event = some n ∨ event = some "*"
  | .unsubscribe _ args _ =>
    (Binder.unsubscribeNames args).any (fun names => n ∈ names ∨ "*" ∈ names)
  | _ => false

namespace Server

/-- The names of a channel. -/
def names (s : Server) (c : CanId) : List String := (s.channels c).signals.map Signal.name

/-- **Each name is that of one signal**, and what resolves is such a name. -/
structure Named (s : Server) : Prop where
  resolves : ∀ (n : String) (c : CanId) (i : ℕ), s.resolve n = some (c, i) →
    c ∈ s.canids ∧ (s.names c)[i]? = some n
  unique : ∀ (n : String) (c c' : CanId) (i i' : ℕ), c ∈ s.canids → c' ∈ s.canids →
    (s.names c)[i]? = some n → (s.names c')[i']? = some n → c' = c ∧ i' = i

theorem Named.congr {s t : Server} (h : s.Named) (hshape : s.SameShape t) : t.Named where
  resolves n c i := by
    unfold names
    rw [hshape.resolve, hshape.canids, hshape.names]
    exact h.resolves n c i
  unique n c c' i i' := by
    unfold names
    rw [hshape.canids, hshape.names, hshape.names]
    exact h.unique n c c' i i'

/-- **Two servers that are alike under a name**: its signal is the same, and
those who listen are. -/
structure Alike (n : String) (c : CanId) (i : ℕ) (s t : Server) : Prop where
  named : s.Named
  place : s.resolve n = some (c, i)
  shape : s.SameShape t
  signal : (t.channels c).signals[i]? = (s.channels c).signals[i]?
  audience : t.audience n = s.audience n

section Alike

variable {n : String} {c : CanId} {i : ℕ} {s t : Server}

/-- What the one is followed by is alike what the other is followed by. -/
theorem Alike.of_sameShape (h : Alike n c i s t) {s' t' : Server} (hs : s.SameShape s')
    (ht : t.SameShape t') (hsignal : (t'.channels c).signals[i]? = (s'.channels c).signals[i]?)
    (haud : t'.audience n = s'.audience n) : Alike n c i s' t' where
  named := h.named.congr hs
  place := by
    rw [hs.resolve]
    exact h.place
  shape := (hs.symm.trans h.shape).trans ht
  signal := hsignal
  audience := haud

theorem Alike.refl (hs : s.Named) (hp : s.resolve n = some (c, i)) : Alike n c i s s :=
  ⟨hs, hp, SameShape.refl s, rfl, rfl⟩

theorem Alike.mem_canids (h : Alike n c i s t) : c ∈ s.canids :=
  (h.named.resolves n c i h.place).1

/-- The signal of the name. -/
theorem Alike.exists_signal (h : Alike n c i s t) :
    ∃ g, (s.channels c).signals[i]? = some g ∧ (t.channels c).signals[i]? = some g
      ∧ g.name = n := by
  have hn := (h.named.resolves n c i h.place).2
  unfold names at hn
  rw [List.getElem?_map, Option.map_eq_some_iff] at hn
  obtain ⟨g, hg, hname⟩ := hn
  exact ⟨g, hg, h.signal.trans hg, hname⟩

/-- No other signal has it. -/
theorem Alike.unique (h : Alike n c i s t) {c' : CanId} (hc' : c' ∈ s.canids) {j : ℕ}
    (hj : (s.names c')[j]? = some n) : c' = c ∧ j = i :=
  h.named.unique n c c' i j h.mem_canids hc' (h.named.resolves n c i h.place).2 hj

end Alike

end Server

/-! ### Frames -/

section Receive

variable (cycle : BitVec 32) (canV64 : BitVec 64) (timestamp : Timeval) {n : String}

/-- A signal of another name shows nothing under this one. -/
theorem Signal.present_of_ne {s : Signal} (hs : s.name ≠ n) (aud : Audience) :
    (s.present cycle canV64 timestamp aud).1 n = aud n
      ∧ (s.present cycle canV64 timestamp aud).2.filterMap (Output.under n) = [] := by
  unfold Signal.present
  dsimp only
  split_ifs
  · rw [s.name_receive]
    exact aud.publish_of_ne hs _
  · exact ⟨rfl, rfl⟩

/-- A signal of this name shows itself to those who listen to it. -/
theorem Signal.present_congr {s : Signal} (hs : s.name = n) {aud aud' : Audience}
    (h : aud' n = aud n) :
    (s.present cycle canV64 timestamp aud').1 n = (s.present cycle canV64 timestamp aud).1 n
      ∧ (s.present cycle canV64 timestamp aud').2 = (s.present cycle canV64 timestamp aud).2 := by
  unfold Signal.present
  dsimp only
  split_ifs
  · rw [s.name_receive, hs]
    exact Audience.publish_congr h _
  · exact ⟨h, rfl⟩

/-- Signals of other names show nothing under this one. -/
theorem receiveSignals_of_notMem {l : List Signal} (hl : n ∉ l.map Signal.name) (aud : Audience) :
    (receiveSignals cycle canV64 timestamp l aud).2.1 n = aud n
      ∧ (receiveSignals cycle canV64 timestamp l aud).2.2.filterMap (Output.under n) = [] := by
  induction l generalizing aud with
  | nil => exact ⟨rfl, rfl⟩
  | cons s l ih =>
    rw [List.map_cons, List.mem_cons, not_or] at hl
    obtain ⟨haud, hout⟩ := Signal.present_of_ne cycle canV64 timestamp
      (Ne.symm hl.1) aud
    obtain ⟨haud', hout'⟩ := ih hl.2 (s.present cycle canV64 timestamp aud).1
    rw [receiveSignals_snd_cons]
    dsimp only
    rw [List.filterMap_append, hout, hout', haud', haud]
    exact ⟨rfl, rfl⟩

/-- **Of the signals of a channel, the one with the name shows itself under
it.** -/
theorem receiveSignals_under {pre post : List Signal} {g : Signal} (hg : g.name = n)
    (hpre : n ∉ pre.map Signal.name) (hpost : n ∉ post.map Signal.name) (aud : Audience) :
    (receiveSignals cycle canV64 timestamp (pre ++ g :: post) aud).2.1 n
        = (g.present cycle canV64 timestamp aud).1 n
      ∧ (receiveSignals cycle canV64 timestamp (pre ++ g :: post) aud).2.2.filterMap
          (Output.under n)
        = (g.present cycle canV64 timestamp aud).2.filterMap (Output.under n) := by
  induction pre generalizing aud with
  | nil =>
    obtain ⟨haud, hout⟩ := receiveSignals_of_notMem cycle canV64 timestamp hpost
      (g.present cycle canV64 timestamp aud).1
    rw [List.nil_append, receiveSignals_snd_cons]
    dsimp only
    rw [List.filterMap_append, hout, haud, List.append_nil]
    exact ⟨rfl, rfl⟩
  | cons s pre ih =>
    rw [List.map_cons, List.mem_cons, not_or] at hpre
    obtain ⟨haud, hout⟩ := Signal.present_of_ne cycle canV64 timestamp
      (Ne.symm hpre.1) aud
    obtain ⟨haud', hout'⟩ := ih hpre.2 (s.present cycle canV64 timestamp aud).1
    obtain ⟨hcongr, hcongr'⟩ := Signal.present_congr cycle canV64 timestamp hg haud
    rw [List.cons_append, receiveSignals_snd_cons]
    dsimp only
    rw [List.filterMap_append, hout, List.nil_append, haud', hout', hcongr, hcongr']
    exact ⟨rfl, rfl⟩

/-- A list around its only element of a name. -/
theorem exists_split_of_unique {l : List Signal} {i : ℕ} {g : Signal} (hg : l[i]? = some g)
    (hn : g.name = n) (huniq : ∀ j, (l.map Signal.name)[j]? = some n → j = i) :
    ∃ pre post, l = pre ++ g :: post ∧ n ∉ pre.map Signal.name ∧ n ∉ post.map Signal.name := by
  obtain ⟨hi, rfl⟩ := List.getElem?_eq_some_iff.mp hg
  refine ⟨l.take i, l.drop (i + 1), ?_, fun hmem => ?_, fun hmem => ?_⟩
  · rw [List.getElem_cons_drop, List.take_append_drop]
  · obtain ⟨j, hj⟩ := List.mem_iff_getElem?.mp hmem
    rw [List.map_take, List.getElem?_take] at hj
    split_ifs at hj with hji
    exact absurd (huniq j hj) (Nat.ne_of_lt hji)
  · obtain ⟨j, hj⟩ := List.mem_iff_getElem?.mp hmem
    rw [List.map_drop, List.getElem?_drop] at hj
    exact absurd (huniq _ hj) (by omega)

end Receive

namespace Server

section Alike

variable {n : String} {c : CanId} {i : ℕ} {s t : Server}

/-- The signals of a channel that received a frame. -/
theorem signals_receive (s : Server) (c : CanId) (f : CanFrame) (timestamp : Timeval) :
    ((s.receive c f timestamp).1.channels c).signals
      = (s.channels c).signals.map (fun g =>
          (g.receive (s.channels c).cycle (canvalue2host f.data) timestamp).1) := by
  unfold receive setChannel
  dsimp only
  rw [Function.update_self, receiveSignals_fst]

/-- **A frame of its CAN-ID** does the same under a name in both. -/
theorem Alike.receive (h : Alike n c i s t) (f : CanFrame) (timestamp : Timeval) :
    Alike n c i (s.receive c f timestamp).1 (t.receive c f timestamp).1
      ∧ (t.receive c f timestamp).2.filterMap (Output.under n)
        = (s.receive c f timestamp).2.filterMap (Output.under n) := by
  obtain ⟨g, hgs, hgt, hn⟩ := h.exists_signal
  obtain ⟨pre, post, hl, hpre, hpost⟩ := exists_split_of_unique hgs hn
    (fun j hj => (h.unique h.mem_canids hj).2)
  obtain ⟨pre', post', hl', hpre', hpost'⟩ := exists_split_of_unique hgt hn (fun j hj => by
    rw [h.shape.names] at hj
    exact (h.unique h.mem_canids hj).2)
  have hs := receiveSignals_under (s.channels c).cycle (canvalue2host f.data) timestamp hn hpre
    hpost s.audience
  have ht := receiveSignals_under (t.channels c).cycle (canvalue2host f.data) timestamp hn hpre'
    hpost' t.audience
  have hcongr := Signal.present_congr (t.channels c).cycle (canvalue2host f.data) timestamp hn
    h.audience
  have hcycle : g.present (t.channels c).cycle (canvalue2host f.data) timestamp s.audience
      = g.present (s.channels c).cycle (canvalue2host f.data) timestamp s.audience := by
    rw [h.shape.cycle]
  rw [← hl] at hs
  rw [← hl', hcongr.1, hcongr.2, hcycle] at ht
  refine ⟨h.of_sameShape (s.sameShape_receive c f timestamp) (t.sameShape_receive c f timestamp)
    ?_ (ht.1.trans hs.1.symm), ht.2.trans hs.2.symm⟩
  rw [signals_receive, signals_receive, List.getElem?_map, List.getElem?_map, h.signal,
    h.shape.cycle]

theorem Alike.frame (h : Alike n c i s t) {f : CanFrame}
    (hf : (f.canId &&& CAN_SFF_MASK).setWidth 16 = c) (timestamp : Timeval) :
    Alike n c i (s.frame f timestamp).1 (t.frame f timestamp).1
      ∧ (t.frame f timestamp).2.filterMap (Output.under n)
        = (s.frame f timestamp).2.filterMap (Output.under n) := by
  by_cases hdlc : 8#8 < f.canDlc
  · have hnone : ∀ x : Server, x.frame f timestamp = (x, []) := fun x =>
      frame_of_not_isFor (fun ⟨_, _, hfor⟩ => hfor.1 hdlc) timestamp
    rw [hnone, hnone]
    exact ⟨h, rfl⟩
  · have hfor : Binder.IsFor c f := ⟨hdlc, hf⟩
    have hmem : c ∈ t.canids := h.shape.canids ▸ h.mem_canids
    by_cases hkind : (s.channels c).kind = .send
    · rw [frame_of_send h.mem_canids hfor hkind,
        frame_of_send hmem hfor ((h.shape.kind c).trans hkind)]
      refine ⟨h.of_sameShape (s.sameShape_setChannel c f rfl) (t.sameShape_setChannel c f rfl) ?_
        h.audience, rfl⟩
      unfold setChannel
      dsimp only
      rw [Function.update_self, Function.update_self]
      exact h.signal
    · rw [frame_of_receive h.mem_canids hfor hkind,
        frame_of_receive hmem hfor (fun hk => hkind ((h.shape.kind c).symm.trans hk))]
      exact h.receive f timestamp

/-- **A frame of another CAN-ID** does nothing under a name. -/
theorem Alike.frame_left (h : Alike n c i s t) {f : CanFrame}
    (hf : (f.canId &&& CAN_SFF_MASK).setWidth 16 ≠ c) (timestamp : Timeval) :
    Alike n c i (s.frame f timestamp).1 t
      ∧ (s.frame f timestamp).2.filterMap (Output.under n) = [] := by
  have hshape := s.sameShape_frame f timestamp
  unfold Server.frame at hshape ⊢
  dsimp only at hshape ⊢
  split_ifs at hshape ⊢ with hdlc hmem hkind
  · exact ⟨h, rfl⟩
  · refine ⟨h.of_sameShape hshape (SameShape.refl t) ?_ h.audience, rfl⟩
    unfold setChannel
    dsimp only
    rw [Function.update_of_ne hf.symm]
    exact h.signal
  · have hnot : n ∉ s.names ((f.canId &&& CAN_SFF_MASK).setWidth 16) := fun hn => by
      obtain ⟨j, hj⟩ := List.mem_iff_getElem?.mp hn
      exact hf (h.unique hmem hj).1
    obtain ⟨haud, hout⟩ := receiveSignals_of_notMem
      (s.channels ((f.canId &&& CAN_SFF_MASK).setWidth 16)).cycle (canvalue2host f.data) timestamp
      hnot s.audience
    refine ⟨h.of_sameShape hshape (SameShape.refl t) ?_ (h.audience.trans haud.symm), hout⟩
    unfold Server.receive setChannel
    dsimp only
    rw [Function.update_of_ne hf.symm]
    exact h.signal
  · exact ⟨h, rfl⟩

end Alike

end Server

/-! ### Values to send -/

namespace Server

/-- A request to set is answered without a content, and pushes nothing. -/
theorem set_quiet (s : Server) (client : Client) (event value : Option String) :
    ∀ o ∈ (s.set client event value).2, (∃ f, o = .send f) ∨ (∃ fd, o = .settime fd)
      ∨ (∃ status, o = .fail client status) ∨ o = .success client none := by
  intro o ho
  cases event with
  | none => exact Or.inr (Or.inr (Or.inl ⟨_, List.mem_singleton.mp ho⟩))
  | some n =>
    cases value with
    | none => exact Or.inr (Or.inr (Or.inl ⟨_, List.mem_singleton.mp ho⟩))
    | some text =>
      unfold set at ho
      dsimp only at ho
      cases hl : s.lookup n with
      | none =>
        rw [hl] at ho
        exact Or.inr (Or.inr (Or.inl ⟨_, List.mem_singleton.mp ho⟩))
      | some p =>
        rw [hl] at ho
        dsimp only at ho
        rw [List.mem_append, List.mem_append] at ho
        rcases ho with (ho | ho) | ho
        · left
          unfold assign send at ho
          split_ifs at ho
          · exact absurd ho List.not_mem_nil
          · exact ⟨_, List.mem_singleton.mp ho⟩
          · exact absurd ho List.not_mem_nil
        · obtain ⟨fd, -, rfl⟩ := List.mem_map.mp ho
          exact Or.inr (Or.inl ⟨fd, rfl⟩)
        · exact Or.inr (Or.inr (Or.inr (List.mem_singleton.mp ho)))

theorem set_fst_of_lookup {s : Server} {n : String} {c : CanId} {i : ℕ} {g : Signal}
    (h : s.lookup n = some (c, i, g)) (client : Client) (text : String) :
    (s.set client (some n) (some text)).1
      = (s.assign c i g (BitVec.ofInt 32 (CLib.strtol text 0))).1 := by
  unfold set
  dsimp only
  rw [h]

theorem set_fst_of_none {s : Server} {n : String} (h : s.lookup n = none) (client : Client)
    (text : String) : (s.set client (some n) (some text)).1 = s := by
  unfold set
  dsimp only
  rw [h]

theorem audience_assign (s : Server) (c : CanId) (i : ℕ) (g : Signal) (v : BitVec 32) :
    (s.assign c i g v).1.audience = s.audience := by
  unfold assign
  split_ifs <;> rfl

/-- The signals after a value was assigned to one. -/
theorem signals_assign (s : Server) (c x : CanId) (i : ℕ) (g : Signal) (v : BitVec 32) :
    ((s.assign c i g v).1.channels x).signals
      = if x = c ∧ g.head.rejects v = false then
          (s.channels c).signals.set i (g.setHead (g.head.decode g.head.curValue v).2)
        else (s.channels x).signals := by
  unfold assign
  cases hv : g.head.rejects v with
  | true => rw [if_pos rfl, if_neg (fun h => Bool.false_ne_true h.2.symm)]
  | false =>
    rw [if_neg Bool.false_ne_true]
    unfold setChannel
    dsimp only
    by_cases hx : x = c
    · rw [if_pos ⟨hx, rfl⟩, hx, Function.update_self]
    · rw [if_neg (fun h => hx h.1), Function.update_of_ne hx]

/-- So it shows nothing under a name, and no client is told anything. -/
theorem under_set (s : Server) (client : Client) (event value : Option String) (n : String) :
    (s.set client event value).2.filterMap (Output.under n) = [] := by
  refine List.filterMap_eq_nil_iff.mpr (fun o ho => ?_)
  rcases s.set_quiet client event value o ho with ⟨f, rfl⟩ | ⟨fd, rfl⟩ | ⟨status, rfl⟩ | rfl
  · rfl
  · rfl
  · rfl
  · rfl

section Alike

variable {n : String} {c : CanId} {i : ℕ} {s t : Server}

/-- **A request to set the name** does the same in both. -/
theorem Alike.set (h : Alike n c i s t) (client : Client) (value : Option String) :
    Alike n c i (s.set client (some n) value).1 (t.set client (some n) value).1 := by
  have hs := s.sameShape_set client (some n) value
  have ht := t.sameShape_set client (some n) value
  cases value with
  | none => exact h
  | some text =>
    obtain ⟨g, hgs, hgt, -⟩ := h.exists_signal
    have hls : s.lookup n = some (c, i, g) := lookup_eq_some_iff.mpr ⟨h.place, hgs⟩
    have hlt : t.lookup n = some (c, i, g) :=
      lookup_eq_some_iff.mpr ⟨h.shape.resolve ▸ h.place, hgt⟩
    rw [set_fst_of_lookup hls] at hs ⊢
    rw [set_fst_of_lookup hlt] at ht ⊢
    refine h.of_sameShape hs ht ?_ (by rw [audience_assign, audience_assign, h.audience])
    rw [signals_assign, signals_assign]
    split_ifs
    · obtain ⟨his, -⟩ := List.getElem?_eq_some_iff.mp hgs
      obtain ⟨hit, -⟩ := List.getElem?_eq_some_iff.mp hgt
      rw [List.getElem?_set_self his, List.getElem?_set_self hit]
    · exact h.signal

/-- **A request to set another name** does nothing to it. -/
theorem Alike.set_left (h : Alike n c i s t) {event : Option String} (hn : event ≠ some n)
    (client : Client) (value : Option String) :
    Alike n c i (s.set client event value).1 t := by
  have hs := s.sameShape_set client event value
  cases event with
  | none => exact h
  | some m =>
    cases value with
    | none => exact h
    | some text =>
      cases hl : s.lookup m with
      | none =>
        rw [set_fst_of_none hl]
        exact h
      | some p =>
        obtain ⟨c', i', g⟩ := p
        obtain ⟨hm, hg⟩ := lookup_eq_some_iff.mp hl
        rw [set_fst_of_lookup hl] at hs ⊢
        refine h.of_sameShape hs (SameShape.refl t) ?_ (by rw [audience_assign, h.audience])
        rw [signals_assign]
        split_ifs with hc
        · -- the other name is that of another signal of the channel
          have hi : i' ≠ i := by
            rintro rfl
            have hname := (h.named.resolves m c' i' hm).2
            rw [← hc.1, (h.named.resolves n c i' h.place).2] at hname
            exact hn hname.symm
          rw [List.getElem?_set_ne hi, ← hc.1]
          exact h.signal
        · exact h.signal

end Alike

/-! ### Requests for events -/

/-- Subscriptions in two servers that stay related by each. -/
theorem subscribeSignal_rel {client : Client} {answers : DaemonAnswers}
    (R : Server × List (String × Json) → Server × List (String × Json) → Prop) (same : Prop)
    (hsup : ∀ s t, R s t → t.1.supported = s.1.supported)
    (hone : ∀ s t m, R s t →
      R (subscribeOne client answers s m).1 (subscribeOne client answers t m).1
        ∧ (same → (subscribeOne client answers t m).2 = (subscribeOne client answers s m).2))
    {depth : ℕ} {s t s' : Server × List (String × Json)} {m : String} {e : ℕ} (h : R s t)
    (hr : subscribeSignal client answers depth s m = some (s', e)) :
    ∃ t' e', subscribeSignal client answers depth t m = some (t', e') ∧ R s' t'
      ∧ (same → e' = e) := by
  induction depth generalizing s t s' m e with
  | zero => cases hr
  | succ depth ih =>
    rw [subscribeSignal] at hr ⊢
    split_ifs at hr ⊢ with hm
    · rw [hsup s t h]
      refine Binder.forAll_rel R same ?_ 0 h (fun _ => rfl) hr
      exact fun n _ s₁ t₁ s₂ e₁ h' hr' => ih h' hr'
    · obtain ⟨hR, hsame⟩ := hone s t m h
      rw [Option.some.inj hr] at hR hsame
      exact ⟨_, _, rfl, hR, hsame⟩

/-- Names left in two servers that stay related by each. -/
theorem unsubscribeSignal_rel {client : Client} {answers : DaemonAnswers}
    (R : Server → Server → Prop) (hsup : ∀ s t, R s t → t.supported = s.supported)
    (hone : ∀ s t m, R s t →
      R (unsubscribeOne client answers s m).1 (unsubscribeOne client answers t m).1)
    {depth : ℕ} {s t s' : Server} {m : String} {e : ℕ} (h : R s t)
    (hr : unsubscribeSignal client answers depth s m = some (s', e)) :
    ∃ t' e', unsubscribeSignal client answers depth t m = some (t', e') ∧ R s' t' := by
  induction depth generalizing s t s' m e with
  | zero => cases hr
  | succ depth ih =>
    rw [unsubscribeSignal] at hr ⊢
    split_ifs at hr ⊢ with hm
    · rw [hsup s t h]
      obtain ⟨t', e', hrun, hR, -⟩ := Binder.forAll_rel R False
        (fun _ _ s₁ t₁ s₂ e₁ h' hr' => by
          obtain ⟨t₂, e₂, hrun, hR⟩ := ih h' hr'
          exact ⟨t₂, e₂, hrun, hR, False.elim⟩) 0 h False.elim hr
      exact ⟨t', e', hrun, hR⟩
    · have hR := hone s t m h
      rw [Option.some.inj hr] at hR
      exact ⟨_, _, rfl, hR⟩

section Alike

variable {n : String} {c : CanId} {i : ℕ} {s t : Server}

/-- A change of the audience of one name, the same in both where it is this
one. -/
theorem Alike.update (h : Alike n c i s t) {m : String} {cl cl' : Option (List Client)}
    (hcl : m = n → cl' = cl) :
    Alike n c i { s with audience := Function.update s.audience m cl }
      { t with audience := Function.update t.audience m cl' } := by
  refine h.of_sameShape (s.sameShape_audience _) (t.sameShape_audience _) h.signal ?_
  dsimp only
  by_cases hm : n = m
  · rw [hm, Function.update_self, Function.update_self, hcl hm.symm]
  · rw [Function.update_of_ne hm, Function.update_of_ne hm, h.audience]

/-- A change of the audience of another name. -/
theorem Alike.update_left (h : Alike n c i s t) {m : String} (hm : m ≠ n)
    (cl : Option (List Client)) :
    Alike n c i { s with audience := Function.update s.audience m cl } t := by
  refine h.of_sameShape (s.sameShape_audience _) (SameShape.refl t) h.signal ?_
  dsimp only
  rw [Function.update_of_ne hm.symm, h.audience]

/-- **The verb `subscribe`** does the same under a name in both. -/
theorem Alike.subscribe (h : Alike n c i s t) {client : Client} {event : Option String}
    {answers : DaemonAnswers} {s' : Server} {out : List Output}
    (hr : s.subscribe client event answers = some (s', out)) :
    ∃ t' out', t.subscribe client event answers = some (t', out') ∧ Alike n c i s' t' := by
  cases event with
  | none =>
    cases hr
    exact ⟨t, _, rfl, h⟩
  | some m =>
    unfold Server.subscribe at hr ⊢
    obtain ⟨⟨⟨s₁, apply⟩, e⟩, hsub, heq⟩ := Option.map_eq_some_iff.mp hr
    obtain ⟨⟨t₁, apply'⟩, e', hsub', hR, -⟩ := subscribeSignal_rel
      (fun x y => Alike n c i x.1 y.1) False (t := (t, [])) (fun _ _ hR => hR.shape.supported)
      (fun x y m hR => ⟨by
        rw [subscribeOne_eq, subscribeOne_eq]
        refine hR.update (fun hm => ?_)
        rw [hR.shape.isSome_lookup, hm, hR.audience], False.elim⟩) h hsub
    cases heq
    exact ⟨t₁, _, Option.map_eq_some_iff.mpr ⟨_, hsub', rfl⟩, hR⟩

/-- A subscription to another name. -/
theorem Alike.subscribe_left (h : Alike n c i s t) {client : Client} {event : Option String}
    (hn : event ≠ some n) (hstar : event ≠ some "*") {answers : DaemonAnswers} {s' : Server}
    {out : List Output} (hr : s.subscribe client event answers = some (s', out)) :
    Alike n c i s' t := by
  cases event with
  | none =>
    cases hr
    exact h
  | some m =>
    unfold Server.subscribe Binder.callDepth at hr
    dsimp only at hr
    rw [subscribeSignal, if_neg (fun hm => hstar (congrArg some hm)), Option.map_some] at hr
    cases hr
    rw [subscribeOne_eq]
    exact h.update_left (fun hm => hn (congrArg some hm)) _

/-- **The verb `unsubscribe`** does the same under a name in both. -/
theorem Alike.unsubscribe (h : Alike n c i s t) {client : Client} {args : Option Json}
    {answers : DaemonAnswers} {s' : Server} {out : List Output}
    (hr : s.unsubscribe client args answers = some (s', out)) :
    ∃ t' out', t.unsubscribe client args answers = some (t', out') ∧ Alike n c i s' t' := by
  unfold Server.unsubscribe at hr ⊢
  obtain ⟨names, hnames, hr⟩ := Option.bind_eq_some_iff.mp hr
  obtain ⟨⟨s₁, e⟩, hall, heq⟩ := Option.map_eq_some_iff.mp hr
  obtain ⟨t₁, e', hall', hR, -⟩ := Binder.forAll_rel (Alike n c i) False (t := t)
    (fun m _ x y x' e h' hr' => by
      obtain ⟨y', e', hy, hR⟩ := unsubscribeSignal_rel (Alike n c i)
        (fun _ _ hR => hR.shape.supported) (fun x y m hR => by
          rw [unsubscribeOne_fst, unsubscribeOne_fst]
          exact hR.update (fun hm => by rw [hm, hR.audience])) h' hr'
      exact ⟨y', e', hy, hR, False.elim⟩) 0 h False.elim hall
  cases heq
  exact ⟨t₁, _, Option.bind_eq_some_iff.mpr
    ⟨names, hnames, Option.map_eq_some_iff.mpr ⟨_, hall', rfl⟩⟩, hR⟩

/-- Other names to leave. -/
theorem Alike.unsubscribe_left (h : Alike n c i s t) {client : Client} {args : Option Json}
    {names : List String} (hnames : Binder.unsubscribeNames args = some names)
    (hn : n ∉ names) (hstar : "*" ∉ names) {answers : DaemonAnswers} {s' : Server}
    {out : List Output} (hr : s.unsubscribe client args answers = some (s', out)) :
    Alike n c i s' t := by
  unfold Server.unsubscribe Binder.callDepth at hr
  rw [hnames, Option.bind_some] at hr
  obtain ⟨⟨s₁, e⟩, hall, heq⟩ := Option.map_eq_some_iff.mp hr
  cases heq
  refine Binder.forAll_keeps (P := fun x => Alike n c i x t) (fun m hm x x' e' hx hr' => ?_) h hall
  have hne : m ≠ "*" := fun heq => hstar (heq ▸ hm)
  rw [unsubscribeSignal, if_neg hne] at hr'
  have heq : x' = (unsubscribeOne client answers x m).1 :=
    (congrArg Prod.fst (Option.some.inj hr')).symm
  rw [heq, unsubscribeOne_fst]
  exact hx.update_left (fun hm' => hn (hm' ▸ hm)) _

end Alike

end Server

/-! ### Steps and runs -/

namespace Server

/-- A request for events is answered once. -/
theorem subscribe_reply {s s' : Server} {client : Client} {event : Option String}
    {answers : DaemonAnswers} {out : List Output}
    (h : s.subscribe client event answers = some (s', out)) :
    ∃ o, out = [o] ∧ ((∃ j, o = .success client j) ∨ ∃ status, o = .fail client status) := by
  cases event with
  | none =>
    cases h
    exact ⟨_, rfl, Or.inr ⟨_, rfl⟩⟩
  | some m =>
    obtain ⟨r, -, heq⟩ := Option.map_eq_some_iff.mp h
    cases heq
    split_ifs
    · exact ⟨_, rfl, Or.inl ⟨_, rfl⟩⟩
    · exact ⟨_, rfl, Or.inr ⟨_, rfl⟩⟩

theorem unsubscribe_reply {s s' : Server} {client : Client} {args : Option Json}
    {answers : DaemonAnswers} {out : List Output}
    (h : s.unsubscribe client args answers = some (s', out)) :
    ∃ o, out = [o] ∧ (o = .success client none ∨ ∃ status, o = .fail client status) := by
  unfold unsubscribe at h
  obtain ⟨names, -, h⟩ := Option.bind_eq_some_iff.mp h
  obtain ⟨r, -, heq⟩ := Option.map_eq_some_iff.mp h
  cases heq
  split_ifs
  · exact ⟨_, rfl, Or.inl rfl⟩
  · exact ⟨_, rfl, Or.inr ⟨_, rfl⟩⟩

/-- A `get` is answered once, with a content or not at all. -/
theorem get_reply (s : Server) (client : Client) (event : Option String) :
    ∃ o, s.get client event = [o]
      ∧ ((∃ j, o = .success client (some j)) ∨ ∃ status, o = .fail client status) := by
  unfold get
  split
  · exact ⟨_, rfl, Or.inr ⟨_, rfl⟩⟩
  · split
    · exact ⟨_, rfl, Or.inr ⟨_, rfl⟩⟩
    · split
      · exact ⟨_, rfl, Or.inl ⟨_, rfl⟩⟩
      · exact ⟨_, rfl, Or.inl ⟨_, rfl⟩⟩
      · exact ⟨_, rfl, Or.inr ⟨_, rfl⟩⟩

/-- A tick sends a frame or does nothing. -/
theorem timer_out (s : Server) (c : CanId) : s.timer c = [] ∨ ∃ f, s.timer c = [.send f] := by
  unfold timer send
  split_ifs
  · exact Or.inr ⟨_, rfl⟩
  · exact Or.inl rfl
  · exact Or.inl rfl

/-- Answers are not given under a name. -/
theorem under_reply (n : String) {client : Client} {o : Output}
    (h : (∃ j, o = .success client j) ∨ ∃ status, o = .fail client status) :
    [o].filterMap (Output.under n) = [] := by
  rcases h with ⟨j, rfl⟩ | ⟨status, rfl⟩
  · rfl
  · rfl

section Alike

variable {n : String} {c : CanId} {i : ℕ} {s t : Server}

/-- **An input that concerns a name** shows the same under it in both. -/
theorem Alike.step (h : Alike n c i s t) {e : Input} (he : e.concerns n c = true) {s' : Server}
    {out : List Output} (hs : s.step e = some (s', out)) :
    ∃ t' out', t.step e = some (t', out') ∧ Alike n c i s' t'
      ∧ out'.filterMap (Output.under n) = out.filterMap (Output.under n) := by
  cases e with
  | frame f timestamp =>
    obtain ⟨rfl, rfl⟩ := Machine.eq_of_some hs
    obtain ⟨hR, hout⟩ := h.frame (of_decide_eq_true he) timestamp
    exact ⟨_, _, rfl, hR, hout⟩
  | set client event value sent =>
    obtain ⟨rfl, rfl⟩ := Machine.eq_of_some hs
    have hev : event = some n := of_decide_eq_true he
    subst hev
    exact ⟨_, _, rfl, h.set client value,
      (t.under_set client (some n) value n).trans (s.under_set client (some n) value n).symm⟩
  | subscribe client event answers =>
    obtain ⟨t', out', ht, hR⟩ := h.subscribe hs
    obtain ⟨o, rfl, ho⟩ := subscribe_reply hs
    obtain ⟨o', rfl, ho'⟩ := subscribe_reply ht
    exact ⟨t', _, ht, hR, (under_reply n ho').trans (under_reply n ho).symm⟩
  | unsubscribe client args answers =>
    obtain ⟨t', out', ht, hR⟩ := h.unsubscribe hs
    obtain ⟨o, rfl, ho⟩ := unsubscribe_reply hs
    obtain ⟨o', rfl, ho'⟩ := unsubscribe_reply ht
    exact ⟨t', _, ht, hR, (under_reply n (ho'.imp_left (fun h => ⟨none, h⟩))).trans
      (under_reply n (ho.imp_left (fun h => ⟨none, h⟩))).symm⟩
  | timer _ _ => exact absurd he Bool.false_ne_true
  | get _ _ => exact absurd he Bool.false_ne_true
  | list _ => exact absurd he Bool.false_ne_true

/-- **An input that does not** shows nothing under it. -/
theorem Alike.step_left (h : Alike n c i s t) {e : Input} (he : e.concerns n c = false)
    {s' : Server} {out : List Output} (hs : s.step e = some (s', out)) :
    Alike n c i s' t ∧ out.filterMap (Output.under n) = [] := by
  cases e with
  | frame f timestamp =>
    obtain ⟨rfl, rfl⟩ := Machine.eq_of_some hs
    exact h.frame_left (of_decide_eq_false he) timestamp
  | set client event value sent =>
    obtain ⟨rfl, rfl⟩ := Machine.eq_of_some hs
    exact ⟨h.set_left (of_decide_eq_false he) client value, s.under_set client event value n⟩
  | subscribe client event answers =>
    have hn := not_or.mp (of_decide_eq_false he)
    obtain ⟨o, rfl, ho⟩ := subscribe_reply hs
    exact ⟨h.subscribe_left hn.1 hn.2 hs, under_reply n ho⟩
  | unsubscribe client args answers =>
    obtain ⟨o, rfl, ho⟩ := unsubscribe_reply hs
    refine ⟨?_, under_reply n (ho.imp_left (fun h => ⟨none, h⟩))⟩
    cases hnames : Binder.unsubscribeNames args with
    | none =>
      have hs' : s.unsubscribe client args answers = some (s', [o]) := hs
      unfold Server.unsubscribe at hs'
      rw [hnames] at hs'
      cases hs'
    | some names =>
      have he' : (Binder.unsubscribeNames args).any (fun names => n ∈ names ∨ "*" ∈ names)
          = false := he
      rw [hnames] at he'
      have hn := not_or.mp (of_decide_eq_false he')
      exact h.unsubscribe_left hnames hn.1 hn.2 hs
  | timer x sent =>
    cases hs
    refine ⟨h, ?_⟩
    rcases s.timer_out x with hout | ⟨f, hout⟩
    · rw [hout]
      rfl
    · rw [hout]
      rfl
  | get client event =>
    cases hs
    obtain ⟨o, hout, ho⟩ := s.get_reply client event
    rw [hout]
    exact ⟨h, under_reply n (ho.imp_left (fun ⟨j, hj⟩ => ⟨some j, hj⟩))⟩
  | list client =>
    cases hs
    exact ⟨h, rfl⟩

/-- The name has the same value in both. -/
theorem Alike.get (h : Alike n c i s t) (client : Client) :
    t.get client (some n) = s.get client (some n) := by
  obtain ⟨g, hgs, hgt, -⟩ := h.exists_signal
  unfold Server.get
  dsimp only
  rw [lookup_eq_some_iff.mpr ⟨h.place, hgs⟩,
    lookup_eq_some_iff.mpr ⟨h.shape.resolve ▸ h.place, hgt⟩]

/-- **A run shows under a name what its inputs that concern the name show.** -/
theorem Alike.run (h : Alike n c i s t) {ins : List Input} {s' : Server} {outs : List Output}
    (hr : Server.run s ins = some (s', outs)) :
    ∃ t' outs', Server.run t (ins.filter (Input.concerns n c)) = some (t', outs')
      ∧ Alike n c i s' t'
      ∧ outs'.filterMap (Output.under n) = outs.filterMap (Output.under n) :=
  Machine.run_filter (P := fun _ => True)
    (fun _ _ _ _ _ hR _ he hs => hR.step he hs) (fun _ _ _ _ _ hR he hs => hR.step_left he hs)
    h (fun _ _ => trivial) hr

end Alike

end Server

namespace Binder

section Named

variable {cs : List CanidDef} {d : Dict}

/-- The names in the channels are those of the slots. -/
theorem names_start {c : CanId} {i : ℕ} {n : String} :
    ((start d).server.names c)[i]? = some n
      ↔ i < (d.info c).nData ∧ d.name (.slot c i) = n := by
  have hnames : (start d).server.names c
      = (List.range (d.info c).nData).map (fun i => d.name (.slot c i)) := by
    show ((List.range (d.info c).nData).map (fun i => d.signalAt (.slot c i))).map _ = _
    rw [List.map_map]
    rfl
  rw [hnames, List.getElem?_map, Option.map_eq_some_iff]
  constructor
  · rintro ⟨j, hj, rfl⟩
    obtain ⟨hlt, rfl⟩ := List.getElem?_eq_some_iff.mp hj
    rw [List.length_range] at hlt
    rw [List.getElem_range]
    exact ⟨hlt, rfl⟩
  · rintro ⟨hlt, rfl⟩
    exact ⟨i, List.getElem?_range hlt, rfl⟩

/-- What resolves is the name of a slot. -/
theorem place_eq_some_iff {n : String} {c : CanId} {i : ℕ} :
    d.place n = some (c, i) ↔ d.getPropertyDict n = some (.slot c i) := by
  unfold Dict.place
  cases d.getPropertyDict n with
  | none => exact iff_of_false (Option.some_ne_none _).symm (Option.some_ne_none _).symm
  | some a =>
    cases a with
    | slot c' i' => simp
    | cell k => simp

/-- **Where every name belongs to one CAN-ID**, the server has each name
once. -/
theorem named_start (hconf : Dict.Configured cs d) (hdis : NamesDisjoint cs) :
    (start d).server.Named where
  resolves n c i hn := by
    have hget := place_eq_some_iff.mp hn
    obtain ⟨hroot, hname⟩ := hconf.sound.wf.getPropertyDict_eq_some_iff.mp hget
    obtain ⟨c', hc', i', hi', heq⟩ := hconf.sound.wf.slot _ hroot
    cases heq
    exact ⟨hc', names_start.mpr ⟨hi', hname⟩⟩
  unique n c c' i i' hc hc' hn hn' := by
    obtain ⟨hi, hname⟩ := names_start.mp hn
    obtain ⟨hi', hname'⟩ := names_start.mp hn'
    have hget := hconf.sound.wf.getPropertyDict_eq_some_iff.mpr
      ⟨hconf.slot_mem hdis hc hi, hname⟩
    have hget' := hconf.sound.wf.getPropertyDict_eq_some_iff.mpr
      ⟨hconf.slot_mem hdis hc' hi', hname'⟩
    obtain ⟨hcc, hii⟩ := Addr.slot.inj (Option.some.inj (hget.symm.trans hget'))
    exact ⟨hcc.symm, hii.symm⟩

end Named

/-- **What is told under a name depends on what concerns it, and on nothing
else**: left with the inputs that concern the name, every run is a run again,
with the same pushes and drops under the name, and after which the name has the
same value and the same clients. -/
theorem name_independent {jobj : Json} {d : Dict} {cs : List CanidDef}
    (hload : canDefineInit jobj = some d) (hcs : configured jobj = some cs)
    (hdis : NamesDisjoint cs) {n : String} {a : Addr} (hn : d.getPropertyDict n = some a)
    {ins : List Input} {b : Binder} {outs : List Output}
    (hrun : run (start d) ins = some (b, outs)) :
    ∃ b' outs', run (start d) (ins.filter (Input.concerns n (d.mem a).mycanid)) = some (b', outs')
      ∧ outs'.filterMap (Output.under n) = outs.filterMap (Output.under n)
      ∧ b'.audience n = b.audience n
      ∧ ∀ client, b'.get client (some n) = b.get client (some n) := by
  have hd := Dict.registered_of_canDefineInit hload
  obtain ⟨cs', hcs', hconf⟩ := Dict.configured_of_canDefineInit hload
  cases hcs.symm.trans hcs'
  have hstart := follows_start hd.sound.pristine
  obtain ⟨c, i, rfl, -, -, hmy, hlookup⟩ := hstart.server_lookup hd hn
  obtain ⟨s, outs', hrun', halike, hout⟩ :=
    (Server.Alike.refl (named_start hconf hdis) (Server.lookup_eq_some_iff.mp hlookup).1).run
      (hstart.to_server_run hd hrun)
  obtain ⟨b', hb', rfl, hfollow⟩ := hstart.of_server_run hd hrun'
  have hmy' : (d.mem (.slot c i)).mycanid = c := hmy
  rw [hmy']
  refine ⟨b', outs', hb', hout, halike.audience, fun client => ?_⟩
  rw [hfollow.server_get hd, (hstart.run hd.sound.wf hrun).server_get hd]
  exact halike.get client

/-- The speed of a run with a lamp in it: it is pushed three times, and then its
event is dropped. -/
theorem name_independent_sample :
    ∃ d b b' outs outs' a, canDefineInit sampleConfig = some d
      ∧ d.getPropertyDict "speed" = some a ∧ run (start d) busyInputs = some (b, outs)
      ∧ (outs.filterMap (Output.under "speed")).length = 4
      ∧ run (start d) (busyInputs.filter (Input.concerns "speed" (d.mem a).mycanid))
        = some (b', outs')
      ∧ outs'.filterMap (Output.under "speed") = outs.filterMap (Output.under "speed")
      ∧ b'.audience "speed" = b.audience "speed" := by
  have hload : (canDefineInit sampleConfig).bind (fun d => (run (start d) busyInputs).map
      (fun r => ((d.getPropertyDict "speed").isSome,
        (r.2.filterMap (Output.under "speed")).length))) = some (true, 4) := by
    decide
  obtain ⟨d, hd, hload⟩ := Option.bind_eq_some_iff.mp hload
  obtain ⟨⟨b, outs⟩, hr, hval⟩ := Option.map_eq_some_iff.mp hload
  obtain ⟨hget, hlength⟩ := Prod.mk.inj hval
  obtain ⟨a, ha⟩ := Option.isSome_iff_exists.mp hget
  have hnames : (configured sampleConfig).map (fun cs => decide (NamesDisjoint cs))
      = some true := by
    decide
  obtain ⟨cs, hcs, hdis⟩ := Option.map_eq_some_iff.mp hnames
  obtain ⟨b', outs', hr', hout, haud, -⟩ :=
    name_independent hd hcs (of_decide_eq_true hdis) ha hr
  exact ⟨d, b, b', outs, outs', a, hd, ha, hr, hlength, hr', hout, haud⟩

end Binder
