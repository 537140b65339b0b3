import CanBinder.Repeats
import CanBinder.Transfer

/-!
# Bindings that agree

Two bindings of one file on one bus may have different pasts: one was started
later, or lost frames, or was told a value by `set`. A frame is complete for a
property if all the entries of the property can take their values, and one of
them is active where there are several (`Standing.completes`). From the first
complete frame on, and as long as both are given the same payloads and nobody
sets the property, both answer `get` alike (`Binder.converge`).

The reason is that of the past of a signal only its standing is left: what its
entries hold, and which of them is shown. A payload makes one standing of
another, whatever the times and the audiences are (`Signal.standing_receive`),
and where it is complete it makes the same of all of them.
-/

/-! ## What stands of a signal -/

namespace Entry

/-- The value an entry holds. -/
def held (e : Entry) : Value := e.valueOf e.curValue

/-- A definition without a value. -/
def blank (p : PropDef) : Entry := { p with curValue := DataContent.zero }

/-- What entries receive depends on their definitions alone. -/
theorem receive_map_blank (canV64 : BitVec 64) (l : List Entry) :
    receive canV64 ((l.map Entry.toPropDef).map blank) = receive canV64 l := by
  induction l with
  | nil => rfl
  | cons e l ih =>
    rw [List.map_cons, List.map_cons, receive, receive, ih]
    have hrest : ((l.map Entry.toPropDef).map blank).map (fun x => x.store DataContent.zero)
        = l.map (fun x => x.store DataContent.zero) := by
      rw [List.map_map, List.map_map]
      rfl
    rw [List.map_cons, List.map_cons, hrest]
    rfl

/-- **Entries that can all take their values** hold their meanings. -/
theorem map_held_receive {canV64 : BitVec 64} {l : List Entry}
    (h : ∀ e ∈ l, e.unreadable canV64 = false) :
    (receive canV64 l).map held = l.map (fun e => e.meaning (e.raw canV64)) := by
  rw [receive_of_readable h, List.map_map]
  exact List.map_congr_left (fun e he => PropDef.valueOf_decode DataContent.zero (h e he))

end Entry

/-- An element with a property has a last one. -/
theorem exists_lastIdx {α : Type} {q : α → Bool} {l : List α} (h : l.any q = true) :
    ∃ i, lastIdx q l = some i := by
  induction l with
  | nil => cases h
  | cons x l ih =>
    rw [lastIdx]
    cases hl : lastIdx q l with
    | some i => exact ⟨i + 1, rfl⟩
    | none =>
      rw [List.any_cons, Bool.or_eq_true] at h
      rcases h with hx | hrest
      · exact ⟨0, if_pos hx⟩
      · obtain ⟨i, hi⟩ := ih hrest
        rw [hl] at hi
        cases hi

/-- **What stands of a signal**: its definitions, the values of its entries, and
the one it shows, where there are several. -/
@[ext] structure Standing where
  /-- The definitions of the entries. -/
  layout : List PropDef
  /-- The values they hold. -/
  values : List Value
  /-- The place of the entry that is shown. -/
  applied : Option ℕ

namespace Standing

/-- **A payload and a standing.** -/
def after (st : Standing) (data : Payload) : Standing :=
  let canV64 := canvalue2host data
  if st.layout.any (fun p => p.unreadable canV64) then
    if st.layout.length = 1 then st
    else
      { st with values := (Entry.receive canV64 (st.layout.map Entry.blank)).map Entry.held }
  else
    { st with
      values := st.layout.map (fun p => p.meaning (p.raw canV64))
      applied :=
        if st.layout.length = 1 then none
        else (lastIdx (fun p => p.active canV64) st.layout).or st.applied }

/-- **The payload is complete** for a signal: all entries can take their values,
and if there are several then one of them is active. -/
def completes (data : Payload) (ps : List PropDef) : Bool :=
  !ps.any (fun p => p.unreadable (canvalue2host data))
    && (ps.length == 1 || ps.any (fun p => p.active (canvalue2host data)))

/-- **After a complete payload** nothing is left of what was before. -/
theorem after_of_completes {st st' : Standing} (hlayout : st'.layout = st.layout)
    {data : Payload} (h : completes data st.layout = true) : st'.after data = st.after data := by
  unfold completes at h
  rw [Bool.and_eq_true, Bool.not_eq_true', Bool.or_eq_true, beq_iff_eq] at h
  obtain ⟨hread, hone⟩ := h
  unfold after
  dsimp only
  rw [hlayout, hread, if_neg Bool.false_ne_true, if_neg Bool.false_ne_true]
  by_cases hlen : st.layout.length = 1
  · rw [if_pos hlen, if_pos hlen]
  · obtain ⟨k, hk⟩ := exists_lastIdx (hone.resolve_left hlen)
    rw [if_neg hlen, if_neg hlen, hk]
    rfl

end Standing

namespace Signal

/-- What stands of a signal. -/
def standing (g : Signal) : Standing where
  layout := g.layout
  values := g.entries.map Entry.held
  applied := if g.entries.length = 1 then none else g.applied

/-- A signal of one entry. -/
theorem standing_of_single {g : Signal} {e : Entry} (h : g.entries = [e]) :
    g.standing = ⟨[e.toPropDef], [e.held], none⟩ := by
  unfold standing layout
  rw [h]
  rfl

/-- A signal of several entries. -/
theorem standing_of_chain {g : Signal} (h : g.entries.length ≠ 1) :
    g.standing = ⟨g.layout, g.entries.map Entry.held, g.applied⟩ := by
  unfold standing
  rw [if_neg h]

theorem standing_receiveOne {g : Signal} {e : Entry} (he : g.entries = [e]) (cycle : BitVec 32)
    (data : Payload) (timestamp : Timeval) :
    (g.receiveOne cycle (canvalue2host data) timestamp).1.standing = g.standing.after data := by
  obtain ⟨u, -, hu⟩ := g.receiveOne_fst cycle (canvalue2host data) timestamp
  have hentries : (g.receiveOne cycle (canvalue2host data) timestamp).1.entries
      = [e.store (e.decode e.curValue (e.raw (canvalue2host data))).2] := by
    rw [hu]
    show _ :: g.entries.tail = _
    rw [he, head_of_single he]
    rfl
  rw [standing_of_single hentries, standing_of_single he]
  unfold Standing.after
  dsimp only
  rw [List.any_cons, List.any_nil, Bool.or_false]
  by_cases hun : e.unreadable (canvalue2host data) = true
  · have hkeep : e.decode e.curValue (e.raw (canvalue2host data)) = (.error, e.curValue) :=
      PropDef.decode_of_rejects hun
    rw [if_pos hun, hkeep]
    rfl
  · have hheld : (e.store (e.decode e.curValue (e.raw (canvalue2host data))).2).held
        = e.meaning (e.raw (canvalue2host data)) :=
      PropDef.valueOf_decode e.curValue (Bool.not_eq_true _ ▸ hun)
    rw [if_neg hun, hheld]
    rfl

theorem standing_receiveChain {g : Signal} (hlen : g.entries.length ≠ 1) (cycle : BitVec 32)
    (data : Payload) (timestamp : Timeval) :
    (g.receiveChain cycle (canvalue2host data) timestamp).1.standing = g.standing.after data := by
  obtain ⟨u, -, hu⟩ := g.receiveChain_fst cycle (canvalue2host data) timestamp
  generalize (g.receiveChain cycle (canvalue2host data) timestamp).1 = q at hu
  have hentries : q.entries = Entry.receive (canvalue2host data) g.entries := by rw [hu]
  have hlayout : q.layout = g.layout := by
    unfold layout
    rw [hentries, Entry.map_toPropDef_receive]
  have hany : g.layout.any (fun p => p.unreadable (canvalue2host data))
      = g.entries.any (fun e => e.unreadable (canvalue2host data)) := List.any_map
  rw [standing_of_chain (by rwa [hentries, Entry.length_receive]), standing_of_chain hlen, hlayout,
    hentries]
  unfold Standing.after
  dsimp only
  rw [hany, show g.layout.length = g.entries.length from List.length_map _, if_neg hlen,
    if_neg hlen]
  by_cases hun : g.entries.any (fun e => e.unreadable (canvalue2host data)) = true
  · have hblank : (g.layout.map Entry.blank) = (g.entries.map Entry.toPropDef).map Entry.blank :=
      rfl
    rw [if_pos hun, hblank, Entry.receive_map_blank, hu]
    dsimp only
    rw [if_pos hun]
  · have hread : ∀ e ∈ g.entries, e.unreadable (canvalue2host data) = false := fun e he =>
      Bool.eq_false_iff.mpr (fun hun' => hun (List.any_eq_true.mpr ⟨e, he, hun'⟩))
    rw [if_neg hun, Entry.map_held_receive hread, hu]
    dsimp only
    rw [if_neg hun]
    unfold layout
    rw [lastIdx_map, List.map_map]
    rfl

/-- **A frame and a signal** are a payload and a standing. -/
theorem standing_receive (cycle : BitVec 32) (data : Payload) (timestamp : Timeval)
    (g : Signal) :
    (g.receive cycle (canvalue2host data) timestamp).1.standing = g.standing.after data := by
  unfold receive
  split_ifs with hlen
  · obtain ⟨e, he⟩ := List.length_eq_one_iff.mp hlen
    exact standing_receiveOne he cycle data timestamp
  · exact standing_receiveChain hlen cycle data timestamp

/-! ## What a standing is worth -/

/-- **Nothing is stored for a list.** -/
def Bare (g : Signal) : Prop := ∀ e ∈ g.entries, e.curValue.arrayValues = []

/-- The entry a signal shows is where the standing says. -/
theorem getElem?_shown (g : Signal) :
    g.entries[if g.applied.getD 0 < g.entries.length then g.applied.getD 0 else 0]?
      = some g.shown := by
  unfold shown
  split_ifs with h
  · rw [List.getD_eq_getElem?_getD, List.getElem?_eq_getElem h]
    rfl
  · rw [List.getD_eq_getElem?_getD, List.getElem?_eq_none (not_lt.mp h), ← List.head?_eq_getElem?]
    exact List.head?_eq_some_head g.nonempty

/-- Where it is in a standing. -/
theorem place_shown {g g' : Signal} (h : g'.standing = g.standing) :
    ∃ k : ℕ, g.entries[k]? = some g.shown ∧ g'.entries[k]? = some g'.shown := by
  have hlen : g'.entries.length = g.entries.length := by
    have hlayout := congrArg (fun st => List.length (Standing.layout st)) h
    unfold standing layout at hlayout
    dsimp only at hlayout
    rwa [List.length_map, List.length_map] at hlayout
  refine ⟨_, g.getElem?_shown, ?_⟩
  have hshown := g'.getElem?_shown
  by_cases hone : g.entries.length = 1
  · -- any place but the first is none
    have hplace : ∀ a : ℕ, (if a < 1 then a else 0) = 0 := fun a => by
      split_ifs <;> omega
    rw [hlen, hone, hplace] at hshown
    rw [hone, hplace]
    exact hshown
  · have happlied := congrArg Standing.applied h
    rw [standing_of_chain hone, standing_of_chain (by rwa [hlen])] at happlied
    dsimp only at happlied
    rwa [happlied, hlen] at hshown

/-- **The standing is what a signal reports.** -/
theorem value_congr {g g' : Signal} (h : g'.standing = g.standing) (hbare : g.Bare)
    (hbare' : g'.Bare) : g'.value = g.value := by
  obtain ⟨k, hk, hk'⟩ := place_shown h
  have hdef : g'.shown.toPropDef = g.shown.toPropDef := by
    have hlayout := congrArg (fun st : Standing => st.layout[k]?) h
    unfold standing layout at hlayout
    dsimp only at hlayout
    rw [List.getElem?_map, List.getElem?_map, hk, hk'] at hlayout
    exact Option.some.inj hlayout
  have hheld : g'.shown.held = g.shown.held := by
    have hvalues := congrArg (fun st : Standing => st.values[k]?) h
    unfold standing at hvalues
    dsimp only at hvalues
    rw [List.getElem?_map, List.getElem?_map, hk, hk'] at hvalues
    exact Option.some.inj hvalues
  have hlist := hbare _ (List.mem_of_getElem? hk)
  have hlist' := hbare' _ (List.mem_of_getElem? hk')
  unfold value
  by_cases harray : g.shown.varType = .array
  · have harray' : g'.shown.varType = .array := by rw [hdef, harray]
    have hlists : valueObject g'.shown.bit = valueObject g.shown.bit := by
      unfold valueObject Entry.bit
      dsimp only
      rw [harray, harray', hlist, hlist']
    unfold Dict.report
    rw [hlists]
  · have hfield : g.shown.bit.SameField g'.shown.bit.toPropDef := by
      show g'.shown.toPropDef = { g.shown.toPropDef with propertyKind := g'.shown.propertyKind }
      rw [hdef]
    exact report_eq_of_value hfield harray hheld

end Signal

/-! ## Nothing is stored for a list -/

/-- A raw value leaves the list of a content as it is. -/
theorem PropDef.arrayValues_decode (p : PropDef) (c : DataContent) (v : BitVec 32) :
    (p.decode c v).2.arrayValues = c.arrayValues := by
  rcases p.decode_snd c v with hc | hc
  · rw [hc]
  · rw [hc]
    unfold PropDef.store
    cases p.varType <;> rfl

/-- **Entries that receive a frame** have no lists. -/
theorem Entry.bare_receive {canV64 : BitVec 64} {l : List Entry} :
    ∀ e ∈ Entry.receive canV64 l, e.curValue.arrayValues = [] := by
  induction l with
  | nil => exact fun _ he => absurd he List.not_mem_nil
  | cons x l ih =>
    intro e he
    rw [Entry.receive] at he
    split_ifs at he
    · obtain ⟨y, -, rfl⟩ := List.mem_map.mp he
      rfl
    · rcases List.mem_cons.mp he with rfl | he
      · exact x.toPropDef.arrayValues_decode DataContent.zero _
      · exact ih e he

namespace Signal

theorem Bare.setHead {g : Signal} (h : g.Bare) (v : BitVec 32) :
    (g.setHead (g.head.decode g.head.curValue v).2).Bare := by
  intro e he
  have he : e ∈ g.head.store (g.head.decode g.head.curValue v).2 :: g.entries.tail := he
  rcases List.mem_cons.mp he with rfl | he
  · show (g.head.decode g.head.curValue v).2.arrayValues = []
    rw [PropDef.arrayValues_decode]
    exact h _ (List.head_mem g.nonempty)
  · exact h e (List.mem_of_mem_tail he)

theorem Bare.receive {g : Signal} (h : g.Bare) (cycle : BitVec 32) (canV64 : BitVec 64)
    (timestamp : Timeval) : (g.receive cycle canV64 timestamp).1.Bare := by
  unfold Signal.receive
  split_ifs
  · obtain ⟨u, -, hu⟩ := g.receiveOne_fst cycle canV64 timestamp
    rw [hu]
    exact h.setHead _
  · obtain ⟨u, -, hu⟩ := g.receiveChain_fst cycle canV64 timestamp
    rw [hu]
    exact Entry.bare_receive

end Signal

/-! ## One signal of a server -/

/-- The payload an input has for a CAN-ID. -/
def Input.payload (c : CanId) : Input → Option Payload
  | .frame f _ => if Binder.IsFor c f then some f.data else none
  | _ => none

namespace Server

/-- The signals of a channel to receive, after a frame. -/
theorem signals_frame {s : Server} {c : CanId} (hc : c ∈ s.canids)
    (hkind : (s.channels c).kind ≠ .send) (f : CanFrame) (timestamp : Timeval) :
    ((s.frame f timestamp).1.channels c).signals =
      if Binder.IsFor c f then
        (s.channels c).signals.map (fun g =>
          (g.receive (s.channels c).cycle (canvalue2host f.data) timestamp).1)
      else (s.channels c).signals := by
  split_ifs with hfor
  · rw [frame_of_receive hc hfor hkind, signals_receive]
  · by_cases hother : ∃ x ∈ s.canids, Binder.IsFor x f
    · obtain ⟨x, hx, hforx⟩ := hother
      have hne : c ≠ x := fun heq => hfor (heq ▸ hforx)
      by_cases hsend : (s.channels x).kind = .send
      · rw [frame_of_send hx hforx hsend]
        unfold setChannel
        dsimp only
        rw [Function.update_of_ne hne]
      · rw [frame_of_receive hx hforx hsend]
        unfold receive setChannel
        dsimp only
        rw [Function.update_of_ne hne]
    · rw [frame_of_not_isFor hother]

/-- **What an input does to a signal**: it is given a payload, or a value for its
name, or it is left as it is. -/
inductive Does (s : Server) (c : CanId) (i : ℕ) (e : Input) (g : Signal) : Signal → Prop
  | payload {cycle : BitVec 32} {data : Payload} {timestamp : Timeval}
      (h : e.payload c = some data) :
      Does s c i e g (g.receive cycle (canvalue2host data) timestamp).1
  | value {n : String} {v : BitVec 32} (h : e.payload c = none) (hset : e.setName = some n)
      (hn : s.resolve n = some (c, i)) :
      Does s c i e g (g.setHead (g.head.decode g.head.curValue v).2)
  | nothing (h : e.payload c = none) : Does s c i e g g

section Signals

variable {s s' : Server} {c : CanId} {i : ℕ} {g : Signal}

/-- A value for a name. -/
theorem does_set (hg : (s.channels c).signals[i]? = some g) (client : Client)
    (event value : Option String) (sent : Bool) :
    ∃ g', ((s.set client event value).1.channels c).signals[i]? = some g'
      ∧ Does s c i (.set client event value sent) g g' := by
  have hsame : ∃ g', (s.channels c).signals[i]? = some g'
      ∧ Does s c i (.set client event value sent) g g' := ⟨g, hg, .nothing rfl⟩
  cases event with
  | none => exact hsame
  | some n =>
    cases value with
    | none => exact hsame
    | some text =>
      cases hl : s.lookup n with
      | none =>
        rw [set_fst_of_none hl]
        exact hsame
      | some p =>
        obtain ⟨c', i', g₁⟩ := p
        obtain ⟨hresolve, hg₁⟩ := lookup_eq_some_iff.mp hl
        rw [set_fst_of_lookup hl, signals_assign]
        split_ifs with hx
        · rw [← hx.1] at hg₁ hresolve ⊢
          by_cases hi : i' = i
          · subst hi
            rw [hg] at hg₁
            cases hg₁
            obtain ⟨hlt, -⟩ := List.getElem?_eq_some_iff.mp hg
            exact ⟨_, List.getElem?_set_self hlt, .value rfl rfl hresolve⟩
          · rw [List.getElem?_set_ne hi]
            exact hsame
        · exact hsame

/-- **One input.** -/
theorem does_step {e : Input} {out : List Output} (hs : s.step e = some (s', out))
    (hc : c ∈ s.canids) (hkind : (s.channels c).kind ≠ .send)
    (hg : (s.channels c).signals[i]? = some g) :
    ∃ g', (s'.channels c).signals[i]? = some g' ∧ Does s c i e g g' := by
  cases e with
  | frame f timestamp =>
    obtain ⟨rfl, -⟩ := Machine.eq_of_some hs
    rw [signals_frame hc hkind]
    by_cases hfor : Binder.IsFor c f
    · rw [if_pos hfor, List.getElem?_map, hg]
      exact ⟨_, rfl, .payload (if_pos hfor)⟩
    · rw [if_neg hfor]
      exact ⟨g, hg, .nothing (if_neg hfor)⟩
  | set client event value sent =>
    obtain ⟨rfl, -⟩ := Machine.eq_of_some hs
    exact does_set hg client event value sent
  | timer c' sent | get client event | list client =>
    obtain ⟨rfl, -⟩ := Machine.eq_of_some hs
    exact ⟨g, hg, .nothing rfl⟩
  | subscribe client event answers =>
    obtain ⟨aud, rfl⟩ := exists_audience_subscribe hs
    exact ⟨g, hg, .nothing rfl⟩
  | unsubscribe client args answers =>
    obtain ⟨aud, rfl⟩ := exists_audience_unsubscribe hs
    exact ⟨g, hg, .nothing rfl⟩

end Signals

end Server

/-! ## Runs -/

/-- **A signal with a standing** is where it was at the start. -/
structure Server.Stands (s₀ : Server) (c : CanId) (i : ℕ) (st : Standing) (s : Server) : Prop where
  shape : s₀.SameShape s
  signal : ∃ g, (s.channels c).signals[i]? = some g ∧ g.standing = st ∧ g.Bare

namespace Server

/-- **Every input keeps the shape.** -/
theorem sameShape_step {s s' : Server} {e : Input} {out : List Output}
    (hs : s.step e = some (s', out)) : s.SameShape s' := by
  cases e with
  | frame f timestamp =>
    obtain ⟨rfl, -⟩ := Machine.eq_of_some hs
    exact s.sameShape_frame f timestamp
  | set client event value sent =>
    obtain ⟨rfl, -⟩ := Machine.eq_of_some hs
    exact s.sameShape_set client event value
  | timer c sent | get client event | list client =>
    obtain ⟨rfl, -⟩ := Machine.eq_of_some hs
    exact SameShape.refl _
  | subscribe client event answers =>
    obtain ⟨aud, rfl⟩ := exists_audience_subscribe hs
    exact s.sameShape_audience aud
  | unsubscribe client args answers =>
    obtain ⟨aud, rfl⟩ := exists_audience_unsubscribe hs
    exact s.sameShape_audience aud

section Stands

variable {s₀ s s' : Server} {c : CanId} {i : ℕ} {st : Standing}

/-- **One input**: whatever it is, the definitions stay. -/
theorem Stands.step (hc : c ∈ s₀.canids) (hkind : (s₀.channels c).kind ≠ .send)
    (h : Stands s₀ c i st s) {e : Input} {out : List Output} (hs : s.step e = some (s', out)) :
    ∃ st', st'.layout = st.layout ∧ Stands s₀ c i st' s'
      ∧ ((∀ n, s₀.resolve n = some (c, i) → e.setName ≠ some n) →
        st' = (e.payload c).elim st st.after) := by
  obtain ⟨g, hg, rfl, hbare⟩ := h.signal
  have hshape := h.shape.trans (sameShape_step hs)
  rw [← h.shape.canids] at hc
  rw [← h.shape.kind] at hkind
  obtain ⟨g', hg', hdoes⟩ := does_step hs hc hkind hg
  cases hdoes with
  | payload hdata =>
    refine ⟨_, g.layout_receive _ _ _, ⟨hshape, _, hg', rfl, hbare.receive _ _ _⟩, fun _ => ?_⟩
    rw [hdata]
    exact g.standing_receive _ _ _
  | value hnone hset hresolve =>
    refine ⟨_, g.layout_setHead _, ⟨hshape, _, hg', rfl, hbare.setHead _⟩, fun hn => ?_⟩
    rw [h.shape.resolve] at hresolve
    exact absurd hset (hn _ hresolve)
  | nothing hnone =>
    refine ⟨_, rfl, ⟨hshape, _, hg', rfl, hbare⟩, fun _ => ?_⟩
    rw [hnone]
    rfl

/-- **A run**: whatever came, the definitions stay. -/
theorem Stands.exists_run (hc : c ∈ s₀.canids) (hkind : (s₀.channels c).kind ≠ .send)
    (h : Stands s₀ c i st s) {es : List Input} {outs : List Output}
    (hr : s.run es = some (s', outs)) :
    ∃ st', st'.layout = st.layout ∧ Stands s₀ c i st' s' :=
  Machine.run_invariant (fun x => ∃ st', st'.layout = st.layout ∧ Stands s₀ c i st' x)
    (fun _ _ _ _ ⟨_, hlayout, hx⟩ _ hs => by
      obtain ⟨st₂, hlayout₂, hx₂, -⟩ := hx.step hc hkind hs
      exact ⟨st₂, hlayout₂.trans hlayout, hx₂⟩)
    ⟨st, rfl, h⟩ (Machine.meets_of_forall (fun _ _ => trivial) _ es) hr

/-- **Where the signal is not set**, its standing is what the payloads make of
it. -/
theorem Stands.run (hc : c ∈ s₀.canids) (hkind : (s₀.channels c).kind ≠ .send)
    (h : Stands s₀ c i st s) {es : List Input}
    (hset : ∀ e ∈ es, ∀ n, s₀.resolve n = some (c, i) → e.setName ≠ some n) {outs : List Output}
    (hr : Server.run s es = some (s', outs)) :
    Stands s₀ c i ((es.filterMap (Input.payload c)).foldl Standing.after st) s' := by
  induction es generalizing s st outs with
  | nil =>
    cases hr
    exact h
  | cons e es ih =>
    obtain ⟨s₁, out, out', hs, hr', rfl⟩ := Machine.run_cons_eq_some.mp hr
    obtain ⟨st', -, h', hst⟩ := h.step hc hkind hs
    rw [hst (hset e List.mem_cons_self)] at h'
    have hrun := ih h' (fun e' he' => hset e' (List.mem_cons_of_mem e he')) hr'
    cases hp : e.payload c with
    | none =>
      rw [hp] at hrun
      rw [List.filterMap_cons_none hp]
      exact hrun
    | some data =>
      rw [hp] at hrun
      rw [List.filterMap_cons_some hp]
      exact hrun

/-- What a name is worth decides the answer to `get`. -/
theorem get_congr {s s' : Server} {n : String} {g g' : Signal} (h : s.lookup n = some (c, i, g))
    (h' : s'.lookup n = some (c, i, g')) (hvalue : g'.value = g.value) (client : Client) :
    s'.get client (some n) = s.get client (some n) := by
  unfold get
  dsimp only
  rw [h, h']
  dsimp only
  rw [hvalue]

/-- **Two runs that are given the same payloads**, the first of which is
complete, come to the same answer. -/
theorem Stands.agree {n : String} (hn : s₀.resolve n = some (c, i))
    (honly : ∀ m, s₀.resolve m = some (c, i) → m = n) (hc : c ∈ s₀.canids)
    (hkind : (s₀.channels c).kind ≠ .send) {st' : Standing} (hlayout : st'.layout = st.layout)
    (h : Stands s₀ c i st s) {t t' : Server} (h' : Stands s₀ c i st' t) {data : Payload}
    (hdata : Standing.completes data st.layout = true) {rest : List Payload}
    {es es' : List Input} {outs outs' : List Output} (hset : ∀ e ∈ es, e.setName ≠ some n)
    (hset' : ∀ e ∈ es', e.setName ≠ some n)
    (hes : es.filterMap (Input.payload c) = data :: rest)
    (hes' : es'.filterMap (Input.payload c) = data :: rest)
    (hr : Server.run s es = some (s', outs)) (hr' : Server.run t es' = some (t', outs'))
    (client : Client) : t'.get client (some n) = s'.get client (some n) := by
  have hend := h.run hc hkind (fun e he m hm => honly m hm ▸ hset e he) hr
  have hend' := h'.run hc hkind (fun e he m hm => honly m hm ▸ hset' e he) hr'
  rw [hes, List.foldl_cons] at hend
  rw [hes', List.foldl_cons, Standing.after_of_completes hlayout hdata] at hend'
  obtain ⟨g, hg, hst, hbare⟩ := hend.signal
  obtain ⟨g', hg', hst', hbare'⟩ := hend'.signal
  exact get_congr (lookup_eq_some_iff.mpr ⟨hend.shape.resolve ▸ hn, hg⟩)
    (lookup_eq_some_iff.mpr ⟨hend'.shape.resolve ▸ hn, hg'⟩)
    (Signal.value_congr (hst'.trans hst.symm) hbare hbare') client

end Stands

end Server

namespace Binder

/-- At the start, nothing is stored. -/
theorem stands_start {d : Dict} (hp : d.Pristine) {c : CanId} {i : ℕ}
    (hi : i < (d.info c).nData) :
    Server.Stands (start d).server c i (d.signalAt (.slot c i)).standing (start d).server := by
  refine ⟨Server.SameShape.refl _, d.signalAt (.slot c i), ?_, rfl, fun e he => ?_⟩
  · show ((List.range (d.info c).nData).map (fun i => d.signalAt (.slot c i)))[i]? = _
    rw [List.getElem?_map, List.getElem?_range hi]
    rfl
  · obtain ⟨x, -, rfl⟩ := List.mem_map.mp he
    exact congrArg DataContent.arrayValues (hp x).2.2

/-- **Bindings of one file agree on a property** from the first payload on that
is complete for it, whatever each of them went through before: as long as both
are given the same payloads for its CAN-ID, and nobody sets it, both answer
`get` alike. -/
theorem converge {jobj : Json} {d : Dict} (hload : canDefineInit jobj = some d) {n : String}
    {a : Addr} (hn : d.getPropertyDict n = some a) (hkind : (d.mem a).propertyKind ≠ .send)
    {ins ins' : List Input} {b b' : Binder} {outs outs' : List Output}
    (hrun : run (start d) ins = some (b, outs)) (hrun' : run (start d) ins' = some (b', outs'))
    {es es' : List Input} {b₁ b₁' : Binder} {outs₁ outs₁' : List Output}
    (hrun₁ : run b es = some (b₁, outs₁)) (hrun₁' : run b' es' = some (b₁', outs₁'))
    (hset : ∀ e ∈ es, e.setName ≠ some n) (hset' : ∀ e ∈ es', e.setName ≠ some n)
    {data : Payload} {rest : List Payload}
    (hes : es.filterMap (Input.payload (d.mem a).mycanid) = data :: rest)
    (hes' : es'.filterMap (Input.payload (d.mem a).mycanid) = data :: rest)
    (hdata : Standing.completes data ((d.chain a).map (fun x => (d.mem x).toPropDef)) = true)
    (client : Client) : b₁'.get client (some n) = b₁.get client (some n) := by
  have hd := Dict.registered_of_canDefineInit hload
  have hwf := hd.sound.wf
  have hstart := follows_start hd.sound.pristine
  obtain ⟨hroot, hname⟩ := hwf.getPropertyDict_eq_some_iff.mp hn
  obtain ⟨c, hc, i, hi, rfl⟩ := hwf.slot a hroot
  rw [hwf.mycanid c hc i hi] at hes hes'
  rw [hwf.kind c hc i hi] at hkind
  have honly : ∀ m, (start d).server.resolve m = some (c, i) → m = n := fun m hm => by
    obtain ⟨-, hm⟩ := hwf.getPropertyDict_eq_some_iff.mp (place_eq_some_iff.mp hm)
    exact hm.symm.trans hname
  have hlayout : (d.signalAt (.slot c i)).standing.layout
      = (d.chain (.slot c i)).map (fun x => (d.mem x).toPropDef) := List.map_map
  rw [← hlayout] at hdata
  have hstands := stands_start hd.sound.pristine hi
  obtain ⟨st, hst, hb⟩ := hstands.exists_run hc hkind (hstart.to_server_run hd hrun)
  obtain ⟨st', hst', hb'⟩ := hstands.exists_run hc hkind (hstart.to_server_run hd hrun')
  rw [← hst] at hdata
  have hfollows := hstart.run hwf hrun
  have hfollows' := hstart.run hwf hrun'
  rw [(hfollows.run hwf hrun₁).server_get hd, (hfollows'.run hwf hrun₁').server_get hd]
  exact hb.agree (place_eq_some_iff.mpr hn) honly hc hkind (hst'.trans hst.symm) hb' hdata hset
    hset' hes hes' (hfollows.to_server_run hd hrun₁) (hfollows'.to_server_run hd hrun₁') client

/-- A client sets the mode before any frame comes. -/
def setMode : List Input := [.set 1 (some "mode") (some "7") true]

/-- Frames for the mode, the first of which activates an entry. -/
def modeFrames : List Input := idleFrames.map received

/-- One binding had the mode set, and the other has just begun. -/
theorem converge_mode :
    ∃ d b b₁ b₁' outs outs₁ outs₁', canDefineInit chainConfig = some d
      ∧ run (start d) setMode = some (b, outs) ∧ run b modeFrames = some (b₁, outs₁)
      ∧ run (start d) (.list 2 :: modeFrames) = some (b₁', outs₁')
      ∧ b₁'.get 2 (some "mode") = b₁.get 2 (some "mode") := by
  have hload : (canDefineInit chainConfig).bind (fun d =>
      (run (start d) setMode).bind (fun r => (run r.1 modeFrames).bind (fun r₁ =>
        (run (start d) (.list 2 :: modeFrames)).map (fun r₁' =>
          (d.getPropertyDict "mode", (d.mem (.slot 0x100#16 0)).propertyKind,
            (d.mem (.slot 0x100#16 0)).mycanid,
            Standing.completes (fun i => if i.val = 0 then 1#8 else 0#8)
              ((d.chain (.slot 0x100#16 0)).map (fun x => (d.mem x).toPropDef)))))))
      = some (some (.slot 0x100#16 0), .readonly, 0x100#16, true) := by
    decide
  obtain ⟨d, hd, hload⟩ := Option.bind_eq_some_iff.mp hload
  obtain ⟨⟨b, outs⟩, hrun, hload⟩ := Option.bind_eq_some_iff.mp hload
  obtain ⟨⟨b₁, outs₁⟩, hrun₁, hload⟩ := Option.bind_eq_some_iff.mp hload
  obtain ⟨⟨b₁', outs₁'⟩, hrun₁', hval⟩ := Option.map_eq_some_iff.mp hload
  simp only [Prod.mk.injEq] at hval
  obtain ⟨hname, hkind, hmy, hdata⟩ := hval
  refine ⟨d, b, b₁, b₁', outs, outs₁, outs₁', hd, hrun, hrun₁, hrun₁', ?_⟩
  have hpayloads : modeFrames.filterMap (Input.payload (d.mem (.slot 0x100#16 0)).mycanid)
      = [fun i => if i.val = 0 then 1#8 else 0#8, fun _ => 0#8] := by
    rw [hmy]
    rfl
  exact converge hd hname (by rw [hkind]; decide) hrun (Machine.run_nil _) hrun₁ hrun₁'
    (by decide) (by decide) hpayloads hpayloads hdata 2

end Binder
