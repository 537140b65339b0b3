import CanBinder.ClientIndependence
import CanBinder.ReportedChanges
import CanBinder.ServerRefinement

/-!
# Frames that repeat

On a bus a frame is sent again and again, whether its values change or not. In
the mode that notifies changes, and with no cycle, the binding has nothing to
do with a frame that is the one it had for the CAN-ID before: it stores
the values that are stored already, and it tells nobody. So all such repeats
may be taken out of a run (`Binder.repeats_absorbed`).

There are two exceptions. A `set` of a property of the CAN-ID may store another
value, so the next frame counts as a new one, even if it is the last one again
(`Server.remember`): who takes out repeats must know of the requests, too. And
where a value does not compare as it is stored, as a byte with its highest bit
set, the binding takes it for a change each time (`PropDef.steady`). A chain
compares the values it stores, and has no such values.
-/

/-! ## Storing a value again -/

namespace PropDef

/-- What a raw value leaves where it is stored. -/
def store (p : PropDef) (v : BitVec 32) (c : DataContent) : DataContent :=
  let x :=
    match p.dataconv with
    | none => v
    | some conv => conv.intAt v.toNat
  match p.varType with
  | .int8 | .uint8 => c.setVal8 (x.setWidth 8)
  | .int16 | .uint16 => c.setVal16 (x.setWidth 16)
  | .void | .int | .int32 | .uint | .uint32 | .enable1 => c.setVal32 x
  | .bool => c.setVal8 (if x = 0#32 then 0#8 else 1#8)
  | .string => { c with string := p.dataconv.map (fun conv => conv.stringAt v.toNat) }
  | .array | .uint64 | .int64 => c

/-- What is stored is stored over. -/
theorem store_store (p : PropDef) (v : BitVec 32) (c : DataContent) :
    p.store v (p.store v c) = p.store v c := by
  unfold store
  dsimp only
  generalize (match p.dataconv with
    | none => v
    | some conv => conv.intAt v.toNat) = x
  cases p.varType with
  | int8 | uint8 | bool | int16 | uint16 =>
    unfold DataContent.setVal8 DataContent.setVal16
    rw [BitVec.extractLsb'_append_eq_left]
  | void | int | int32 | uint | uint32 | enable1 | string | array | uint64 | int64 => rfl

/-- A raw value is stored, or the value is left as it is. -/
theorem decode_snd (p : PropDef) (c : DataContent) (v : BitVec 32) :
    (p.decode c v).2 = c ∨ (p.decode c v).2 = p.store v c := by
  obtain ⟨name, kind, bytePos, bitPos, bitLen, varType, dataconv, nconv⟩ := p
  unfold decode store updatePropertyValue CanBit.assign
  cases dataconv <;> cases varType <;> dsimp only <;> split_ifs <;>
    first | exact Or.inl rfl | exact Or.inr rfl

/-- **A raw value that comes again** stores nothing new. -/
theorem decode_snd_decode (p : PropDef) (c : DataContent) (v : BitVec 32) :
    (p.decode (p.decode c v).2 v).2 = (p.decode c v).2 := by
  rcases p.decode_snd c v with hc | hc
  · rw [hc, hc]
  · rcases p.decode_snd (p.decode c v).2 v with hc' | hc'
    · exact hc'
    · rw [hc', hc, store_store]

/-- **The raw value compares as it is stored**, whatever was stored before: or
it is refused. -/
def steady (p : PropDef) (v : BitVec 32) : Bool :=
  p.rejects v || match p.dataconv with
  | none => p.varType ≠ .uint8 ∨ v.toNat % 2 ^ 8 < 2 ^ 7
  | some conv =>
    (p.varType ≠ .uint8 ∨ (conv.intAt v.toNat).toNat % 2 ^ 8 < 2 ^ 7)
      ∧ (p.varType ≠ .uint16 ∨ (conv.intAt v.toNat).toNat % 2 ^ 16 < 2 ^ 15)
      ∧ (p.varType ≠ .bool ∨ conv.intAt v.toNat = 0#32 ∨ conv.intAt v.toNat = 1#32)

theorem comparesAsStored_of_steady {p : CanBit} {v : BitVec 32} (h : p.steady v = true) :
    p.ComparesAsStored v := by
  refine (Bool.or_eq_true_iff.mp h).imp_right (fun h => ?_)
  cases hconv : p.dataconv with
  | none =>
    rw [hconv] at h
    exact fun ht => (of_decide_eq_true h).resolve_left (not_not.mpr ht)
  | some conv =>
    rw [hconv] at h
    obtain ⟨h₁, h₂, h₃⟩ := of_decide_eq_true h
    exact ⟨fun ht => h₁.resolve_left (not_not.mpr ht), fun ht => h₂.resolve_left (not_not.mpr ht),
      fun ht => (h₃.resolve_left (not_not.mpr ht)).imp_right Or.inl⟩

/-- **A steady value that comes again** is no change. -/
theorem decode_again {p : PropDef} {v : BitVec 32} (h : p.steady v = true) (c : DataContent) :
    ∃ s, s ≠ .updated ∧ p.decode (p.decode c v).2 v = (s, (p.decode c v).2) := by
  have hcompares : ({ p with mycanid := 0#16, curValue := c } : CanBit).ComparesAsStored v :=
    comparesAsStored_of_steady h
  have hreports : ({ p with mycanid := 0#16, curValue := c } : CanBit).ReportsChange v := by
    cases hconv : p.dataconv with
    | none => exact (CanBit.reportsChange_iff_of_none hconv v).mpr hcompares
    | some conv => exact (CanBit.reportsChange_iff_of_some hconv v).mpr hcompares
  have hsecond := hreports.second
  rw [updatePropertyValue_eq, updatePropertyValue_eq] at hsecond
  exact ⟨_, hsecond, Prod.ext rfl (p.decode_snd_decode c v)⟩

end PropDef

/-! ## A signal that has settled -/

namespace Entry

/-- **Entries that receive a frame again** keep their values. -/
theorem receive_receive (canV64 : BitVec 64) (l : List Entry) :
    receive canV64 (receive canV64 l) = receive canV64 l := by
  induction l with
  | nil => rfl
  | cons e l ih =>
    rw [receive]
    split_ifs with h
    · have hfirst : (e.store DataContent.zero).unreadable canV64 = true := h
      rw [List.map_cons, receive, if_pos hfirst, List.map_cons, List.map_map]
      rfl
    · have hfirst : ¬(e.store (e.decoded canV64).2).unreadable canV64 = true := h
      rw [receive, if_neg hfirst, ih]
      rfl

theorem any_unreadable_receive (canV64 : BitVec 64) (l : List Entry) :
    (receive canV64 l).any (fun e => e.unreadable canV64)
      = l.any (fun e => e.unreadable canV64) := by
  have h := congrArg (fun ps => List.any ps (fun p => p.unreadable canV64))
    (map_toPropDef_receive canV64 l)
  rwa [List.any_map, List.any_map] at h

theorem lastIdx_active_receive (canV64 : BitVec 64) (l : List Entry) :
    lastIdx (fun e => e.active canV64) (receive canV64 l)
      = lastIdx (fun e => e.active canV64) l := by
  have h := congrArg (lastIdx (fun p => p.active canV64)) (map_toPropDef_receive canV64 l)
  rwa [lastIdx_map, lastIdx_map] at h

end Entry

namespace Signal

/-- **The frame has settled**: unless the signal is due, it has nothing to do
with it. -/
def Settled (canV64 : BitVec 64) (g : Signal) : Prop :=
  ∀ cycle timestamp, g.due cycle timestamp = false →
    g.receive cycle canV64 timestamp = (g, false)

theorem setHead_self (g : Signal) : g.setHead g.head.curValue = g :=
  Signal.ext (List.cons_head_tail g.nonempty) rfl rfl

/-- A single entry that keeps its value has settled. -/
theorem settled_of_decode {g : Signal} (hlen : g.entries.length = 1) {canV64 : BitVec 64}
    {s : UpdateStat} (hs : s ≠ .updated)
    (h : g.head.decode g.head.curValue (g.head.raw canV64) = (s, g.head.curValue)) :
    g.Settled canV64 := by
  intro cycle timestamp hdue
  unfold receive
  rw [if_pos hlen]
  unfold receiveOne
  rw [h]
  cases s with
  | error => exact Prod.ext g.setHead_self rfl
  | updated => exact absurd rfl hs
  | noUpdated =>
    dsimp only
    rw [if_neg (Bool.eq_false_iff.mp hdue), g.setHead_self]

/-- **A frame settles a single entry** whose value is steady. -/
theorem settled_receiveOne {g : Signal} (hlen : g.entries.length = 1) {canV64 : BitVec 64}
    (hsteady : g.head.toPropDef.steady (g.head.raw canV64) = true) (cycle : BitVec 32)
    (timestamp : Timeval) : (g.receiveOne cycle canV64 timestamp).1.Settled canV64 := by
  obtain ⟨u, -, hu⟩ := g.receiveOne_fst cycle canV64 timestamp
  obtain ⟨s, hs, hagain⟩ := PropDef.decode_again hsteady g.head.curValue
  rw [hu]
  refine settled_of_decode ?_ hs hagain
  show (_ :: g.entries.tail).length = 1
  rw [List.length_cons, List.length_tail, hlen]

/-- **A frame settles several entries.** -/
theorem settled_receiveChain {g : Signal} (hlen : g.entries.length ≠ 1) (cycle : BitVec 32)
    (canV64 : BitVec 64) (timestamp : Timeval) :
    (g.receiveChain cycle canV64 timestamp).1.Settled canV64 := by
  obtain ⟨u, -, hu⟩ := g.receiveChain_fst cycle canV64 timestamp
  generalize (g.receiveChain cycle canV64 timestamp).1 = q at hu
  have hentries : q.entries = Entry.receive canV64 g.entries := by rw [hu]
  have hself : Entry.receive canV64 q.entries = q.entries := by
    rw [hentries, Entry.receive_receive]
  have hany : q.entries.any (fun e => e.unreadable canV64)
      = g.entries.any (fun e => e.unreadable canV64) := by
    rw [hentries, Entry.any_unreadable_receive]
  have hlast : lastIdx (fun e => e.active canV64) q.entries
      = lastIdx (fun e => e.active canV64) g.entries := by
    rw [hentries, Entry.lastIdx_active_receive]
  -- the last active entry is the one that is shown already
  have happlied : ¬q.entries.any (fun e => e.unreadable canV64) = true →
      ∀ i, lastIdx (fun e => e.active canV64) q.entries = some i → q.applied = some i := by
    intro hread i hi
    rw [hany] at hread
    rw [hlast] at hi
    rw [hu]
    dsimp only
    rw [if_neg hread, hi]
    rfl
  intro cycle' timestamp' hdue
  unfold receive
  rw [if_neg (by rwa [hentries, Entry.length_receive])]
  unfold receiveChain
  dsimp only
  split_ifs with hread hshow
  · exact Prod.ext (Signal.ext hself rfl rfl) rfl
  · exfalso
    rw [hdue, Bool.or_false] at hshow
    unfold changed at hshow
    split at hshow
    · exact Bool.false_ne_true hshow
    · rename_i i hi
      rw [happlied hread i hi, hself] at hshow
      simp at hshow
  · refine Prod.ext (Signal.ext hself ?_ rfl) rfl
    show (lastIdx (fun e => e.active canV64) q.entries).or q.applied = q.applied
    cases hi : lastIdx (fun e => e.active canV64) q.entries with
    | none => rfl
    | some i => exact (happlied hread i hi).symm

/-- The value of a single entry compares as it is stored. -/
def steady (canV64 : BitVec 64) : List PropDef → Bool
  | [p] => p.steady (p.raw canV64)
  | _ => true

/-- **A frame settles a signal** whose values are steady. -/
theorem settled_receive {g : Signal} {canV64 : BitVec 64}
    (hsteady : steady canV64 g.layout = true) (cycle : BitVec 32) (timestamp : Timeval) :
    (g.receive cycle canV64 timestamp).1.Settled canV64 := by
  unfold receive
  split_ifs with hlen
  · obtain ⟨e, he⟩ := List.length_eq_one_iff.mp hlen
    refine settled_receiveOne hlen ?_ cycle timestamp
    unfold layout at hsteady
    rw [he] at hsteady
    rw [head_of_single he]
    exact hsteady
  · exact settled_receiveChain hlen cycle canV64 timestamp

/-- A signal was last shown at the time of the frame, or when it was before. -/
theorem updatetime_receive (cycle : BitVec 32) (canV64 : BitVec 64) (timestamp : Timeval)
    (g : Signal) : (g.receive cycle canV64 timestamp).1.updatetime = timestamp
      ∨ (g.receive cycle canV64 timestamp).1.updatetime = g.updatetime := by
  unfold receive
  split_ifs with hlen
  · obtain ⟨u, htime, hu⟩ := g.receiveOne_fst cycle canV64 timestamp
    rw [hu]
    exact htime
  · obtain ⟨u, htime, hu⟩ := g.receiveChain_fst cycle canV64 timestamp
    rw [hu]
    exact htime

end Signal

/-- **Signals that have settled** have nothing to do with the frame, and tell
nobody. -/
theorem receiveSignals_of_settled {cycle : BitVec 32} {canV64 : BitVec 64} {timestamp : Timeval}
    {l : List Signal} (hsettled : ∀ g ∈ l, g.Settled canV64)
    (hdue : ∀ g ∈ l, g.due cycle timestamp = false) (aud : Audience) :
    receiveSignals cycle canV64 timestamp l aud = (l, aud, []) := by
  induction l with
  | nil => rfl
  | cons g l ih =>
    have hg := hsettled g List.mem_cons_self cycle timestamp (hdue g List.mem_cons_self)
    have hl := ih (fun g hg => hsettled g (List.mem_cons_of_mem _ hg))
      (fun g hg => hdue g (List.mem_cons_of_mem _ hg))
    rw [receiveSignals, hg]
    dsimp only
    rw [if_neg Bool.false_ne_true, hl]
    rfl

/-! ## A server that remembers -/

/-- The last frame of every CAN-ID, where it is known to be settled. -/
abbrev Recall := CanId → Option CanFrame

/-- The input is the frame that is remembered for its CAN-ID. -/
def Input.repeats (m : Recall) : Input → Bool
  | .frame f _ => m ((f.canId &&& CAN_SFF_MASK).setWidth 16) = some f
  | _ => false

namespace Server

/-- **The server does nothing with a repeat of the frame**: its CAN-ID is
received and has no cycle but notifies changes, and the values are steady. -/
def absorbs (s : Server) (f : CanFrame) : Bool :=
  let c := (f.canId &&& CAN_SFF_MASK).setWidth 16
  s.canids.contains c && (s.channels c).kind != .send && (s.channels c).cycle == 0xffffffff#32
    && (s.channels c).signals.all (fun g => Signal.steady (canvalue2host f.data) g.layout)

theorem absorbs_iff {s : Server} {c : CanId} {f : CanFrame} (hfor : Binder.IsFor c f) :
    s.absorbs f = true ↔ c ∈ s.canids ∧ (s.channels c).kind ≠ .send
      ∧ (s.channels c).cycle = 0xffffffff#32
      ∧ ∀ g ∈ (s.channels c).signals, Signal.steady (canvalue2host f.data) g.layout = true := by
  obtain ⟨-, rfl⟩ := hfor
  unfold absorbs
  simp only [Bool.and_eq_true, List.contains_iff_mem, bne_iff_ne, beq_iff_eq, List.all_eq_true,
    and_assoc]

/-- What is remembered after an input. A value that is set unsettles the
CAN-ID. -/
def remember (s : Server) (m : Recall) : Input → Recall
  | .frame f _ =>
    if 8#8 < f.canDlc then m
    else
      Function.update m ((f.canId &&& CAN_SFF_MASK).setWidth 16)
        (if s.absorbs f then some f else none)
  | .set _ event _ _ =>
    match event.bind s.resolve with
    | some (c, _) => Function.update m c none
    | none => m
  | _ => m

/-- **What is remembered has settled**, in a server that is shaped as the one
at the start and was told nothing but at the times given. -/
structure Recalls (s₀ : Server) (T : Timeval → Prop) (m : Recall) (s : Server) : Prop where
  shape : s₀.SameShape s
  layouts : ∀ c, (s.channels c).signals.map Signal.layout
    = (s₀.channels c).signals.map Signal.layout
  times : ∀ c, ∀ g ∈ (s.channels c).signals, T g.updatetime
  settled : ∀ c f, m c = some f → Binder.IsFor c f ∧ s₀.absorbs f = true
    ∧ (s.channels c).frame = f ∧ ∀ g ∈ (s.channels c).signals, g.Settled (canvalue2host f.data)

namespace Recalls

variable {s₀ s : Server} {T : Timeval → Prop} {m : Recall}

/-- What is not remembered need not be settled. -/
theorem forget (h : Recalls s₀ T m s) (c : CanId) :
    Recalls s₀ T (Function.update m c none) s where
  shape := h.shape
  layouts := h.layouts
  times := h.times
  settled x f hx := by
    by_cases hxc : x = c
    · rw [hxc, Function.update_self] at hx
      cases hx
    · rw [Function.update_of_ne hxc] at hx
      exact h.settled x f hx

/-- Who listens does not matter. -/
theorem audience (h : Recalls s₀ T m s) (aud : Audience) :
    Recalls s₀ T m { s with audience := aud } where
  shape := h.shape.trans (sameShape_audience s aud)
  layouts := h.layouts
  times := h.times
  settled := h.settled

/-- **A channel changes**, and what is remembered of it is known to be settled. -/
theorem setChannel (h : Recalls s₀ T m s) {c : CanId} {f : CanFrame} {l : List Signal}
    (hl : l.map Signal.layout = (s.channels c).signals.map Signal.layout)
    (htimes : ∀ g ∈ l, T g.updatetime) {o : Option CanFrame}
    (ho : ∀ f', o = some f' → Binder.IsFor c f' ∧ s₀.absorbs f' = true ∧ f = f'
      ∧ ∀ g ∈ l, g.Settled (canvalue2host f'.data)) :
    Recalls s₀ T (Function.update m c o)
      (s.setChannel c { s.channels c with frame := f, signals := l }) := by
  have hself : (s.setChannel c { s.channels c with frame := f, signals := l }).channels c
      = { s.channels c with frame := f, signals := l } := Function.update_self ..
  have hother : ∀ x, x ≠ c →
      (s.setChannel c { s.channels c with frame := f, signals := l }).channels x = s.channels x :=
    fun x hx => Function.update_of_ne hx _ _
  refine ⟨h.shape.trans (s.sameShape_setChannel c f (Signal.map_name_of_layout hl)),
    fun x => ?_, fun x => ?_, fun x f' hx => ?_⟩
  · by_cases hxc : x = c
    · rw [hxc, hself, ← h.layouts]
      exact hl
    · rw [hother x hxc]
      exact h.layouts x
  · by_cases hxc : x = c
    · rw [hxc, hself]
      exact htimes
    · rw [hother x hxc]
      exact h.times x
  · by_cases hxc : x = c
    · rw [hxc, Function.update_self] at hx
      rw [hxc, hself]
      exact ho f' hx
    · rw [Function.update_of_ne hxc] at hx
      rw [hother x hxc]
      exact h.settled x f' hx

/-- The values of a frame that is absorbed are steady. -/
theorem steady (h : Recalls s₀ T m s) {c : CanId} {f : CanFrame} (hfor : Binder.IsFor c f)
    (habs : s₀.absorbs f = true) : ∀ g ∈ (s.channels c).signals,
      Signal.steady (canvalue2host f.data) g.layout = true := by
  intro g hg
  have hmem := List.mem_map_of_mem (f := Signal.layout) hg
  rw [h.layouts] at hmem
  obtain ⟨g₀, hg₀, hlayout⟩ := List.mem_map.mp hmem
  rw [← hlayout]
  exact ((absorbs_iff hfor).mp habs).2.2.2 g₀ hg₀

/-- **A frame.** -/
theorem frame (h : Recalls s₀ T m s) (f : CanFrame) {timestamp : Timeval} (ht : T timestamp) :
    Recalls s₀ T (s₀.remember m (.frame f timestamp)) (s.frame f timestamp).1 := by
  unfold remember
  dsimp only
  by_cases hfor : ∃ c ∈ s.canids, Binder.IsFor c f
  · obtain ⟨c, hc, hfor⟩ := hfor
    have hid : (f.canId &&& CAN_SFF_MASK).setWidth 16 = c := hfor.2
    rw [if_neg hfor.1, hid]
    by_cases hkind : (s.channels c).kind = .send
    · have habs : s₀.absorbs f ≠ true := fun habs => by
        have hne := ((absorbs_iff hfor).mp habs).2.1
        rw [← h.shape.kind] at hne
        exact hne hkind
      rw [frame_of_send hc hfor hkind, if_neg habs]
      exact h.setChannel rfl (h.times c) (fun f' hf' => by cases hf')
    · rw [frame_of_receive hc hfor hkind]
      refine (h.setChannel (c := c) (f := f) ?_ ?_ ?_).audience _
      · rw [receiveSignals_fst, List.map_map]
        exact List.map_congr_left (fun g _ => g.layout_receive _ _ _)
      · rw [receiveSignals_fst]
        intro g' hg'
        obtain ⟨g, hg, rfl⟩ := List.mem_map.mp hg'
        rcases g.updatetime_receive (s.channels c).cycle (canvalue2host f.data) timestamp with
          heq | heq
        · rw [heq]
          exact ht
        · rw [heq]
          exact h.times c g hg
      · intro f' hf'
        split_ifs at hf' with habs
        cases hf'
        refine ⟨hfor, habs, rfl, ?_⟩
        rw [receiveSignals_fst]
        intro g' hg'
        obtain ⟨g, hg, rfl⟩ := List.mem_map.mp hg'
        exact Signal.settled_receive (h.steady hfor habs g hg) _ _
  · rw [frame_of_not_isFor hfor]
    split_ifs with hdlc habs
    · exact h
    · refine absurd ⟨_, ?_, hdlc, rfl⟩ hfor
      rw [h.shape.canids]
      exact ((absorbs_iff ⟨hdlc, rfl⟩).mp habs).1
    · exact h.forget _

/-- **A frame that is remembered** does nothing. -/
theorem absorbed (h : Recalls s₀ T m s) {f : CanFrame} {timestamp : Timeval}
    (hrepeats : Input.repeats m (.frame f timestamp) = true)
    (htime : ∀ u, T u → elapsMs u timestamp ≠ 0xffffffff#32) :
    s.frame f timestamp = (s, []) := by
  obtain ⟨hfor, habs, hframe, hsettled⟩ := h.settled _ f (of_decide_eq_true hrepeats)
  obtain ⟨hc, hkind, hcycle, -⟩ := (absorbs_iff hfor).mp habs
  generalize (f.canId &&& CAN_SFF_MASK).setWidth 16 = c at *
  rw [← h.shape.canids] at hc
  rw [← h.shape.kind] at hkind
  rw [← h.shape.cycle] at hcycle
  have hdue : ∀ g ∈ (s.channels c).signals, g.due (s.channels c).cycle timestamp = false :=
    fun g hg => by
      have hne := htime _ (h.times c g hg)
      unfold Signal.due
      rw [hcycle]
      exact decide_eq_false (fun hle => hne (by bv_omega))
  have hself : s.setChannel c (s.channels c) = s := by
    unfold Server.setChannel
    rw [Function.update_eq_self]
  have hch : ({ s.channels c with frame := f } : Channel) = s.channels c := by
    rw [← hframe]
  rw [frame_of_receive hc hfor hkind]
  unfold receive
  dsimp only
  rw [receiveSignals_of_settled hsettled hdue]
  show ({ s.setChannel c { s.channels c with frame := f } with audience := s.audience }, [])
    = (s, [])
  rw [hch, hself]

/-- **A value that is set.** -/
theorem set (h : Recalls s₀ T m s) (client : Client) (event value : Option String) (sent : Bool) :
    Recalls s₀ T (s₀.remember m (.set client event value sent)) (s.set client event value).1 := by
  unfold remember
  dsimp only
  rw [← h.shape.resolve]
  cases event with
  | none => exact h
  | some n =>
    rw [Option.bind_some]
    -- whatever comes of the request, forgetting is safe
    have hsame : Recalls s₀ T (match s.resolve n with
        | some (c, _) => Function.update m c none
        | none => m) s := by
      split
      · exact h.forget _
      · exact h
    cases value with
    | none => exact hsame
    | some text =>
      cases hl : s.lookup n with
      | none =>
        rw [set_fst_of_none hl]
        exact hsame
      | some p =>
        obtain ⟨c, i, g⟩ := p
        obtain ⟨hresolve, hg⟩ := lookup_eq_some_iff.mp hl
        rw [set_fst_of_lookup hl]
        unfold assign
        split_ifs
        · exact hsame
        · rw [hresolve]
          refine h.setChannel (map_set_of_eq hg (g.layout_setHead _)) (fun g' hg' => ?_)
            (fun f' hf' => by cases hf')
          rcases List.mem_or_eq_of_mem_set hg' with hg' | rfl
          · exact h.times c g' hg'
          · exact h.times c g (List.mem_of_getElem? hg)

end Recalls

/-- **Requests about events** change nothing but who listens. -/
theorem exists_audience_subscribe {s s' : Server} {client : Client} {event : Option String}
    {answers : DaemonAnswers} {out : List Output}
    (hr : s.subscribe client event answers = some (s', out)) :
    ∃ aud, s' = { s with audience := aud } := by
  cases event with
  | none =>
    cases hr
    exact ⟨s.audience, rfl⟩
  | some name =>
    obtain ⟨⟨⟨s₁, apply⟩, e⟩, hsub, heq⟩ := Option.map_eq_some_iff.mp hr
    cases heq
    refine subscribeSignal_keeps (P := fun x => ∃ aud, x.1 = { s with audience := aud })
      (fun x name hx => ?_) (x := (s, [])) ⟨s.audience, rfl⟩ hsub
    obtain ⟨aud, hx⟩ := hx
    rw [subscribeOne_eq, hx]
    exact ⟨_, rfl⟩

theorem exists_audience_unsubscribe {s s' : Server} {client : Client} {args : Option Json}
    {answers : DaemonAnswers} {out : List Output}
    (hr : s.unsubscribe client args answers = some (s', out)) :
    ∃ aud, s' = { s with audience := aud } := by
  unfold Server.unsubscribe at hr
  obtain ⟨names, -, hr⟩ := Option.bind_eq_some_iff.mp hr
  obtain ⟨⟨s₁, e⟩, hall, heq⟩ := Option.map_eq_some_iff.mp hr
  cases heq
  refine Binder.forAll_keeps (P := fun x => ∃ aud, x = { s with audience := aud })
    (fun m _ x x' e' hx hr' => ?_) ⟨s.audience, rfl⟩ hall
  refine unsubscribeSignal_keeps (P := fun x => ∃ aud, x = { s with audience := aud })
    (fun x name hx => ?_) hx hr'
  obtain ⟨aud, rfl⟩ := hx
  rw [unsubscribeOne_fst]
  exact ⟨_, rfl⟩

/-- **One input.** -/
theorem Recalls.step {s₀ s s' : Server} {T : Timeval → Prop} {m : Recall} (h : Recalls s₀ T m s)
    {e : Input} (he : ∀ f timestamp, e = .frame f timestamp → T timestamp) {out : List Output}
    (hs : s.step e = some (s', out)) : Recalls s₀ T (s₀.remember m e) s' := by
  cases e with
  | frame f timestamp =>
    obtain ⟨rfl, -⟩ := Machine.eq_of_some hs
    exact h.frame f (he f timestamp rfl)
  | set client event value sent =>
    obtain ⟨rfl, -⟩ := Machine.eq_of_some hs
    exact h.set client event value sent
  | timer c sent | get client event | list client =>
    obtain ⟨rfl, -⟩ := Machine.eq_of_some hs
    exact h
  | subscribe client event answers =>
    obtain ⟨aud, rfl⟩ := exists_audience_subscribe hs
    exact h.audience aud
  | unsubscribe client args answers =>
    obtain ⟨aud, rfl⟩ := exists_audience_unsubscribe hs
    exact h.audience aud

end Server

/-! ## Runs without repeats -/

/-- When a frame came. -/
def Input.time : Input → Option Timeval
  | .frame _ timestamp => some timestamp
  | _ => none

/-- **The inputs without the frames that repeat.** -/
def Server.withoutRepeats (s : Server) (ins : List Input) : List Input :=
  Machine.thin Input.repeats s.remember (fun _ => none) ins

namespace Binder

/-- **Repeats are absorbed**: a frame that is the last one of its CAN-ID once
more, where the CAN-ID has no cycle but notifies changes and nobody set one of
its properties in between, may be left out of a run. What is answered, published
and sent is the same, and so is what the binding comes to. -/
theorem repeats_absorbed {jobj : Json} {d : Dict} (hload : canDefineInit jobj = some d)
    {ins : List Input}
    (htimes : ∀ u ∈ (⟨0, 0⟩ : Timeval) :: ins.filterMap Input.time,
      ∀ t ∈ ins.filterMap Input.time, elapsMs u t ≠ 0xffffffff#32) :
    (run (start d) ((start d).server.withoutRepeats ins)).map (fun r => (r.1.server, r.2))
      = (run (start d) ins).map (fun r => (r.1.server, r.2)) := by
  have hd := Dict.registered_of_canDefineInit hload
  have hstart := follows_start hd.sound.pristine
  have hrecalls : Server.Recalls (start d).server
      (fun u => u ∈ (⟨0, 0⟩ : Timeval) :: ins.filterMap Input.time) (fun _ => none)
      (start d).server := by
    refine ⟨Server.SameShape.refl _, fun _ => rfl, fun c g hg => ?_, fun c f hf => by cases hf⟩
    obtain ⟨i, -, rfl⟩ := List.mem_map.mp hg
    have hzero : (d.signalAt (.slot c i)).updatetime = ⟨0, 0⟩ := (hd.sound.pristine _).2.1
    exact hzero ▸ List.mem_cons_self
  rw [hstart.server_run hd, hstart.server_run hd]
  refine Machine.run_thin
    (P := fun e => ∀ t, e.time = some t → t ∈ ins.filterMap Input.time)
    (fun m s e s' out h he hs => h.step
      (fun f t heq => List.mem_cons_of_mem _ (he t (by rw [heq]; rfl))) hs)
    (fun m s e h he hr => ?_) hrecalls (fun e he t ht => List.mem_filterMap.mpr ⟨e, he, ht⟩)
  cases e with
  | frame f t => exact congrArg some (h.absorbed hr (fun u hu => htimes u hu t (he t rfl)))
  | set | timer | get | list | subscribe | unsubscribe => cases hr

/-- A speed that is notified when it changes. -/
def changesConfig : Json :=
  configFile [("100", configCanid "CAN_THINOUT_CHG" 0 [configData "speed" "int16_t" 2 0 16])] []

/-- Two frames, the second of which tells nothing new. -/
def speedTwice : List Input :=
  [.subscribe 1 (some "speed") {}, .frame ⟨0x100#32, 8#8, fun _ => 1#8⟩ ⟨1, 0⟩,
    .frame ⟨0x100#32, 8#8, fun _ => 1#8⟩ ⟨2, 0⟩]

theorem repeats_absorbed_sample :
    ∃ d, canDefineInit changesConfig = some d
      ∧ ((start d).server.withoutRepeats speedTwice).length = 2
      ∧ (run (start d) ((start d).server.withoutRepeats speedTwice)).map
          (fun r => (r.1.server, r.2))
        = (run (start d) speedTwice).map (fun r => (r.1.server, r.2)) := by
  have hload : (canDefineInit changesConfig).map (fun d =>
      ((start d).server.withoutRepeats speedTwice).length) = some 2 := by
    decide
  obtain ⟨d, hd, hlength⟩ := Option.map_eq_some_iff.mp hload
  exact ⟨d, hd, hlength, repeats_absorbed hd (by decide)⟩

end Binder
