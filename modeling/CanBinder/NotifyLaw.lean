import CanBinder.ChainUpdate
import CanBinder.Reception
import CanBinder.ThinOut

/-!
# When a property is notified

A property of a single entry is notified by the law of `ThinOut`: the samples
are its values in the frames of its CAN-ID, each with the millisecond of the
frame, and the cycle is the one of the CAN-ID. This holds for the types the
decoder compares as it stores them, and as long as the milliseconds between
two notifications fit into the `unsigned int` they are computed in.

The argument has three layers. `CanBit.receive` is what a frame makes of a
single entry, a function of the entry and the cycle alone; what the other
slots of the array and the other CAN-IDs do leaves the entry as it is; and
the history of a sequence of frames is the law by induction over it.
-/

/-! ## Time -/

namespace Timeval

/-- The microseconds of a time. -/
def us (t : Timeval) : ℤ := t.tvSec * 1000000 + t.tvUsec

/-- **The millisecond of a time.** -/
def ms (t : Timeval) : ℤ := t.us / 1000

/-- Times in order do not go back by a millisecond. -/
theorem ms_le_ms {t t' : Timeval} (h : t.us ≤ t'.us) : t.ms ≤ t'.ms :=
  Int.ediv_le_ediv (by decide) h

end Timeval

/-- `elaps_ms` is the difference of the milliseconds, cut to 32 bits. -/
theorem elapsMs_eq {old new : Timeval} (hold : 0 ≤ old.tvUsec) (hnew : 0 ≤ new.tvUsec) :
    elapsMs old new = BitVec.ofInt 32 (new.ms - old.ms) := by
  have hms : ∀ t : Timeval, 0 ≤ t.tvUsec → t.ms = t.tvSec * 1000 + t.tvUsec.tdiv 1000 := by
    intro t ht
    rw [Int.tdiv_eq_ediv_of_nonneg ht]
    unfold Timeval.ms Timeval.us
    omega
  unfold elapsMs
  rw [hms old hold, hms new hnew]
  exact congrArg (BitVec.ofInt 32) (by omega)

/-- **The cycle is over** when the milliseconds say so, if they fit. -/
theorem le_elapsMs_iff {old new : Timeval} (hold : 0 ≤ old.tvUsec) (hnew : 0 ≤ new.tvUsec)
    (hle : old.ms ≤ new.ms) (hgap : new.ms - old.ms < 2 ^ 32) (cycle : BitVec 32) :
    cycle ≤ elapsMs old new ↔ old.ms + cycle.toNat ≤ new.ms := by
  rw [elapsMs_eq hold hnew, BitVec.le_def, BitVec.toNat_ofInt]
  omega

/-! ## Values -/

/-- **The types whose values are compared as they are stored**, without a
conversion table. -/
def PropDef.Plain (p : PropDef) : Prop :=
  p.dataconv = none
    ∧ p.varType ∈ [.int8, .int16, .int, .int32, .uint16, .uint, .uint32, .bool]

/-- Such a type takes every value. -/
theorem PropDef.Plain.rejects {p : PropDef} (h : p.Plain) (v : BitVec 32) :
    p.rejects v = false := by
  obtain ⟨hconv, htype⟩ := h
  unfold PropDef.rejects
  rw [hconv]
  refine decide_eq_false (fun hbad => ?_)
  rcases hbad with ht | ht
  · rw [ht] at htype
    exact absurd htype (by decide)
  · rw [ht] at htype
    exact absurd htype (by decide)

/-- A raw value, converted to the type. -/
def PropDef.converted (p : PropDef) (canV64 : BitVec 64) : ℤ :=
  let v := p.raw canV64
  match p.varType with
  | .int8 => (v.setWidth 8).toInt
  | .int16 => (v.setWidth 16).toInt
  | .uint16 => (v.setWidth 16).toNat
  | .uint | .uint32 => v.toNat
  | .bool => (if v = 0#32 then 0#8 else 1#8 : BitVec 8).toNat
  | _ => v.toInt

/-- The stored value, read as the type. -/
def CanBit.stored (p : CanBit) : ℤ :=
  let c := p.curValue
  match p.varType with
  | .int8 => c.val8.toInt
  | .int16 => c.val16.toInt
  | .uint16 => c.val16.toNat
  | .uint | .uint32 => c.word.toNat
  | .bool => c.val8.toNat
  | _ => c.word.toInt

/-- A branch of the type switch that compares what it stores. -/
theorem CanBit.assign_stored {p : CanBit} {differs : Bool} {value : DataContent} {x : ℤ}
    (hdiffers : differs = true ↔ x ≠ p.stored)
    (hvalue : ({ p with curValue := value } : CanBit).stored = x) :
    (p.assign differs value true).1 = (if x ≠ p.stored then .updated else .noUpdated)
      ∧ (p.assign differs value true).2.stored = x := by
  unfold CanBit.assign
  by_cases hx : x ≠ p.stored
  · rw [if_pos (hdiffers.mpr hx), if_pos hx]
    exact ⟨rfl, hvalue⟩
  · rw [if_neg (fun h => hx (hdiffers.mp h)), if_neg hx]
    exact ⟨rfl, (not_not.mp hx).symm⟩

/-- **The decoder reports a change exactly when the value changes**, and what
it stores is the converted value. -/
theorem canframe2property_plain {p : CanBit} (h : p.Plain) (canV64 : BitVec 64) :
    (canframe2property canV64 p).1
        = (if p.converted canV64 ≠ p.stored then .updated else .noUpdated)
      ∧ (canframe2property canV64 p).2.stored = p.converted canV64 := by
  obtain ⟨hconv, htype⟩ := h
  unfold canframe2property updatePropertyValue
  simp only [hconv, Option.isSome_none, Bool.false_eq_true, false_and, if_false]
  simp only [List.mem_cons, List.not_mem_nil, or_false] at htype
  rcases htype with ht | ht | ht | ht | ht | ht | ht | ht
  all_goals
    rw [ht]
    refine CanBit.assign_stored ?_ ?_
    · simp only [CanBit.stored, PropDef.converted, PropDef.raw, ht, ne_eq, decide_eq_true_eq,
        Int.natCast_inj, BitVec.toInt_inj, BitVec.toNat_inj]
      exact not_congr eq_comm
    · simp [CanBit.stored, PropDef.converted, PropDef.raw, ht] <;>
        exact congrArg BitVec.toNat (if_congr Iff.rfl rfl rfl)

/-! ## One entry -/

/-- **What a frame makes of a single entry**, and whether it is notified: a
function of the entry and of the cycle of its CAN-ID. -/
def CanBit.receive (p : CanBit) (cycle : BitVec 32) (canV64 : BitVec 64) (timestamp : Timeval) :
    CanBit × Bool :=
  match canframe2property canV64 p with
  | (.error, q) => (q, false)
  | (.updated, q) => ({ q with updatetime := timestamp }, true)
  | (.noUpdated, q) =>
    if cycle ≤ elapsMs p.updatetime timestamp then ({ q with updatetime := timestamp }, true)
    else (q, false)

namespace Dict

/-- The update of a single entry is what the entry makes of the frame. -/
theorem updateProperty_receive {d : Dict} {a : Addr} (h : (d.mem a).next = none)
    (canV64 : BitVec 64) (timestamp : Timeval) :
    (d.updateProperty canV64 a timestamp).1
        = d.setBit a
          ((d.mem a).receive (d.info (d.mem a).mycanid).cycle canV64 timestamp).1
      ∧ d.notifies canV64 a timestamp
        = ((d.mem a).receive (d.info (d.mem a).mycanid).cycle canV64 timestamp).2 := by
  unfold notifies CanBit.receive
  rw [updateProperty_single h, canframe2property_eq]
  cases (d.mem a).decode (d.mem a).curValue ((d.mem a).raw canV64) with
  | mk st c =>
    cases st with
    | error => exact ⟨rfl, rfl⟩
    | updated => exact ⟨rfl, rfl⟩
    | noUpdated =>
      dsimp only
      split_ifs <;> exact ⟨rfl, rfl⟩

end Dict

/-- The sample a frame is for a property. -/
def PropDef.sample (p : PropDef) (canV64 : BitVec 64) (timestamp : Timeval) :
    ThinOut.Sample ℤ :=
  ⟨p.converted canV64, timestamp.ms⟩

/-- **One frame by the law**: the entry is notified when the law reports the
sample, the value is then the sample's, and the time is the last report's. -/
theorem CanBit.receive_law {p : CanBit} (h : p.Plain) (cycle : BitVec 32) (canV64 : BitVec 64)
    {timestamp : Timeval} (hold : 0 ≤ p.updatetime.tvUsec) (hnew : 0 ≤ timestamp.tvUsec)
    (hle : p.updatetime.ms ≤ timestamp.ms)
    (hgap : ThinOut.reported cycle.toNat p.stored p.updatetime.ms (p.sample canV64 timestamp)
      = true → timestamp.ms - p.updatetime.ms < 2 ^ 32) :
    (p.receive cycle canV64 timestamp).2
        = ThinOut.reported cycle.toNat p.stored p.updatetime.ms (p.sample canV64 timestamp)
      ∧ (p.receive cycle canV64 timestamp).1.stored = p.converted canV64
      ∧ (p.receive cycle canV64 timestamp).1.updatetime
        = if ThinOut.reported cycle.toNat p.stored p.updatetime.ms (p.sample canV64 timestamp)
          then timestamp else p.updatetime := by
  obtain ⟨hstat, hstored⟩ := canframe2property_plain h canV64
  have htime : (canframe2property canV64 p).2.updatetime = p.updatetime := by
    rw [canframe2property_eq]
  unfold CanBit.receive
  generalize hq : canframe2property canV64 p = r at hstat hstored htime ⊢
  obtain ⟨st, q⟩ := r
  dsimp only at hstat hstored htime
  rw [ThinOut.reported_eq_true_iff] at hgap
  by_cases hv : p.converted canV64 ≠ p.stored
  · have hr : ThinOut.reported cycle.toNat p.stored p.updatetime.ms
        (p.sample canV64 timestamp) = true := ThinOut.reported_eq_true_iff.mpr (Or.inl hv)
    rw [if_pos hv] at hstat
    rw [hstat, hr]
    exact ⟨rfl, hstored, rfl⟩
  · rw [if_neg hv] at hstat
    rw [hstat]
    -- without a report the gap is below the cycle, which has 32 bits
    have hbound : timestamp.ms - p.updatetime.ms < 2 ^ 32 := by
      by_cases hover : p.updatetime.ms + cycle.toNat ≤ timestamp.ms
      · exact hgap (Or.inr hover)
      · have := cycle.isLt
        omega
    have hr : ThinOut.reported cycle.toNat p.stored p.updatetime.ms (p.sample canV64 timestamp)
        = true ↔ cycle ≤ elapsMs p.updatetime timestamp := by
      rw [ThinOut.reported_eq_true_iff, le_elapsMs_iff hold hnew hle hbound cycle]
      exact or_iff_right hv
    dsimp only
    by_cases hc : cycle ≤ elapsMs p.updatetime timestamp
    · rw [if_pos hc, hr.mpr hc]
      exact ⟨rfl, hstored, rfl⟩
    · rw [if_neg hc, Bool.eq_false_iff.mpr (fun h => hc (hr.mp h))]
      exact ⟨rfl, hstored, htime⟩

/-! ## Sequences of frames -/

/-- The samples a sequence of frames is for a property of a CAN-ID. -/
def PropDef.samples (p : PropDef) (c : CanId) (frames : List (CanFrame × Timeval)) :
    List (ThinOut.Sample ℤ) :=
  (frames.filter (fun f => Binder.IsFor c f.1)).map
    (fun f => p.sample (canvalue2host f.1.data) f.2)

/-- A frame for the CAN-ID is the next sample. -/
theorem PropDef.samples_cons_of_isFor (p : PropDef) {c : CanId} {f : CanFrame × Timeval}
    (hfor : Binder.IsFor c f.1) (frames : List (CanFrame × Timeval)) :
    p.samples c (f :: frames)
      = p.sample (canvalue2host f.1.data) f.2 :: p.samples c frames := by
  unfold samples
  rw [List.filter_cons_of_pos (by simpa using hfor), List.map_cons]

/-- A frame for another CAN-ID is no sample. -/
theorem PropDef.samples_cons_of_not_isFor (p : PropDef) {c : CanId} {f : CanFrame × Timeval}
    (hfor : ¬Binder.IsFor c f.1) (frames : List (CanFrame × Timeval)) :
    p.samples c (f :: frames) = p.samples c frames := by
  unfold samples
  rw [List.filter_cons_of_neg (by simpa using hfor)]

/-- **The times of a sequence of frames are in order**, from a time on. -/
structure Timely (old : Timeval) (frames : List (CanFrame × Timeval)) : Prop where
  usec : ∀ t ∈ old :: frames.map Prod.snd, 0 ≤ t.tvUsec
  order : (old :: frames.map Prod.snd).Pairwise (fun t t' => t.us ≤ t'.us)

/-- The milliseconds of the samples are in order. -/
theorem Timely.ordered {old : Timeval} {frames : List (CanFrame × Timeval)}
    (h : Timely old frames) (p : PropDef) (c : CanId) :
    ThinOut.Ordered old.ms (p.samples c frames) := by
  have hms := List.Pairwise.map Timeval.ms (fun t t' => Timeval.ms_le_ms) h.order
  refine List.Pairwise.sublist ?_ hms
  rw [PropDef.samples, List.map_cons, List.map_map, List.map_map]
  exact (List.filter_sublist.map _).cons_cons _

namespace Binder

/-- **`update_iviproperty` calls `notify_property_changed`** for a slot, at a
frame for its CAN-ID. -/
def notifiesSlot (b : Binder) (frame : CanFrame) (timestamp : Timeval) (c : CanId) (i : ℕ) :
    Bool :=
  (b.upTo frame timestamp c i).notifies (canvalue2host frame.data) (.slot c i) timestamp

/-- **The history of a slot** over a sequence of frames: the sample each frame
for its CAN-ID is, and whether it is notified (`Binder.Calls`). -/
def history (c : CanId) (i : ℕ) :
    Binder → List (CanFrame × Timeval) → List (ThinOut.Sample ℤ × Bool)
  | _, [] => []
  | b, (frame, timestamp) :: frames =>
    let rest := history c i (b.parseFrame frame timestamp).1 frames
    if IsFor c frame then
      ((b.mem (.slot c i)).sample (canvalue2host frame.data) timestamp,
        b.notifiesSlot frame timestamp c i) :: rest
    else rest

/-- The state after a sequence of frames. -/
def afterFrames (b : Binder) (frames : List (CanFrame × Timeval)) : Binder :=
  frames.foldl (fun b f => (b.parseFrame f.1 f.2).1) b

theorem history_append (c : CanId) (i : ℕ) (b : Binder) (pre post : List (CanFrame × Timeval)) :
    history c i b (pre ++ post) = history c i b pre ++ history c i (b.afterFrames pre) post := by
  induction pre generalizing b with
  | nil => rfl
  | cons f pre ih =>
    rw [List.cons_append, history, history, ih]
    split_ifs <;> rfl

/-- **Whether an update calls `notify_property_changed`**: once, on the data the
frame left, or not at all. -/
structure Calls (b : Binder) (canV64 : BitVec 64) (a : Addr) (timestamp : Timeval)
    (called : Bool) : Prop where
  notified : called = true →
    b.updateIviproperty canV64 a timestamp =
      let r := (b.decodedInto canV64 a timestamp).notifyPropertyChanged a
      (r.1, r.2, 0)
  silent : called = false →
    b.updateIviproperty canV64 a timestamp = (b.decodedInto canV64 a timestamp, [], 0)

/-- The update of a single entry that can take every value. -/
theorem calls_notifies {b : Binder} {a : Addr} (hnext : (b.mem a).next = none)
    (hplain : (b.mem a).Plain) (canV64 : BitVec 64) (timestamp : Timeval) :
    b.Calls canV64 a timestamp (b.notifies canV64 a timestamp) := by
  have hread : ∀ x ∈ b.chain a, (b.mem x).unreadable canV64 = false := fun x hx => by
    rw [Dict.chain_of_next_none hnext, List.mem_singleton] at hx
    rw [hx]
    exact hplain.rejects _
  have hnodup : (b.chain a).Nodup := by
    rw [Dict.chain_of_next_none hnext]
    exact List.nodup_singleton a
  have hresult := b.updateIviproperty_result canV64 a timestamp
  rw [if_pos (Dict.updateProperty_isSome hnodup hread timestamp)] at hresult
  constructor
  · intro h
    obtain ⟨hstate, hout⟩ := updateIviproperty_of_notifies h
    exact Prod.ext hstate (Prod.ext hout hresult)
  · intro h
    obtain ⟨hstate, hout⟩ := updateIviproperty_of_not_notifies h
    exact Prod.ext hstate (Prod.ext hout hresult)

section History

variable {d : Dict} {b : Binder} {c : CanId} {i : ℕ}

theorem sameLayout_afterFrames (hb : d.SameLayout b.toDict)
    (frames : List (CanFrame × Timeval)) : d.SameLayout (b.afterFrames frames).toDict := by
  induction frames generalizing b with
  | nil => exact hb
  | cons f frames ih => exact ih (hb.trans (runRelation_sameLayout.parseFrame b f.1 f.2))

/-- **The history tells of each frame whether the call was made.** -/
theorem exists_called (hb : d.SameLayout b.toDict) (hsingle : (d.mem (.slot c i)).next = none)
    (hplain : (d.mem (.slot c i)).Plain) (pre post : List (CanFrame × Timeval))
    {frame : CanFrame} (hfor : IsFor c frame) (timestamp : Timeval) :
    ∃ called, history c i b (pre ++ (frame, timestamp) :: post) = history c i b pre
        ++ ((d.mem (.slot c i)).sample (canvalue2host frame.data) timestamp, called)
          :: history c i ((b.afterFrames pre).parseFrame frame timestamp).1 post
      ∧ ((b.afterFrames pre).upTo frame timestamp c i).Calls (canvalue2host frame.data)
        (.slot c i) timestamp called := by
  have hafter := sameLayout_afterFrames hb pre
  have hentry := (upTo_sameLayout hafter frame timestamp c i).entry (.slot c i)
  refine ⟨(b.afterFrames pre).notifiesSlot frame timestamp c i, ?_, calls_notifies ?_ ?_ _ _⟩
  · rw [history_append, history, if_pos hfor, (hafter.entry (.slot c i)).1]
  · rw [hentry.2.2, hsingle]
  · rw [PropDef.Plain, hentry.1]
    exact hplain

/-- **One frame and a single entry.** -/
theorem parseFrame_receive (hd : d.WF) (hb : d.SameLayout b.toDict) (hc : c ∈ d.canidRoot)
    (hkind : (d.info c).kind ≠ .send) (hi : i < (d.info c).nData)
    (hsingle : (d.mem (.slot c i)).next = none) {frame : CanFrame} (hfor : IsFor c frame)
    (timestamp : Timeval) :
    (b.parseFrame frame timestamp).1.mem (.slot c i)
        = ((b.mem (.slot c i)).receive (d.info c).cycle (canvalue2host frame.data) timestamp).1
      ∧ b.notifiesSlot frame timestamp c i
        = ((b.mem (.slot c i)).receive (d.info c).cycle (canvalue2host frame.data)
            timestamp).2 := by
  have hself : Addr.slot c i ∈ d.chain (.slot c i) := d.self_mem_chain (.slot c i)
  have hup := upTo_sameLayout hb frame timestamp c i
  have hmem := upTo_mem hd hb hc hi frame timestamp hself
  have hnext : ((b.upTo frame timestamp c i).mem (.slot c i)).next = none := by
    rw [(hup.entry (.slot c i)).2.2, hsingle]
  have hmy : ((b.upTo frame timestamp c i).mem (.slot c i)).mycanid = c := by
    rw [(hup.entry (.slot c i)).2.1, hd.mycanid c hc i hi]
  obtain ⟨hstate, hnotifies⟩ :=
    Dict.updateProperty_receive hnext (canvalue2host frame.data) timestamp
  rw [hmy, (hup.info_eq c).2.2.2.1, hmem] at hstate hnotifies
  refine ⟨?_, hnotifies⟩
  rw [parseFrame_mem_of_isFor hd hb hc hkind hi hfor timestamp hself, hstate, Dict.setBit_mem_self]

/-- **One frame by the law**: whether it is notified, and the value and the time
from which the law goes on. -/
theorem parseFrame_law (hd : d.WF) (hb : d.SameLayout b.toDict) (hc : c ∈ d.canidRoot)
    (hkind : (d.info c).kind ≠ .send) (hi : i < (d.info c).nData)
    (hsingle : (d.mem (.slot c i)).next = none) (hplain : (d.mem (.slot c i)).Plain)
    {frame : CanFrame} (hfor : IsFor c frame) {timestamp : Timeval}
    (hold : 0 ≤ (b.mem (.slot c i)).updatetime.tvUsec) (hnew : 0 ≤ timestamp.tvUsec)
    {s : ThinOut.Sample ℤ}
    (hs : (d.mem (.slot c i)).sample (canvalue2host frame.data) timestamp = s)
    (hle : (b.mem (.slot c i)).updatetime.ms ≤ timestamp.ms)
    (hgap : ThinOut.reported (d.info c).cycle.toNat (b.mem (.slot c i)).stored
        (b.mem (.slot c i)).updatetime.ms s = true →
      timestamp.ms - (b.mem (.slot c i)).updatetime.ms < 2 ^ 32) :
    b.notifiesSlot frame timestamp c i = ThinOut.reported (d.info c).cycle.toNat
        (b.mem (.slot c i)).stored (b.mem (.slot c i)).updatetime.ms s
      ∧ ((b.parseFrame frame timestamp).1.mem (.slot c i)).stored = s.value
      ∧ ((b.parseFrame frame timestamp).1.mem (.slot c i)).updatetime.ms
        = ThinOut.lastAfter (d.info c).cycle.toNat (b.mem (.slot c i)).stored
          (b.mem (.slot c i)).updatetime.ms s
      ∧ 0 ≤ ((b.parseFrame frame timestamp).1.mem (.slot c i)).updatetime.tvUsec := by
  have hdef : (b.mem (.slot c i)).toPropDef = (d.mem (.slot c i)).toPropDef :=
    (hb.entry (.slot c i)).1
  have hplain' : (b.mem (.slot c i)).Plain := by
    rw [PropDef.Plain, hdef]
    exact hplain
  have hs' : (b.mem (.slot c i)).sample (canvalue2host frame.data) timestamp = s := by
    rw [hdef]
    exact hs
  obtain ⟨hstate, hnotifies⟩ := parseFrame_receive hd hb hc hkind hi hsingle hfor timestamp
  obtain ⟨hrep, hstored, htime⟩ := CanBit.receive_law hplain' (d.info c).cycle
    (canvalue2host frame.data) hold hnew hle (hs'.symm ▸ hgap)
  rw [hs'] at hrep htime
  rw [hnotifies, hrep, hstate, hstored, htime]
  refine ⟨rfl, by rw [← hs']; rfl, ?_, ?_⟩
  · unfold ThinOut.lastAfter
    rw [← hs]
    split_ifs <;> rfl
  · split_ifs
    · exact hnew
    · exact hold

/-- **The history of a single entry is the law of its samples.** -/
theorem history_eq_law (hd : d.WF) (hc : c ∈ d.canidRoot) (hkind : (d.info c).kind ≠ .send)
    (hi : i < (d.info c).nData) (hsingle : (d.mem (.slot c i)).next = none)
    (hplain : (d.mem (.slot c i)).Plain) {frames : List (CanFrame × Timeval)}
    (hb : d.SameLayout b.toDict) (hold : 0 ≤ (b.mem (.slot c i)).updatetime.tvUsec)
    (hframes : ∀ f ∈ frames, 0 ≤ f.2.tvUsec)
    (hord : ThinOut.Ordered (b.mem (.slot c i)).updatetime.ms
      ((d.mem (.slot c i)).samples c frames))
    (hgap : ThinOut.GapsBelow (2 ^ 32) (d.info c).cycle.toNat (b.mem (.slot c i)).stored
      (b.mem (.slot c i)).updatetime.ms ((d.mem (.slot c i)).samples c frames)) :
    history c i b frames = ThinOut.law (d.info c).cycle.toNat (b.mem (.slot c i)).stored
      (b.mem (.slot c i)).updatetime.ms ((d.mem (.slot c i)).samples c frames) := by
  induction frames generalizing b with
  | nil => rfl
  | cons f frames ih =>
    obtain ⟨frame, timestamp⟩ := f
    have hb' : d.SameLayout (b.parseFrame frame timestamp).1.toDict :=
      hb.trans (runRelation_sameLayout.parseFrame b frame timestamp)
    have hframes' : ∀ f ∈ frames, 0 ≤ f.2.tvUsec :=
      fun f hf => hframes f (List.mem_cons_of_mem _ hf)
    rw [history]
    by_cases hfor : IsFor c frame
    · rw [PropDef.samples_cons_of_isFor _ hfor] at hord hgap ⊢
      obtain ⟨hrep, hvalue, hlast, hold'⟩ := parseFrame_law hd hb hc hkind hi hsingle hplain hfor
        hold (hframes _ List.mem_cons_self) rfl hord.le hgap.1
      have hrest := ih hb' hold' hframes' (by rw [hlast]; exact hord.tail _ _)
        (by rw [hvalue, hlast]; exact hgap.2)
      rw [if_pos hfor, hrest, hrep, hvalue, hlast, (hb.entry (.slot c i)).1]
      rfl
    · rw [PropDef.samples_cons_of_not_isFor _ hfor] at hord hgap ⊢
      -- the entry is as it was, and so is what the law goes on with
      have hmem := parseFrame_mem_of_not_isFor hd hb hc hi hfor timestamp
        (d.self_mem_chain (.slot c i))
      rw [if_neg hfor, ih hb' (by rwa [hmem]) hframes' (by rwa [hmem]) (by rwa [hmem]), hmem]

end History

end Binder

/-! ## The configured cycle -/

/-- A CAN-ID that is not thinned out has no cycle. -/
theorem cycle_caninfoHeader (canid : CanId) (obj : Json) (kind : CanPropertyKind)
    (h : (caninfoHeader canid obj kind).mode = .non) :
    (caninfoHeader canid obj kind).cycle = 0#32 := by
  unfold caninfoHeader at h ⊢
  dsimp only at h ⊢
  split
  · rfl
  · rw [h]

/-- A loaded CAN-ID that is not thinned out has no cycle. -/
theorem Dict.Configured.cycle {cs : List CanidDef} {d : Dict} (h : Dict.Configured cs d)
    {c : CanId} (hc : c ∈ d.canidRoot) (hmode : (d.info c).mode = .non) :
    (d.info c).cycle = 0#32 := by
  obtain ⟨x, hx, rfl⟩ := (h.canids c).mp hc
  obtain ⟨m, fd, hinfo⟩ := h.info x hx
  obtain ⟨canid, obj, kind, -, hheader⟩ := h.header x hx
  rw [hinfo, hheader] at hmode ⊢
  exact cycle_caninfoHeader canid obj kind hmode

namespace Binder

/-- **The thin-out law.** In any state of a loaded configuration, over any
frames in the order of time, `notify_property_changed` is called for a single
entry to receive exactly where the law reports its samples. Without
thinning out that is every frame, and with it two notifications of one value
are a cycle apart. What the history says of a frame is whether the update of the
entry makes the call. -/
theorem notified_by_law {jobj : Json} {d : Dict} (hload : canDefineInit jobj = some d)
    {c : CanId} {i : ℕ} (hc : c ∈ d.canidRoot) (hkind : (d.info c).kind = .readonly)
    (hi : i < (d.info c).nData) (hsingle : (d.mem (.slot c i)).next = none)
    (hplain : (d.mem (.slot c i)).Plain) {b : Binder} (hb : d.SameLayout b.toDict)
    {frames : List (CanFrame × Timeval)}
    (htimes : Timely (b.mem (.slot c i)).updatetime frames)
    (hgap : ThinOut.GapsBelow (2 ^ 32) (d.info c).cycle.toNat (b.mem (.slot c i)).stored
      (b.mem (.slot c i)).updatetime.ms ((d.mem (.slot c i)).samples c frames)) :
    history c i b frames = ThinOut.law (d.info c).cycle.toNat (b.mem (.slot c i)).stored
        (b.mem (.slot c i)).updatetime.ms ((d.mem (.slot c i)).samples c frames)
      ∧ ((d.info c).mode = .non → ∀ x ∈ history c i b frames, x.2 = true)
      ∧ (∀ pre (x : ThinOut.Sample ℤ) mid y post,
          history c i b frames = pre ++ (x, true) :: (mid ++ (y, true) :: post) →
            (∀ z ∈ (x, true) :: mid, z.1.value = y.value) →
              x.time + ((d.info c).cycle.toNat : ℤ) ≤ y.time)
      ∧ ∀ pre frame timestamp post, frames = pre ++ (frame, timestamp) :: post → IsFor c frame →
          ∃ called, history c i b frames = history c i b pre
              ++ ((d.mem (.slot c i)).sample (canvalue2host frame.data) timestamp, called)
                :: history c i ((b.afterFrames pre).parseFrame frame timestamp).1 post
            ∧ ((b.afterFrames pre).upTo frame timestamp c i).Calls (canvalue2host frame.data)
              (.slot c i) timestamp called := by
  obtain ⟨cs, -, hconf⟩ := Dict.configured_of_canDefineInit hload
  have hord := htimes.ordered (d.mem (.slot c i)).toPropDef c
  have hsend : (d.info c).kind ≠ .send := by
    rw [hkind]
    exact CanPropertyKind.noConfusion
  have hlaw := history_eq_law hconf.sound.wf hc hsend hi hsingle hplain hb
    (htimes.usec _ List.mem_cons_self)
    (fun f hf => htimes.usec _ (List.mem_cons_of_mem _ (List.mem_map_of_mem hf))) hord hgap
  refine ⟨hlaw, fun hmode => ?_, fun pre x mid y post heq hsame => ?_,
    fun pre frame timestamp post heq hfor => ?_⟩
  · rw [hlaw, hconf.cycle hc hmode]
    exact ThinOut.law_of_cycle_nonpos le_rfl hord
  · rw [hlaw] at heq
    exact ThinOut.law_spaced hord heq hsame
  · rw [heq]
    exact exists_called hb hsingle hplain pre post hfor timestamp

/-- Two frames that set the sample speed to the same value, a fifth of a second
apart. -/
def speedFrames : List (CanFrame × Timeval) :=
  [(⟨0x100#32, 8#8, fun _ => 1#8⟩, ⟨3, 500000⟩), (⟨0x100#32, 8#8, fun _ => 1#8⟩, ⟨3, 700000⟩)]

theorem notified_by_law_sample :
    ∃ d, canDefineInit sampleConfig = some d
      ∧ history 0x100#16 0 (start d) speedFrames
        = [(⟨0x101, 3500⟩, true), (⟨0x101, 3700⟩, false)] := by
  have hload : (canDefineInit sampleConfig).map (fun d =>
        (d.canidRoot, d.info 0x100#16, d.mem (.slot 0x100#16 0)))
      = some ([0x100#16, 0x200#16],
        ⟨0x100#16, 0#8, .chg, 1000#32, ⟨0x100#32, 8#8, fun _ => 0#8⟩, 0, .readonly, 1⟩,
        ⟨⟨"speed", .readonly, 2#8, 0#8, 16#8, .int16, none, 0⟩, 0x100#16, none, none, ⟨0, 0⟩,
          DataContent.zero⟩) := by
    decide
  obtain ⟨d, hd, hval⟩ := Option.map_eq_some_iff.mp hload
  simp only [Prod.mk.injEq] at hval
  obtain ⟨hroot, hinfo, hmem⟩ := hval
  have htimes : Timely ((start d).mem (.slot 0x100#16 0)).updatetime speedFrames := by
    rw [show (start d).mem = d.mem from rfl, hmem]
    exact ⟨by decide, by decide⟩
  refine ⟨d, hd, (notified_by_law hd (by rw [hroot]; decide) (by rw [hinfo]) (by rw [hinfo]; decide)
    (by rw [hmem]) (by rw [hmem]; exact ⟨rfl, by decide⟩) (Dict.SameLayout.refl d) htimes
    (ThinOut.gapsBelow_of_lt _ _ (htimes.ordered _ _) ?_)).1.trans ?_⟩
  · rw [show (start d).mem = d.mem from rfl, hmem]
    decide
  · rw [show (start d).mem = d.mem from rfl, hmem, hinfo]
    decide

end Binder
