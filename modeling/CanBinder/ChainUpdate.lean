import CanBinder.Configuration
import CanBinder.Values
import CanBinder.Events

/-!
# A frame and a chain

The entries of a chain are reset before a frame is decoded into them, so what
each holds afterwards is a function of its definition and the frame
(`PropDef.content`), and so is whether it is active (`PropDef.Activates`). The
last active entry of the chain is the one applied, and clients are notified if
it was another one before or held something else, or if the cycle is over
(`Binder.chain_updated`).

An entry that cannot be decoded ends the loop at once. The entries before it
have their new content then, and it and those after it are still reset, so
nothing is undone and the frame is without effect only where that is what they
held before (`Binder.error_atomic_iff`).
-/

/-- **An active value**: a number that is not zero, the truth, a text other than
`NOTSET`. -/
def Value.Active : Value → Prop
  | .int i => i ≠ 0
  | .truth b => b = true
  | .text s => s ≠ some "NOTSET"
  | .nothing => False

instance : (x : Value) → Decidable x.Active
  | .int i => inferInstanceAs (Decidable (i ≠ 0))
  | .truth b => inferInstanceAs (Decidable (b = true))
  | .text s => inferInstanceAs (Decidable (s ≠ some "NOTSET"))
  | .nothing => inferInstanceAs (Decidable False)

namespace PropDef

/-- The word a raw value stands for: itself, or its entry of the table. -/
def wordOf (p : PropDef) (v : BitVec 32) : BitVec 32 :=
  match p.dataconv with
  | none => v
  | some conv => conv.intAt v.toNat

/-- **What an entry holds** after it was reset and took a raw value. -/
def content (p : PropDef) (v : BitVec 32) : DataContent :=
  match p.varType with
  | .int8 | .uint8 => DataContent.zero.setVal8 ((p.wordOf v).setWidth 8)
  | .int16 | .uint16 => DataContent.zero.setVal16 ((p.wordOf v).setWidth 16)
  | .void | .int | .int32 | .uint | .uint32 | .enable1 => DataContent.zero.setVal32 (p.wordOf v)
  | .bool => DataContent.zero.setVal8 (if p.wordOf v = 0#32 then 0#8 else 1#8)
  | .string =>
    { DataContent.zero with string := p.dataconv.map (fun conv => conv.stringAt v.toNat) }
  | .array | .uint64 | .int64 => DataContent.zero

/-- **A raw value activates an entry** if its meaning is active, and for a
substitution only if it is not zero itself. -/
def Activates (p : PropDef) (v : BitVec 32) : Prop :=
  (p.meaning v).Active ∧ (p.varType = .enable1 → v ≠ 0#32)

instance (p : PropDef) (v : BitVec 32) : Decidable (p.Activates v) :=
  inferInstanceAs (Decidable (_ ∧ _))

end PropDef

/-- A branch of the type switch, from a value that it leaves only where it would
store the same. -/
theorem CanBit.assign_of_ne {p : CanBit} {α : Type} [DecidableEq α] {z x : α} {c : DataContent}
    {reported : Bool} (hsame : x = z → c = p.curValue) {A : Prop} [Decidable A]
    (hA : x ≠ z ∧ reported = true ↔ A) :
    ((p.assign (z ≠ x) c reported).1, (p.assign (z ≠ x) c reported).2.curValue)
      = (if A then .updated else .noUpdated, c) := by
  by_cases hx : x = z
  · rw [if_neg (fun h => (hA.mpr h).1 hx), hsame hx, decide_eq_false (not_not.mpr hx.symm)]
    rfl
  · rw [decide_eq_true (Ne.symm hx)]
    cases reported with
    | false =>
      rw [if_neg (fun h => Bool.false_ne_true (hA.mpr h).2)]
      rfl
    | true =>
      rw [if_pos (hA.mp ⟨hx, rfl⟩)]
      rfl

/-- A word is not zero as a number if it is not zero. -/
theorem BitVec.toInt_eq_zero_iff {w : ℕ} (x : BitVec w) : x.toInt = 0 ↔ x = 0#w := by
  rw [← BitVec.toInt_inj, BitVec.toInt_zero]

theorem BitVec.toNat_eq_zero_iff {w : ℕ} (x : BitVec w) : x.toNat = 0 ↔ x = 0#w := by
  rw [← BitVec.toNat_inj]
  rfl

namespace DataContent

/-- Storing a zero changes nothing in an entry that was reset. -/
theorem zero_setVal8 {x : BitVec 8} (h : x = 0#8) : zero.setVal8 x = zero := by
  rw [h]
  decide

theorem zero_setVal16 {x : BitVec 16} (h : x = 0#16) : zero.setVal16 x = zero := by
  rw [h]
  decide

theorem zero_setVal32 {x : BitVec 32} (h : x = 0#32) : zero.setVal32 x = zero := by
  rw [h]
  rfl

theorem zero_val8 : zero.val8 = 0#8 := rfl

theorem zero_val16 : zero.val16 = 0#16 := rfl

theorem zero_word : zero.word = 0#32 := rfl

end DataContent

namespace PropDef

variable {p : PropDef} {v : BitVec 32}

/-- Storing into an entry without a table that was reset. -/
theorem decode_zero_none (hconv : p.dataconv = none) (h : p.rejects v = false) :
    p.decode DataContent.zero v
      = (if p.Activates v then .updated else .noUpdated, p.content v) := by
  have hmeaning : p.meaning v = p.varType.cast v := by
    unfold meaning
    rw [hconv]
  unfold rejects at h
  rw [hconv] at h
  unfold decode updatePropertyValue
  simp only [hconv, Option.isSome_none, Bool.false_eq_true, false_and, if_false, content, wordOf,
    Activates, hmeaning]
  cases ht : p.varType with
  | string => simp [ht] at h
  | enable1 => simp [ht] at h
  | array | uint64 | int64 => simp [VarType.cast, Value.Active]
  | bool =>
    refine CanBit.assign_of_ne DataContent.zero_setVal8 ?_
    by_cases hv : v = 0#32 <;> simp [VarType.cast, Value.Active, DataContent.zero_val8, hv]
  | int8 =>
    refine CanBit.assign_of_ne DataContent.zero_setVal8 ?_
    simp only [VarType.cast, Value.Active]
    generalize v.setWidth 8 = y
    simp [BitVec.toInt_eq_zero_iff, DataContent.zero_val8]
  | uint8 =>
    refine CanBit.assign_of_ne
      (fun hx => DataContent.zero_setVal8 ((BitVec.toInt_eq_zero_iff _).mp hx)) ?_
    simp only [VarType.cast, Value.Active]
    generalize v.setWidth 8 = y
    simp [BitVec.toInt_eq_zero_iff, BitVec.toNat_eq_zero_iff]
  | int16 | uint16 =>
    refine CanBit.assign_of_ne DataContent.zero_setVal16 ?_
    simp only [VarType.cast, Value.Active]
    generalize v.setWidth 16 = y
    simp [BitVec.toInt_eq_zero_iff, BitVec.toNat_eq_zero_iff, DataContent.zero_val16]
  | void | int | int32 | uint | uint32 =>
    refine CanBit.assign_of_ne DataContent.zero_setVal32 ?_
    simp [VarType.cast, Value.Active, BitVec.toInt_eq_zero_iff, BitVec.toNat_eq_zero_iff,
      DataContent.zero_word]

/-- Storing into an entry with a table that was reset. -/
theorem decode_zero_some {conv : ConvTable} (hconv : p.dataconv = some conv)
    (h : p.rejects v = false) :
    p.decode DataContent.zero v
      = (if p.Activates v then .updated else .noUpdated, p.content v) := by
  have hmeaning : p.meaning v
      = if p.varType = .string then .text (some (conv.stringAt v.toNat).text)
        else p.varType.cast (conv.intAt v.toNat) := by
    unfold meaning
    rw [hconv]
  unfold rejects at h
  rw [hconv] at h
  have hn : ¬p.nconv ≤ v.toNat := of_decide_eq_false h
  unfold decode updatePropertyValue
  simp only [hconv, Option.isSome_some, true_and, if_neg hn, content, wordOf, Activates, hmeaning]
  cases ht : p.varType with
  | string =>
    refine CanBit.assign_of_ne (fun hx => by cases hx) ?_
    simp [Value.Active, DataContent.zero]
  | array | uint64 | int64 => simp [VarType.cast, Value.Active]
  | bool =>
    refine CanBit.assign_of_ne (fun hx => ?_) ?_
    · rw [if_pos ((BitVec.toInt_eq_zero_iff _).mp hx)]
      exact DataContent.zero_setVal8 rfl
    · simp [VarType.cast, Value.Active, BitVec.toInt_eq_zero_iff, DataContent.zero_val8]
  | int8 =>
    refine CanBit.assign_of_ne DataContent.zero_setVal8 ?_
    simp only [VarType.cast, Value.Active]
    generalize (conv.intAt v.toNat).setWidth 8 = y
    simp [BitVec.toInt_eq_zero_iff, DataContent.zero_val8]
  | uint8 =>
    refine CanBit.assign_of_ne
      (fun hx => DataContent.zero_setVal8 ((BitVec.toInt_eq_zero_iff _).mp hx)) ?_
    simp only [VarType.cast, Value.Active]
    generalize (conv.intAt v.toNat).setWidth 8 = y
    simp [BitVec.toInt_eq_zero_iff, BitVec.toNat_eq_zero_iff]
  | int16 =>
    refine CanBit.assign_of_ne DataContent.zero_setVal16 ?_
    simp only [VarType.cast, Value.Active]
    generalize (conv.intAt v.toNat).setWidth 16 = y
    simp [BitVec.toInt_eq_zero_iff, DataContent.zero_val16]
  | uint16 =>
    refine CanBit.assign_of_ne
      (fun hx => DataContent.zero_setVal16 ((BitVec.toInt_eq_zero_iff _).mp hx)) ?_
    simp only [VarType.cast, Value.Active]
    generalize (conv.intAt v.toNat).setWidth 16 = y
    simp [BitVec.toInt_eq_zero_iff, BitVec.toNat_eq_zero_iff]
  | void | int | int32 | uint | uint32 | enable1 =>
    refine CanBit.assign_of_ne DataContent.zero_setVal32 ?_
    simp [VarType.cast, Value.Active, BitVec.toInt_eq_zero_iff, BitVec.toNat_eq_zero_iff,
      DataContent.zero_word]

/-- **Storing a raw value into an entry that was reset.** -/
theorem decode_zero (h : p.rejects v = false) :
    p.decode DataContent.zero v
      = (if p.Activates v then .updated else .noUpdated, p.content v) := by
  cases hconv : p.dataconv with
  | none => exact decode_zero_none hconv h
  | some conv => exact decode_zero_some hconv h

end PropDef

/-- A value that is taken is reported if it activates the entry. -/
theorem PropDef.active_eq {p : PropDef} {canV64 : BitVec 64} (h : p.unreadable canV64 = false) :
    p.active canV64 = decide (p.Activates (p.raw canV64)) := by
  unfold PropDef.active PropDef.decoded
  rw [decode_zero h]
  by_cases hact : p.Activates (p.raw canV64) <;> simp [hact]

/-- The value of what an entry holds is the meaning of the raw value. -/
theorem PropDef.valueOf_content {p : PropDef} {v : BitVec 32} (h : p.rejects v = false) :
    p.valueOf (p.content v) = p.meaning v := by
  have hval := PropDef.valueOf_decode DataContent.zero h
  rwa [PropDef.decode_zero h] at hval

namespace Dict

/-- **The last active entry** of the chain of a property. -/
def LastActive (d : Dict) (canV64 : BitVec 64) (a m : Addr) : Prop :=
  ∃ pre post, d.chain a = pre ++ m :: post
    ∧ (d.mem m).Activates ((d.mem m).raw canV64)
    ∧ ∀ x ∈ post, ¬(d.mem x).Activates ((d.mem x).raw canV64)

/-- **A frame is to be notified**: an entry is active that was not the one
applied or held something else, or the cycle is over. -/
def Due (d : Dict) (canV64 : BitVec 64) (a : Addr) (timestamp : Timeval) : Prop :=
  (∃ m, d.LastActive canV64 a m ∧ ((d.mem a).applyinfo ≠ some m
      ∨ (d.mem m).content ((d.mem m).raw canV64) ≠ (d.mem m).curValue))
    ∨ (d.info (d.mem a).mycanid).cycle ≤ elapsMs (d.mem a).updatetime timestamp

/-- The last element of a list with a property. -/
theorem getLast?_filter_eq_some_iff {α : Type} {l : List α} {q : α → Bool} {m : α} :
    (l.filter q).getLast? = some m
      ↔ ∃ pre post, l = pre ++ m :: post ∧ q m = true ∧ ∀ x ∈ post, q x = false := by
  constructor
  · intro h
    obtain ⟨ys, hys⟩ := List.getLast?_eq_some_iff.mp h
    obtain ⟨pre, post, rfl, -, hpost⟩ := List.filter_eq_append_iff.mp hys
    obtain ⟨pre', post', rfl, hpre', hm, hpost'⟩ := List.filter_eq_cons_iff.mp hpost
    refine ⟨pre ++ pre', post', by simp, hm, fun x hx => ?_⟩
    have hnil := List.filter_eq_nil_iff.mp hpost' x hx
    exact Bool.eq_false_iff.mpr hnil
  · rintro ⟨pre, post, rfl, hm, hpost⟩
    have hnil : post.filter q = [] :=
      List.filter_eq_nil_iff.mpr (fun x hx => by rw [hpost x hx]; exact Bool.false_ne_true)
    rw [List.filter_append, List.filter_cons_of_pos hm, hnil]
    simp

section Chain

variable {d : Dict} {canV64 : BitVec 64} {a : Addr}

/-- **The entry the decode loop marks** is the last active one. -/
theorem lastActive_iff (hread : ∀ x ∈ d.chain a, (d.mem x).unreadable canV64 = false) (m : Addr) :
    ((d.chain a).filter (fun x => (d.mem x).active canV64)).getLast? = some m
      ↔ d.LastActive canV64 a m := by
  rw [getLast?_filter_eq_some_iff]
  constructor
  · rintro ⟨pre, post, hchain, hm, hpost⟩
    have hin : ∀ x ∈ m :: post, x ∈ d.chain a := fun x hx =>
      hchain ▸ List.mem_append_right pre hx
    refine ⟨pre, post, hchain, ?_, fun x hx => ?_⟩
    · rw [PropDef.active_eq (hread m (hin m List.mem_cons_self))] at hm
      exact of_decide_eq_true hm
    · have hx' := hpost x hx
      rw [PropDef.active_eq (hread x (hin x (List.mem_cons_of_mem m hx)))] at hx'
      exact of_decide_eq_false hx'
  · rintro ⟨pre, post, hchain, hm, hpost⟩
    have hin : ∀ x ∈ m :: post, x ∈ d.chain a := fun x hx =>
      hchain ▸ List.mem_append_right pre hx
    refine ⟨pre, post, hchain, ?_, fun x hx => ?_⟩
    · rw [PropDef.active_eq (hread m (hin m List.mem_cons_self))]
      exact decide_eq_true hm
    · rw [PropDef.active_eq (hread x (hin x (List.mem_cons_of_mem m hx)))]
      exact decide_eq_false (hpost x hx)

end Chain

/-- A stamp is no value. -/
theorem stamp_curValue (d : Dict) (a : Addr) (timestamp : Timeval) (x : Addr) :
    ((d.stamp a timestamp).mem x).curValue = (d.mem x).curValue := by
  unfold stamp
  by_cases hx : x = a
  · rw [hx, setBit_mem_self]
  · rw [setBit_mem_of_ne d hx]

theorem stamp_applyinfo (d : Dict) (a : Addr) (timestamp : Timeval) (x : Addr) :
    ((d.stamp a timestamp).mem x).applyinfo = (d.mem x).applyinfo :=
  setBit_applyinfo (p := { d.mem a with updatetime := timestamp }) rfl x

/-- Stamping another entry too keeps the stamp. -/
theorem stamp_stamp_updatetime (d : Dict) (a m : Addr) (timestamp : Timeval) :
    (((d.stamp a timestamp).stamp m timestamp).mem a).updatetime = timestamp := by
  have hself : ∀ d : Dict, ((d.stamp a timestamp).mem a).updatetime = timestamp := fun d => by
    unfold stamp
    rw [setBit_mem_self]
  by_cases hm : a = m
  · rw [← hm]
    exact hself _
  · rw [stamp, setBit_mem_of_ne _ hm]
    exact hself d

/-- **What `update_iviproperty` does with the marked entry**: it is applied, no
value is touched, and the property is stamped where the number of updates is
not zero. -/
theorem applyMark_spec (d : Dict) (a : Addr) (elaps cycle : BitVec 32) (preApValue : DataContent)
    (timestamp : Timeval) (mark : Option Addr) {update : ℕ} (hupdate : mark = none → update = 0) :
    let r := d.applyMark a elaps cycle preApValue timestamp mark update
    let due := (∃ m, mark = some m ∧ ((d.mem a).applyinfo ≠ some m
      ∨ (d.mem m).curValue ≠ preApValue)) ∨ cycle ≤ elaps
    (∀ x, (r.1.mem x).curValue = (d.mem x).curValue)
      ∧ (r.1.mem a).applyinfo = mark.or (d.mem a).applyinfo
      ∧ (r.2 ≠ 0 ↔ due)
      ∧ (due → (r.1.mem a).updatetime = timestamp)
      ∧ (¬due → r.1 = d) := by
  have hstamp : ((d.stamp a timestamp).mem a).updatetime = timestamp := by
    unfold stamp
    rw [setBit_mem_self]
  unfold applyMark
  cases mark with
  | none =>
    dsimp only
    have hdue : ((∃ m, none = some m ∧ ((d.mem a).applyinfo ≠ some m
        ∨ (d.mem m).curValue ≠ preApValue)) ∨ cycle ≤ elaps) ↔ cycle ≤ elaps := by simp
    rw [hdue, hupdate rfl]
    split_ifs with hcycle
    · exact ⟨fun x => stamp_curValue d a timestamp x, stamp_applyinfo d a timestamp a,
        iff_of_true (by simp) hcycle, fun _ => hstamp, fun h => absurd hcycle h⟩
    · exact ⟨fun _ => rfl, rfl, iff_of_false (by simp) hcycle, fun h => absurd h hcycle,
        fun _ => rfl⟩
  | some m =>
    dsimp only
    have hdue : ((∃ m', some m = some m' ∧ ((d.mem a).applyinfo ≠ some m'
        ∨ (d.mem m').curValue ≠ preApValue)) ∨ cycle ≤ elaps)
        ↔ ((d.mem a).applyinfo ≠ some m ∨ (d.mem m).curValue ≠ preApValue) ∨ cycle ≤ elaps := by
      simp
    rw [hdue]
    split_ifs with happly hcheck
    · refine ⟨fun x => ?_, ?_, iff_of_true (by simp) (Or.inl (Or.inl happly)),
        fun _ => stamp_stamp_updatetime _ a m timestamp,
        fun h => absurd (Or.inl (Or.inl happly)) h⟩
      · rw [stamp_curValue, stamp_curValue]
        by_cases hx : x = a
        · rw [hx, setBit_mem_self]
        · rw [setBit_mem_of_ne d hx]
      · rw [stamp_applyinfo, stamp_applyinfo, setBit_mem_self]
        rfl
    · have hd : ((d.mem a).applyinfo ≠ some m ∨ (d.mem m).curValue ≠ preApValue)
          ∨ cycle ≤ elaps := hcheck.imp_left Or.inr
      refine ⟨fun x => stamp_curValue d a timestamp x, ?_, iff_of_true (by simp) hd,
        fun _ => hstamp, fun h => absurd hd h⟩
      rw [stamp_applyinfo, of_not_not happly]
      rfl
    · have hd : ¬(((d.mem a).applyinfo ≠ some m ∨ (d.mem m).curValue ≠ preApValue)
          ∨ cycle ≤ elaps) := fun h => by
        rcases h with (h | h) | h
        · exact happly h
        · exact hcheck (Or.inl h)
        · exact hcheck (Or.inr h)
      exact ⟨fun _ => rfl, by rw [of_not_not happly]; rfl, iff_of_false (by simp) hd,
        fun h => absurd h hd, fun _ => rfl⟩

section Chain

variable {d : Dict} {canV64 : BitVec 64} {a : Addr}

theorem LastActive.mem_chain {m : Addr} (h : d.LastActive canV64 a m) : m ∈ d.chain a := by
  obtain ⟨pre, post, hchain, -⟩ := h
  exact hchain ▸ List.mem_append_right pre List.mem_cons_self

theorem LastActive.activates {m : Addr} (h : d.LastActive canV64 a m) :
    (d.mem m).Activates ((d.mem m).raw canV64) := by
  obtain ⟨pre, post, -, hact, -⟩ := h
  exact hact

/-- **What a frame makes of a chain** that can take it. -/
theorem updateProperty_chain_spec (hnext : (d.mem a).next.isSome = true) (hnd : (d.chain a).Nodup)
    (hread : ∀ x ∈ d.chain a, (d.mem x).unreadable canV64 = false) (timestamp : Timeval) :
    let r := d.updateProperty canV64 a timestamp
    (∀ x ∈ d.chain a, (r.1.mem x).curValue = (d.mem x).content ((d.mem x).raw canV64))
      ∧ (∀ m, d.LastActive canV64 a m → (r.1.mem a).applyinfo = some m)
      ∧ ((∀ m, ¬d.LastActive canV64 a m) → (r.1.mem a).applyinfo = (d.mem a).applyinfo)
      ∧ (d.notifies canV64 a timestamp = true ↔ d.Due canV64 a timestamp)
      ∧ (d.Due canV64 a timestamp → (r.1.mem a).updatetime = timestamp)
      ∧ (¬d.Due canV64 a timestamp → (r.1.mem a).updatetime = (d.mem a).updatetime)
      ∧ r.2.isSome = true := by
  have hchain := updateProperty_chain hnext hnd hread timestamp
  have hlast := lastActive_iff hread
  have hmark : ∀ l : List Addr, l.getLast? = none → l.length = 0 := fun l hl => by
    rw [List.getLast?_eq_none_iff.mp hl]
    rfl
  have hstored : ∀ x ∈ d.chain a, ((storeAll (fun p => (p.decoded canV64).2) (d.chain a) d).mem
      x).curValue = (d.mem x).content ((d.mem x).raw canV64) := fun x hx => by
    rw [storeAll_mem_of_mem hx]
    exact congrArg Prod.snd (PropDef.decode_zero (hread x hx))
  obtain ⟨hval, happly, hnot, hstamp, hkeep⟩ := applyMark_spec
    (storeAll (fun p => (p.decoded canV64).2) (d.chain a) d) a
    (elapsMs (d.mem a).updatetime timestamp) (d.info (d.mem a).mycanid).cycle (d.preApValue a)
    timestamp ((d.chain a).filter (fun x => (d.mem x).active canV64)).getLast? (hmark _)
  -- the value kept before the reset is that of the marked entry, where it was applied
  have hdue : ((∃ m, ((d.chain a).filter (fun x => (d.mem x).active canV64)).getLast? = some m
      ∧ (((storeAll (fun p => (p.decoded canV64).2) (d.chain a) d).mem a).applyinfo ≠ some m
        ∨ ((storeAll (fun p => (p.decoded canV64).2) (d.chain a) d).mem m).curValue
          ≠ d.preApValue a))
      ∨ (d.info (d.mem a).mycanid).cycle ≤ elapsMs (d.mem a).updatetime timestamp)
      ↔ d.Due canV64 a timestamp := by
    refine or_congr_left (exists_congr (fun m => ?_))
    rw [hlast, storeAll_applyinfo]
    refine and_congr_right (fun hm => ?_)
    rw [hstored m hm.mem_chain]
    by_cases hap : (d.mem a).applyinfo = some m
    · rw [preApValue, hap]
    · exact iff_of_true (Or.inl hap) (Or.inl hap)
  rw [hdue] at hnot hstamp hkeep
  unfold notifies
  rw [hchain]
  dsimp only
  refine ⟨fun x hx => (hval x).trans (hstored x hx), fun m hm => ?_, fun hnone => ?_, ?_, hstamp,
    fun h => ?_, rfl⟩
  · rw [happly, (hlast m).mpr hm]
    rfl
  · have hnil : ((d.chain a).filter (fun x => (d.mem x).active canV64)).getLast? = none := by
      cases hget : ((d.chain a).filter (fun x => (d.mem x).active canV64)).getLast? with
      | none => rfl
      | some m => exact absurd ((hlast m).mp hget) (hnone m)
    rw [happly, hnil, storeAll_applyinfo]
    rfl
  · rw [← hnot]
    simp
  · rw [hkeep h, storeAll_updatetime]

end Chain

/-! ## Entries that cannot be decoded -/

/-- Overwriting an entry by itself. -/
theorem setBit_self (d : Dict) (a : Addr) : d.setBit a (d.mem a) = d := by
  unfold setBit
  rw [Function.update_eq_self]

/-- **The decode loop stops** at the first entry that refuses its value: those
before it have their values, and it and those after it are as they were. -/
theorem decodeChain_of_unreadable (elaps cycle : BitVec 32) (canV64 : BitVec 64)
    (timestamp : Timeval) {pre post : List Addr} {m : Addr} {d : Dict}
    (hnd : (pre ++ m :: post).Nodup)
    (hzero : ∀ x ∈ pre, (d.mem x).curValue = DataContent.zero)
    (hread : ∀ x ∈ pre, (d.mem x).unreadable canV64 = false)
    (hm : (d.mem m).unreadable canV64 = true) (mark : Option Addr) (update : ℕ) :
    decodeChain true elaps cycle canV64 timestamp (pre ++ m :: post) d mark update
      = (storeAll (fun p => (p.decoded canV64).2) pre d, none) := by
  induction pre generalizing d mark update with
  | nil =>
    have hstop : canframe2property canV64 (d.mem m) = (.error, d.mem m) :=
      updatePropertyValue_of_rejects hm
    have hnil : storeAll (fun p => (p.decoded canV64).2) [] d = d := by
      unfold storeAll
      simp
    rw [List.nil_append, decodeChain, hstop, hnil]
    dsimp only
    rw [setBit_self]
  | cons p pre ih =>
    obtain ⟨hp, hpre⟩ := List.nodup_cons.mp hnd
    have hset : ∀ x ∈ pre ++ m :: post, ∀ q, (d.setBit p q).mem x = d.mem x := fun x hx q =>
      setBit_mem_of_ne d (by rintro rfl; exact hp hx) q
    have hset' : ∀ x ∈ pre, ∀ q, (d.setBit p q).mem x = d.mem x := fun x hx =>
      hset x (List.mem_append_left _ hx)
    rw [List.cons_append, decodeChain_cons elaps cycle canV64 timestamp
      (hzero p List.mem_cons_self) (hread p List.mem_cons_self), storeAll_cons]
    refine ih hpre (fun x hx => ?_) (fun x hx => ?_) ?_ _ _
    · rw [hset' x hx]
      exact hzero x (List.mem_cons_of_mem p hx)
    · rw [hset' x hx]
      exact hread x (List.mem_cons_of_mem p hx)
    · rw [hset m (List.mem_append_right pre List.mem_cons_self)]
      exact hm

/-- **What is left of a chain** when an entry refuses its value. -/
theorem updateProperty_of_unreadable {d : Dict} {canV64 : BitVec 64} {a m : Addr}
    {pre post : List Addr} (hnext : (d.mem a).next.isSome = true) (hnd : (d.chain a).Nodup)
    (hchain : d.chain a = pre ++ m :: post)
    (hread : ∀ x ∈ pre, (d.mem x).unreadable canV64 = false)
    (hm : (d.mem m).unreadable canV64 = true) (timestamp : Timeval) :
    d.updateProperty canV64 a timestamp
      = (storeAll (fun p => (p.decoded canV64).2) pre
          (storeAll (fun _ => DataContent.zero) (d.chain a) d), none) := by
  have hdef : ∀ x, ((resetChain (d.chain a) d).mem x).toPropDef = (d.mem x).toPropDef := fun x => by
    rw [resetChain_eq, storeAll_toPropDef]
  have hnd' : (pre ++ m :: post).Nodup := hchain ▸ hnd
  have hdecode := fun elaps cycle => decodeChain_of_unreadable elaps cycle canV64 timestamp
    (d := resetChain (d.chain a) d) hnd'
    (fun x hx => by
      rw [resetChain_eq, storeAll_mem_of_mem (hchain ▸ List.mem_append_left _ hx)])
    (fun x hx => by rw [hdef]; exact hread x hx) (by rw [hdef]; exact hm) none 0
  rw [← hchain] at hdecode
  unfold updateProperty
  dsimp only
  rw [if_pos hnext, hnext, hdecode, resetChain_eq]

end Dict

namespace Binder

/-- The result of `update_iviproperty` is an error where an entry cannot be
decoded. -/
theorem updateIviproperty_result (b : Binder) (canV64 : BitVec 64) (a : Addr)
    (timestamp : Timeval) :
    (b.updateIviproperty canV64 a timestamp).2.2
      = if (b.toDict.updateProperty canV64 a timestamp).2.isSome then 0 else 1 := by
  unfold updateIviproperty
  split
  · rename_i d heq
    rw [heq]
    rfl
  · rename_i d update heq
    have hsome : (some update).isSome = true := rfl
    rw [heq, if_pos hsome]
    dsimp only
    split_ifs <;> rfl

/-- **What a frame does to a chain.** -/
structure ChainUpdated (b : Binder) (canV64 : BitVec 64) (a : Addr) (timestamp : Timeval) :
    Prop where
  stored : ∀ x ∈ b.chain a,
    ((b.updateIviproperty canV64 a timestamp).1.mem x).curValue
      = (b.mem x).content ((b.mem x).raw canV64)
  value : ∀ x ∈ b.chain a,
    ((b.updateIviproperty canV64 a timestamp).1.mem x).value
      = (b.mem x).meaning ((b.mem x).raw canV64)
  applied : ∀ m, b.LastActive canV64 a m →
    ((b.updateIviproperty canV64 a timestamp).1.mem a).applyinfo = some m
  kept : (∀ x ∈ b.chain a, ¬(b.mem x).Activates ((b.mem x).raw canV64)) →
    ((b.updateIviproperty canV64 a timestamp).1.mem a).applyinfo = (b.mem a).applyinfo
  /-- `notify_property_changed` is called once, on the data the frame left. -/
  notified : b.Due canV64 a timestamp →
    b.updateIviproperty canV64 a timestamp =
      let r := (b.decodedInto canV64 a timestamp).notifyPropertyChanged a
      (r.1, r.2, 0)
  silent : ¬b.Due canV64 a timestamp →
    b.updateIviproperty canV64 a timestamp = (b.decodedInto canV64 a timestamp, [], 0)
  stamped : b.Due canV64 a timestamp →
    ((b.updateIviproperty canV64 a timestamp).1.mem a).updatetime = timestamp
  unstamped : ¬b.Due canV64 a timestamp →
    ((b.updateIviproperty canV64 a timestamp).1.mem a).updatetime = (b.mem a).updatetime

/-- **A frame and a chain.** In any state of a loaded configuration, a frame that
every entry of a chain can take sets each entry to what its definition and the
frame say, applies the last active one, and is notified once if that is a
change or the cycle is over. -/
theorem chain_updated {jobj : Json} {d : Dict} (hload : canDefineInit jobj = some d) {b : Binder}
    (hb : d.SameLayout b.toDict) {a : Addr} (ha : a ∈ d.propertyRoot)
    (hnext : (d.mem a).next.isSome = true) {canV64 : BitVec 64}
    (hread : ∀ x ∈ d.chain a, (d.mem x).unreadable canV64 = false) (timestamp : Timeval) :
    b.ChainUpdated canV64 a timestamp := by
  obtain ⟨cs, -, hconf⟩ := Dict.configured_of_canDefineInit hload
  have hnd := (hb.wf hconf.sound.wf).nodup_chain (hb.propertyRoot ▸ ha)
  have hnext' : (b.mem a).next.isSome = true := by rwa [(hb.entry a).2.2]
  have hread' : ∀ x ∈ b.chain a, (b.mem x).unreadable canV64 = false := fun x hx => by
    rw [(hb.entry x).1]
    exact hread x (hb.chain_eq a ▸ hx)
  obtain ⟨hval, hlast, hnone, hnot, hstamp, hunstamp, hsome⟩ :=
    Dict.updateProperty_chain_spec hnext' hnd hread' timestamp
  have hdict := updateIviproperty_toDict b canV64 a timestamp
  have hmem : (b.updateIviproperty canV64 a timestamp).1.mem
      = (b.toDict.updateProperty canV64 a timestamp).1.mem := congrArg Dict.mem hdict
  have hentry := (b.toDict.touches_updateProperty canV64 a timestamp).entry
  have hresult := b.updateIviproperty_result canV64 a timestamp
  refine ⟨fun x hx => ?_, fun x hx => ?_, fun m hm => ?_, fun h => ?_, fun h => ?_, fun h => ?_,
    fun h => ?_, fun h => ?_⟩
  · rw [hmem]
    exact hval x hx
  · rw [hmem, CanBit.value, (hentry x).1, hval x hx]
    exact PropDef.valueOf_content (hread' x hx)
  · rw [hmem]
    exact hlast m hm
  · rw [hmem]
    exact hnone (fun m hm => h m hm.mem_chain hm.activates)
  · obtain ⟨hstate, hout⟩ := updateIviproperty_of_notifies (hnot.mpr h)
    exact Prod.ext hstate (Prod.ext hout (hresult.trans (if_pos hsome)))
  · obtain ⟨hstate, hout⟩ := updateIviproperty_of_not_notifies
      (Bool.eq_false_iff.mpr (fun hn => h (hnot.mp hn)))
    exact Prod.ext hstate (Prod.ext hout (hresult.trans (if_pos hsome)))
  · rw [hmem]
    exact hstamp h
  · rw [hmem]
    exact hunstamp h

/-- A gear from one of two bytes, the first through a table. -/
def gearConfig : Json :=
  configFile [("100", configCanid "CAN_THINOUT_NON" 0
    [.object [("PROPERTY", .string "gear"), ("TYPE", .string "int8_t"),
        ("SET-DATA", .array [.int 0, .int 5]), ("POS", .int 1), ("OFFS", .int 0),
        ("LEN", .int 8)],
      configData "gear" "int8_t" 2 0 8])] []

/-- The frame word with a byte for the first entry. -/
def gearWord (v : BitVec 8) : BitVec 64 :=
  canvalue2host (fun i => if i.val = 0 then v else 0#8)

theorem chain_updated_gear :
    ∃ d, canDefineInit gearConfig = some d
      ∧ (start d).ChainUpdated (gearWord 1#8) (.slot 0x100#16 0) ⟨3, 0⟩
      ∧ d.LastActive (gearWord 1#8) (.slot 0x100#16 0) (.slot 0x100#16 0) := by
  have hload : (canDefineInit gearConfig).map (fun d =>
        ((d.propertyRoot, (d.mem (.slot 0x100#16 0)).next.isSome, d.chain (.slot 0x100#16 0)),
          (d.chain (.slot 0x100#16 0)).map (fun x => (d.mem x).unreadable (gearWord 1#8)),
          (d.chain (.slot 0x100#16 0)).map (fun x =>
            decide ((d.mem x).Activates ((d.mem x).raw (gearWord 1#8))))))
      = some (([.slot 0x100#16 0], true, [.slot 0x100#16 0, .cell 0]), [false, false],
          [true, false]) := by
    decide
  obtain ⟨d, hd, hval⟩ := Option.map_eq_some_iff.mp hload
  simp only [Prod.mk.injEq] at hval
  obtain ⟨⟨hroot, hnext, hchain⟩, hread, hact⟩ := hval
  rw [hchain] at hread hact
  simp only [List.map_cons, List.map_nil, List.cons.injEq, and_true] at hread hact
  have hall : ∀ x ∈ d.chain (.slot 0x100#16 0), (d.mem x).unreadable (gearWord 1#8) = false := by
    simp [hchain, hread.1, hread.2]
  refine ⟨d, hd, chain_updated hd (b := start d) (Dict.SameLayout.refl d) (by rw [hroot]; decide)
    hnext hall ⟨3, 0⟩, [], [.cell 0], hchain, of_decide_eq_true hact.1, ?_⟩
  simpa using of_decide_eq_false hact.2

/-- **A frame that is an error is without effect**: on the entries of the chain,
on what clients are told, and on what the property reports. -/
structure ErrorAtomic (b : Binder) (canV64 : BitVec 64) (a : Addr) (timestamp : Timeval) :
    Prop where
  entries : (b.updateIviproperty canV64 a timestamp).2.2 = 1 → ∀ x ∈ b.chain a,
    ((b.updateIviproperty canV64 a timestamp).1.mem x).curValue = (b.mem x).curValue
      ∧ ((b.updateIviproperty canV64 a timestamp).1.mem x).applyinfo = (b.mem x).applyinfo
      ∧ ((b.updateIviproperty canV64 a timestamp).1.mem x).updatetime = (b.mem x).updatetime
  silent : (b.updateIviproperty canV64 a timestamp).2.2 = 1 →
    (b.updateIviproperty canV64 a timestamp).2.1 = []
  reported : (b.updateIviproperty canV64 a timestamp).2.2 = 1 →
    (b.updateIviproperty canV64 a timestamp).1.property2json a = b.property2json a

end Binder

namespace Dict

/-- **The chain is already as the loop would leave it** at the first entry that
refuses its value: a single entry, or one where the entries before hold what
they are about to get and the others are still zero. -/
def Undisturbed (d : Dict) (canV64 : BitVec 64) (a : Addr) : Prop :=
  (d.mem a).next = none
    ∨ ∀ pre m post, d.chain a = pre ++ m :: post →
        (∀ x ∈ pre, (d.mem x).unreadable canV64 = false) →
        (d.mem m).unreadable canV64 = true →
        (∀ x ∈ pre, (d.mem x).curValue = (d.mem x).content ((d.mem x).raw canV64))
          ∧ ∀ x ∈ m :: post, (d.mem x).curValue = DataContent.zero

variable {d : Dict} {canV64 : BitVec 64} {a : Addr}

/-- The first entry of a list that refuses its value. -/
theorem exists_first_unreadable {l : List Addr} (h : ∃ x ∈ l, (d.mem x).unreadable canV64 = true) :
    ∃ pre m post, l = pre ++ m :: post ∧ (∀ x ∈ pre, (d.mem x).unreadable canV64 = false)
      ∧ (d.mem m).unreadable canV64 = true := by
  obtain ⟨m, hm⟩ := Option.isSome_iff_exists.mp
    (List.find?_isSome.mpr h : (l.find? (fun x => (d.mem x).unreadable canV64)).isSome = true)
  obtain ⟨hun, pre, post, hl, hpre⟩ := List.find?_eq_some_iff_append.mp hm
  exact ⟨pre, m, post, hl, fun x hx => by simpa using hpre x hx, hun⟩

/-- A single entry that refuses its value is left as it is. -/
theorem updateProperty_single_of_unreadable (hnext : (d.mem a).next = none)
    (h : (d.mem a).unreadable canV64 = true) (timestamp : Timeval) :
    d.updateProperty canV64 a timestamp = (d, none) := by
  rw [updateProperty_single hnext, PropDef.decode_of_rejects h]
  dsimp only
  rw [setBit_self]

/-- Where every entry can take its value, the frame is no error. -/
theorem updateProperty_isSome (hnd : (d.chain a).Nodup)
    (hread : ∀ x ∈ d.chain a, (d.mem x).unreadable canV64 = false) (timestamp : Timeval) :
    (d.updateProperty canV64 a timestamp).2.isSome = true := by
  cases hnext : (d.mem a).next with
  | none =>
    have hne : ((d.mem a).decode (d.mem a).curValue ((d.mem a).raw canV64)).1 ≠ .error := by
      rw [Ne, PropDef.decode_fst_eq_error_iff]
      have hself := hread a (self_mem_chain d a)
      exact fun h => Bool.false_ne_true (hself.symm.trans h)
    rw [updateProperty_single hnext]
    cases hdec : (d.mem a).decode (d.mem a).curValue ((d.mem a).raw canV64) with
    | mk st c =>
      rw [hdec] at hne
      cases st with
      | error => exact absurd rfl hne
      | updated => rfl
      | noUpdated =>
        dsimp only
        split_ifs <;> rfl
  | some y =>
    have hsome : (d.mem a).next.isSome = true := by
      rw [hnext]
      rfl
    obtain ⟨-, -, -, -, -, -, h⟩ := updateProperty_chain_spec hsome hnd hread timestamp
    exact h

/-- Giving values changes nothing but values. -/
theorem storeAll_mem (f : PropDef → DataContent) (l : List Addr) (d : Dict) (x : Addr) :
    (storeAll f l d).mem x = { d.mem x with curValue := ((storeAll f l d).mem x).curValue } := by
  unfold storeAll
  dsimp only
  split_ifs <;> rfl

/-- Data with the same entries are the same after a change of values. -/
theorem Touches.eq_of_mem_eq {l : List Addr} {d' : Dict} (h : Touches l d d')
    (hmem : d'.mem = d.mem) : d' = d := by
  have hrest := h.rest
  rwa [← hmem] at hrest

/-- **Where an entry refuses its value, the chain is left as it was** exactly if
it was undisturbed. -/
theorem updateProperty_unreadable_iff (hnext : (d.mem a).next.isSome = true)
    (hnd : (d.chain a).Nodup) {pre post : List Addr} {m : Addr}
    (hchain : d.chain a = pre ++ m :: post)
    (hread : ∀ x ∈ pre, (d.mem x).unreadable canV64 = false)
    (hm : (d.mem m).unreadable canV64 = true) (timestamp : Timeval) :
    (∀ x ∈ d.chain a,
        ((d.updateProperty canV64 a timestamp).1.mem x).curValue = (d.mem x).curValue)
      ↔ (∀ x ∈ pre, (d.mem x).curValue = (d.mem x).content ((d.mem x).raw canV64))
        ∧ ∀ x ∈ m :: post, (d.mem x).curValue = DataContent.zero := by
  rw [updateProperty_of_unreadable hnext hnd hchain hread hm]
  dsimp only
  have hpre : ∀ x ∈ pre, ((storeAll (fun p => (p.decoded canV64).2) pre
      (storeAll (fun _ => DataContent.zero) (d.chain a) d)).mem x).curValue
      = (d.mem x).content ((d.mem x).raw canV64) := fun x hx => by
    rw [storeAll_mem_of_mem hx, storeAll_toPropDef]
    exact congrArg Prod.snd (PropDef.decode_zero (hread x hx))
  have hpost : ∀ x ∈ m :: post, ((storeAll (fun p => (p.decoded canV64).2) pre
      (storeAll (fun _ => DataContent.zero) (d.chain a) d)).mem x).curValue
      = DataContent.zero := fun x hx => by
    have hnot : x ∉ pre := fun hx' =>
      (List.nodup_append.mp (hchain ▸ hnd)).2.2 x hx' x hx rfl
    rw [show (storeAll (fun p => (p.decoded canV64).2) pre
      (storeAll (fun _ => DataContent.zero) (d.chain a) d)).mem x
      = (storeAll (fun _ => DataContent.zero) (d.chain a) d).mem x from if_neg hnot,
      storeAll_mem_of_mem (hchain ▸ List.mem_append_right pre hx)]
  constructor
  · intro h
    exact ⟨fun x hx => (h x (hchain ▸ List.mem_append_left _ hx)).symm.trans (hpre x hx),
      fun x hx => (h x (hchain ▸ List.mem_append_right pre hx)).symm.trans (hpost x hx)⟩
  · rintro ⟨h, h'⟩ x hx
    rcases List.mem_append.mp (hchain ▸ hx) with hx | hx
    · exact (hpre x hx).trans (h x hx).symm
    · exact (hpost x hx).trans (h' x hx).symm

/-- A chain is undisturbed if it is so at its first entry that refuses its
value. -/
theorem undisturbed_of_split (hnext : (d.mem a).next.isSome = true) (hnd : (d.chain a).Nodup)
    {pre post : List Addr} {m : Addr} (hchain : d.chain a = pre ++ m :: post)
    (hread : ∀ x ∈ pre, (d.mem x).unreadable canV64 = false)
    (hm : (d.mem m).unreadable canV64 = true)
    (hpre : ∀ x ∈ pre, (d.mem x).curValue = (d.mem x).content ((d.mem x).raw canV64))
    (hpost : ∀ x ∈ m :: post, (d.mem x).curValue = DataContent.zero) :
    d.Undisturbed canV64 a :=
  Or.inr (fun _ _ _ hchain' hread' hm' =>
    (updateProperty_unreadable_iff hnext hnd hchain' hread' hm' ⟨0, 0⟩).mp
      ((updateProperty_unreadable_iff hnext hnd hchain hread hm ⟨0, 0⟩).mpr ⟨hpre, hpost⟩))

/-- **An undisturbed chain is left as it was**, with everything else. -/
theorem Undisturbed.updateProperty_eq (h : d.Undisturbed canV64 a) (hnd : (d.chain a).Nodup)
    {timestamp : Timeval} (herr : (d.updateProperty canV64 a timestamp).2 = none) :
    (d.updateProperty canV64 a timestamp).1 = d := by
  have hun : ∃ x ∈ d.chain a, (d.mem x).unreadable canV64 = true := by
    by_contra hno
    have hsome := updateProperty_isSome hnd
      (fun x hx => Bool.eq_false_iff.mpr (fun hx' => hno ⟨x, hx, hx'⟩)) timestamp
    rw [herr] at hsome
    cases hsome
  cases hnext : (d.mem a).next with
  | none =>
    obtain ⟨x, hx, hun⟩ := hun
    rw [chain_of_next_none hnext, List.mem_singleton] at hx
    rw [updateProperty_single_of_unreadable hnext (hx ▸ hun)]
  | some y =>
    have hsome : (d.mem a).next.isSome = true := by
      rw [hnext]
      rfl
    obtain ⟨pre, m, post, hchain, hread, hm⟩ := exists_first_unreadable hun
    have hholds := (h.resolve_left (by rw [hnext]; simp)) pre m post hchain hread hm
    have hval := (updateProperty_unreadable_iff hsome hnd hchain hread hm timestamp).mpr hholds
    have htouch := d.touches_updateProperty canV64 a timestamp
    refine htouch.eq_of_mem_eq (funext (fun x => ?_))
    by_cases hx : x ∈ d.chain a
    · have hcur := hval x hx
      rw [updateProperty_of_unreadable hsome hnd hchain hread hm] at hcur ⊢
      dsimp only at hcur ⊢
      rw [storeAll_mem, storeAll_mem (fun _ => DataContent.zero), hcur]
    · exact htouch.same x hx

end Dict

namespace Binder

/-- An error tells nobody. -/
theorem updateIviproperty_of_error {b : Binder} {canV64 : BitVec 64} {a : Addr}
    {timestamp : Timeval} (h : (b.updateIviproperty canV64 a timestamp).2.2 = 1) :
    (b.toDict.updateProperty canV64 a timestamp).2 = none
      ∧ (b.updateIviproperty canV64 a timestamp).1 = b.decodedInto canV64 a timestamp
      ∧ (b.updateIviproperty canV64 a timestamp).2.1 = [] := by
  rw [updateIviproperty_result] at h
  have hnone : (b.toDict.updateProperty canV64 a timestamp).2 = none := by
    cases hr : (b.toDict.updateProperty canV64 a timestamp).2 with
    | none => rfl
    | some n =>
      rw [hr] at h
      cases h
  refine ⟨hnone, updateIviproperty_of_not_notifies ?_⟩
  unfold Dict.notifies
  rw [hnone]
  rfl

/-- **A frame that is an error is without effect** exactly where the chain was
undisturbed. -/
theorem error_atomic_iff {jobj : Json} {d : Dict} (hload : canDefineInit jobj = some d)
    {b : Binder} (hb : d.SameLayout b.toDict) {a : Addr} (ha : a ∈ d.propertyRoot)
    (canV64 : BitVec 64) (timestamp : Timeval) :
    b.ErrorAtomic canV64 a timestamp ↔ b.Undisturbed canV64 a := by
  obtain ⟨cs, -, hconf⟩ := Dict.configured_of_canDefineInit hload
  have hnd := (hb.wf hconf.sound.wf).nodup_chain (hb.propertyRoot ▸ ha)
  have hmem : (b.updateIviproperty canV64 a timestamp).1.mem
      = (b.toDict.updateProperty canV64 a timestamp).1.mem :=
    congrArg Dict.mem (b.updateIviproperty_toDict canV64 a timestamp)
  have hresult := b.updateIviproperty_result canV64 a timestamp
  constructor
  · intro h
    cases hnext : (b.mem a).next with
    | none => exact Or.inl hnext
    | some y =>
      have hsome : (b.mem a).next.isSome = true := by
        rw [hnext]
        rfl
      refine Or.inr (fun pre m post hchain hread hm => ?_)
      have heq := Dict.updateProperty_of_unreadable hsome hnd hchain hread hm timestamp
      rw [heq] at hresult
      refine (Dict.updateProperty_unreadable_iff hsome hnd hchain hread hm timestamp).mp
        (fun x hx => ?_)
      rw [← hmem]
      exact (h.entries hresult x hx).1
  · intro h
    refine ⟨fun herr x _ => ?_, fun herr => (updateIviproperty_of_error herr).2.2, fun herr => ?_⟩
    · rw [hmem, h.updateProperty_eq hnd (updateIviproperty_of_error herr).1]
      exact ⟨rfl, rfl, rfl⟩
    · show (b.updateIviproperty canV64 a timestamp).1.toDict.property2json a = _
      rw [updateIviproperty_toDict, h.updateProperty_eq hnd (updateIviproperty_of_error herr).1]

/-- A gear from one of two bytes, the second through a table. -/
def secondGearConfig : Json :=
  configFile [("100", configCanid "CAN_THINOUT_NON" 0
    [configData "gear" "int8_t" 1 0 8,
      .object [("PROPERTY", .string "gear"), ("TYPE", .string "int8_t"),
        ("SET-DATA", .array [.int 0, .int 5]), ("POS", .int 2), ("OFFS", .int 0),
        ("LEN", .int 8)]])] []

/-- The frame word with a one for the first entry and a byte for the second. -/
def secondGearWord (v : BitVec 8) : BitVec 64 :=
  canvalue2host (fun i => if i.val = 0 then 1#8 else if i.val = 1 then v else 0#8)

/-- A first frame with a value that is not in the table, and one that comes again
with a value for the first entry and none in the table for the second. -/
theorem error_atomic_iff_gear :
    (∃ d, canDefineInit gearConfig = some d
      ∧ (start d).ErrorAtomic (gearWord 7#8) (.slot 0x100#16 0) ⟨3, 0⟩
      ∧ ((start d).updateIviproperty (gearWord 7#8) (.slot 0x100#16 0) ⟨3, 0⟩).2.2 = 1)
    ∧ ∃ d b outs, canDefineInit secondGearConfig = some d
      ∧ run (start d) [.frame ⟨0x100#32, 8#8, host2canvalue (secondGearWord 7#8)⟩ ⟨3, 0⟩]
        = some (b, outs)
      ∧ (b.mem (.slot 0x100#16 0)).curValue.word = 1#32
      ∧ b.ErrorAtomic (secondGearWord 7#8) (.slot 0x100#16 0) ⟨4, 0⟩
      ∧ (b.updateIviproperty (secondGearWord 7#8) (.slot 0x100#16 0) ⟨4, 0⟩).2.2 = 1 := by
  constructor
  · have hload : (canDefineInit gearConfig).map (fun d =>
          ((d.propertyRoot, d.chain (.slot 0x100#16 0), (d.mem (.slot 0x100#16 0)).next.isSome),
            (d.mem (.slot 0x100#16 0)).unreadable (gearWord 7#8),
            (d.chain (.slot 0x100#16 0)).map (fun x => (d.mem x).curValue),
            ((start d).updateIviproperty (gearWord 7#8) (.slot 0x100#16 0) ⟨3, 0⟩).2.2))
        = some (([.slot 0x100#16 0], [.slot 0x100#16 0, .cell 0], true), true,
            [DataContent.zero, DataContent.zero], 1) := by
      decide
    obtain ⟨d, hd, hval⟩ := Option.map_eq_some_iff.mp hload
    simp only [Prod.mk.injEq] at hval
    obtain ⟨⟨hroot, hchain, hnext⟩, hun, hzero, herr⟩ := hval
    rw [hchain] at hzero
    simp only [List.map_cons, List.map_nil, List.cons.injEq, and_true] at hzero
    have hsplit : d.chain (.slot 0x100#16 0) = [] ++ [.slot 0x100#16 0, .cell 0] := hchain
    have hund : d.Undisturbed (gearWord 7#8) (.slot 0x100#16 0) :=
      Dict.undisturbed_of_split hnext (by rw [hchain]; decide) hsplit
        (fun _ hx => absurd hx List.not_mem_nil) hun (fun _ hx => absurd hx List.not_mem_nil)
        (List.forall_mem_cons.mpr ⟨hzero.1, List.forall_mem_singleton.mpr hzero.2⟩)
    exact ⟨d, hd, (error_atomic_iff hd (b := start d) (Dict.SameLayout.refl d)
      (by rw [hroot]; decide) _ _).mpr hund, herr⟩
  · have hload : (canDefineInit secondGearConfig).bind (fun d =>
        (run (start d) [.frame ⟨0x100#32, 8#8, host2canvalue (secondGearWord 7#8)⟩ ⟨3, 0⟩]).map
          (fun r => ((d.propertyRoot, r.1.chain (.slot 0x100#16 0),
              (r.1.mem (.slot 0x100#16 0)).next.isSome),
            (r.1.chain (.slot 0x100#16 0)).map (fun x =>
              ((r.1.mem x).unreadable (secondGearWord 7#8), (r.1.mem x).curValue)),
            (r.1.mem (.slot 0x100#16 0)).content
              ((r.1.mem (.slot 0x100#16 0)).raw (secondGearWord 7#8)),
            (r.1.updateIviproperty (secondGearWord 7#8) (.slot 0x100#16 0) ⟨4, 0⟩).2.2)))
        = some (([.slot 0x100#16 0], [.slot 0x100#16 0, .cell 0], true),
            [(false, { word := 1#32 }), (true, DataContent.zero)], { word := 1#32 }, 1) := by
      decide
    obtain ⟨d, hd, hload⟩ := Option.bind_eq_some_iff.mp hload
    obtain ⟨⟨b, outs⟩, hrun, hval⟩ := Option.map_eq_some_iff.mp hload
    simp only [Prod.mk.injEq] at hval
    obtain ⟨⟨hroot, hchain, hnext⟩, hentries, hnew, herr⟩ := hval
    rw [hchain] at hentries
    simp only [List.map_cons, List.map_nil, List.cons.injEq, Prod.mk.injEq, and_true] at hentries
    obtain ⟨⟨hread, hold⟩, hun, hzero⟩ := hentries
    have hsplit : b.chain (.slot 0x100#16 0) = [.slot 0x100#16 0] ++ [.cell 0] := hchain
    have hund : b.Undisturbed (secondGearWord 7#8) (.slot 0x100#16 0) :=
      Dict.undisturbed_of_split hnext (by rw [hchain]; decide) hsplit
        (List.forall_mem_singleton.mpr hread) hun
        (List.forall_mem_singleton.mpr (hold.trans hnew.symm)) (List.forall_mem_singleton.mpr hzero)
    exact ⟨d, b, outs, hd, hrun, congrArg DataContent.word hold,
      (error_atomic_iff hd (runRelation_sameLayout.run hrun)
        (by rw [hroot]; exact List.mem_singleton_self _) _ _).mpr hund, herr⟩

/-- After a frame that set the gear, one with a value that is not in the table
sets it to zero. -/
theorem not_error_atomic_gear :
    ∃ d b₁ outs, canDefineInit gearConfig = some d ∧ .slot 0x100#16 0 ∈ d.propertyRoot
      ∧ run (start d) [.frame ⟨0x100#32, 8#8, host2canvalue (gearWord 1#8)⟩ ⟨3, 0⟩]
        = some (b₁, outs)
      ∧ ¬b₁.ErrorAtomic (gearWord 7#8) (.slot 0x100#16 0) ⟨4, 0⟩ := by
  have hload : (canDefineInit gearConfig).bind (fun d =>
      (run (start d) [.frame ⟨0x100#32, 8#8, host2canvalue (gearWord 1#8)⟩ ⟨3, 0⟩]).map (fun r =>
        ((d.propertyRoot, decide (.slot 0x100#16 0 ∈ r.1.chain (.slot 0x100#16 0))),
          (r.1.updateIviproperty (gearWord 7#8) (.slot 0x100#16 0) ⟨4, 0⟩).2.2,
          (r.1.mem (.slot 0x100#16 0)).curValue.word,
          ((r.1.updateIviproperty (gearWord 7#8) (.slot 0x100#16 0) ⟨4, 0⟩).1.mem
            (.slot 0x100#16 0)).curValue.word)))
      = some (([.slot 0x100#16 0], true), 1, 5#32, 0#32) := by
    decide
  obtain ⟨d, hd, hload⟩ := Option.bind_eq_some_iff.mp hload
  obtain ⟨⟨b₁, outs⟩, hrun, hval⟩ := Option.map_eq_some_iff.mp hload
  simp only [Prod.mk.injEq] at hval
  obtain ⟨⟨hroot, hmem⟩, herr, hold, hnew⟩ := hval
  refine ⟨d, b₁, outs, hd, by rw [hroot]; decide, hrun, fun h => ?_⟩
  have hsame := (h.entries herr _ (of_decide_eq_true hmem)).1
  rw [hsame, hold] at hnew
  exact absurd hnew (by decide)

end Binder
