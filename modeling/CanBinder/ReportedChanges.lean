import CanBinder.Values

/-!
# Which changes are reported

A branch of the type switch compares the current value with the raw one, and
stores and reports where they differ. It reports the changes it makes, and only
those, if a value that was just stored compares as equal. Three branches
compare by another conversion than they store by, and there a value can differ
from itself for ever.
-/

/-- The two changes that are made silently: a string that becomes `NOTSET`, and
a substitution value with raw value zero. -/
def CanBit.Silent (p : CanBit) (v : BitVec 32) : Prop :=
  p.varType = .string ∧ p.meaning v = .text (some "NOTSET") ∨ p.varType = .enable1 ∧ v = 0#32

/-- **The result of storing a raw value tells whether it changed anything.** -/
structure CanBit.ReportsChange (p : CanBit) (v : BitVec 32) : Prop where
  only : (updatePropertyValue p v).1 = .updated →
    (updatePropertyValue p v).2.curValue ≠ p.curValue
  every : (updatePropertyValue p v).2.curValue ≠ p.curValue →
    (updatePropertyValue p v).1 = .updated ∨ p.Silent v
  second : (updatePropertyValue (updatePropertyValue p v).2 v).1 ≠ .updated

/-- **The value compares as it is stored**: it is refused, or its type compares
it by the conversion it stores it by, or the two conversions agree on it. -/
def CanBit.ComparesAsStored (p : CanBit) (v : BitVec 32) : Prop :=
  p.rejects v = true ∨
    match p.dataconv with
    | none => p.varType = .uint8 → v.toNat % 2 ^ 8 < 2 ^ 7
    | some conv =>
      (p.varType = .uint8 → (conv.intAt v.toNat).toNat % 2 ^ 8 < 2 ^ 7)
        ∧ (p.varType = .uint16 → (conv.intAt v.toNat).toNat % 2 ^ 16 < 2 ^ 15)
        ∧ (p.varType = .bool → conv.intAt v.toNat = 0#32 ∨ conv.intAt v.toNat = 1#32
          ∨ (p.curValue.val8.toNat : ℤ) = (conv.intAt v.toNat).toInt)

/-- A property that stores nothing reports nothing. -/
theorem CanBit.reportsChange_of_eq {p : CanBit} {v : BitVec 32} {s : UpdateStat}
    (hs : s ≠ .updated) (h : updatePropertyValue p v = (s, p)) : p.ReportsChange v := by
  refine ⟨fun hup => ?_, fun hne => ?_, fun hup => ?_⟩
  · rw [h] at hup
    exact absurd hup hs
  · rw [h] at hne
    exact absurd rfl hne
  · rw [h] at hup
    dsimp only at hup
    rw [h] at hup
    exact absurd hup hs

/-- **A branch reports its changes** exactly if what it stores compares as
equal. -/
theorem CanBit.reportsChange_iff_of_branch {p : CanBit} {v : BitVec 32}
    {differs : DataContent → Bool} {store : DataContent → DataContent} {reported : Bool}
    (hbranch : ∀ c, updatePropertyValue { p with curValue := c } v
      = CanBit.assign { p with curValue := c } (differs c) (store c) reported)
    (hreported : reported = false → p.Silent v) :
    p.ReportsChange v
      ↔ (reported = true → differs p.curValue = true → differs (store p.curValue) = false) := by
  have hfirst : updatePropertyValue p v
      = p.assign (differs p.curValue) (store p.curValue) reported := hbranch p.curValue
  cases hd : differs p.curValue with
  | false =>
    rw [hd] at hfirst
    have hstate : updatePropertyValue p v = (.noUpdated, p) := hfirst
    exact iff_of_true (CanBit.reportsChange_of_eq (by simp) hstate) (fun _ h => by cases h)
  | true =>
    rw [hd] at hfirst
    have hstate : updatePropertyValue p v
        = (if reported then .updated else .noUpdated, { p with curValue := store p.curValue }) :=
      hfirst
    -- the second time, the branch compares what it stored
    have hagain : (updatePropertyValue (updatePropertyValue p v).2 v).1
        = if differs (store p.curValue) then if reported then .updated else .noUpdated
          else .noUpdated := by
      rw [hstate]
      dsimp only
      rw [hbranch (store p.curValue)]
      cases differs (store p.curValue) <;> rfl
    cases reported with
    | false =>
      refine iff_of_true ⟨fun hup => ?_, fun hne => Or.inr (hreported rfl), fun hup => ?_⟩
        (fun h => by cases h)
      · rw [hstate] at hup
        cases hup
      · rw [hagain] at hup
        simp at hup
    | true =>
      constructor
      · intro h _ _
        have hsecond := h.second
        rw [hagain] at hsecond
        cases hstored : differs (store p.curValue) with
        | false => rfl
        | true =>
          rw [hstored] at hsecond
          exact absurd rfl hsecond
      · intro h
        have hstored := h rfl rfl
        refine ⟨fun _ hsame => ?_, fun _ => Or.inl ?_, fun hup => ?_⟩
        · rw [hstate] at hsame
          rw [show store p.curValue = p.curValue from hsame, hd] at hstored
          cases hstored
        · rw [hstate]
          rfl
        · rw [hagain, hstored] at hup
          cases hup

/-- A byte is one number signed and unsigned if its highest bit is not set. -/
theorem BitVec.toNat_eq_toInt_iff {w : ℕ} (x : BitVec (w + 1)) :
    (x.toNat : ℤ) = x.toInt ↔ x.toNat < 2 ^ w := by
  have hx := x.isLt
  have hpos := Nat.two_pow_pos w
  rw [BitVec.toInt_eq_toNat_cond]
  rw [Nat.pow_succ] at hx ⊢
  generalize 2 ^ w = y at hx hpos ⊢
  split_ifs with h
  · exact iff_of_true rfl (by omega)
  · exact iff_of_false (by omega) (by omega)

/-- The byte a truth value is stored as is the number itself for zero and one. -/
theorem BitVec.toNat_truth_eq_toInt_iff (x : BitVec 32) :
    ((if x = 0#32 then 0#8 else 1#8 : BitVec 8).toNat : ℤ) = x.toInt ↔ x = 0#32 ∨ x = 1#32 := by
  have hone : x.toInt = 1 ↔ x = 1#32 := by
    rw [← BitVec.toInt_inj]
    rfl
  by_cases hz : x = 0#32
  · simp [hz]
  · simp [hz, hone, eq_comm (a := (1 : ℤ))]

/-- **A branch that compares and stores by one conversion** reports its
changes. -/
theorem CanBit.reportsChange_of_branch {p : CanBit} {v : BitVec 32} {α : Type} [DecidableEq α]
    {g : DataContent → α} {f : DataContent → DataContent} {x : α} {r : Bool}
    (hbranch : ∀ c, updatePropertyValue { p with curValue := c } v
      = CanBit.assign { p with curValue := c } (g c ≠ x) (f c) r)
    (hreported : r = false → p.Silent v) (hget : ∀ c, g (f c) = x) :
    p.ReportsChange v :=
  (CanBit.reportsChange_iff_of_branch hbranch hreported).mpr
    (fun _ _ => decide_eq_false (not_not.mpr (hget _)))

/-- **A branch that compares by another conversion** reports its changes
exactly where the value it stores is found again. -/
theorem CanBit.reportsChange_iff_of_mixed {p : CanBit} {v : BitVec 32} {w : ℕ}
    {g : DataContent → BitVec w} {f : DataContent → DataContent} {x : BitVec w} {y : ℤ}
    (hbranch : ∀ c, updatePropertyValue { p with curValue := c } v
      = CanBit.assign { p with curValue := c } (((g c).toNat : ℤ) ≠ y) (f c) true)
    (hget : ∀ c, g (f c) = x) :
    p.ReportsChange v ↔ (((g p.curValue).toNat : ℤ) ≠ y → (x.toNat : ℤ) = y) := by
  rw [CanBit.reportsChange_iff_of_branch hbranch (fun h => by cases h)]
  simp [hget]

/-- A branch that compares a stored number with itself as a signed one reports
its changes exactly where the number is below half of its range. -/
theorem CanBit.reportsChange_iff_of_signed {p : CanBit} {v : BitVec 32} {w : ℕ}
    {g : DataContent → BitVec (w + 1)} {f : DataContent → DataContent} {x : BitVec (w + 1)}
    (hbranch : ∀ c, updatePropertyValue { p with curValue := c } v
      = CanBit.assign { p with curValue := c } (((g c).toNat : ℤ) ≠ x.toInt) (f c) true)
    (hget : ∀ c, g (f c) = x) : p.ReportsChange v ↔ x.toNat < 2 ^ w := by
  rw [CanBit.reportsChange_iff_of_mixed hbranch hget, ← BitVec.toNat_eq_toInt_iff]
  refine ⟨fun h => ?_, fun h _ => h⟩
  by_cases hold : ((g p.curValue).toNat : ℤ) = x.toInt
  · have hx := BitVec.eq_of_toNat_eq_toInt hold
    rwa [hx] at hold
  · exact h hold

namespace CanBit

variable {p : CanBit}

/-- Without a table, only `uint8_t` compares by another conversion. -/
theorem reportsChange_iff_of_none (hconv : p.dataconv = none) (v : BitVec 32) :
    p.ReportsChange v ↔ p.ComparesAsStored v := by
  have hcond : p.ComparesAsStored v
      ↔ p.rejects v = true ∨ (p.varType = .uint8 → v.toNat % 2 ^ 8 < 2 ^ 7) := by
    unfold ComparesAsStored
    rw [hconv]
  have hplain : p.varType ≠ .uint8 → p.ReportsChange v →
      (p.ReportsChange v ↔ p.ComparesAsStored v) := fun hne h =>
    iff_of_true h (hcond.mpr (Or.inr (fun heq => absurd heq hne)))
  cases ht : p.varType with
  | uint8 =>
    have hrej : p.rejects v = false := by
      unfold PropDef.rejects
      rw [hconv, ht]
      rfl
    have hbyte : (v.setWidth 8).toNat = v.toNat % 2 ^ 8 := BitVec.toNat_setWidth 8 v
    have hbranch : ∀ c, updatePropertyValue { p with curValue := c } v
        = assign { p with curValue := c } ((c.val8.toNat : ℤ) ≠ (v.setWidth 8).toInt)
          (c.setVal8 (v.setWidth 8)) true := fun c => by
      simp [updatePropertyValue, ht, hconv]
    rw [reportsChange_iff_of_signed hbranch (fun c => DataContent.val8_setVal8 c _), hcond, hrej,
      hbyte, ht]
    simp
  | int8 =>
    refine hplain (by simp [ht]) (reportsChange_of_branch (x := v.setWidth 8) (r := true)
      (fun c => ?_) (fun h => by cases h) (fun c => DataContent.val8_setVal8 c _))
    simp [updatePropertyValue, ht, hconv]
  | int16 | uint16 =>
    refine hplain (by simp [ht]) (reportsChange_of_branch (x := v.setWidth 16) (r := true)
      (fun c => ?_) (fun h => by cases h) (fun c => DataContent.val16_setVal16 c _))
    simp [updatePropertyValue, ht, hconv]
  | void | int | int32 | uint | uint32 =>
    refine hplain (by simp [ht]) (reportsChange_of_branch (x := v) (r := true)
      (fun c => ?_) (fun h => by cases h) (fun c => DataContent.word_setVal32 c _))
    simp [updatePropertyValue, ht, hconv]
  | bool =>
    refine hplain (by simp [ht]) (reportsChange_of_branch (x := if v = 0#32 then 0#8 else 1#8)
      (r := true) (fun c => ?_) (fun h => by cases h) (fun c => DataContent.val8_setVal8 c _))
    simp [updatePropertyValue, ht, hconv]
  | string | enable1 | array | uint64 | int64 =>
    refine hplain (by simp [ht]) (reportsChange_of_eq (s := (updatePropertyValue p v).1) ?_ ?_)
    · simp [updatePropertyValue, ht, hconv]
    · simp [updatePropertyValue, ht, hconv]

/-- With a table, `uint8_t`, `uint16_t` and `bool` compare by another
conversion. -/
theorem reportsChange_iff_of_some {conv : ConvTable} (hconv : p.dataconv = some conv)
    (v : BitVec 32) : p.ReportsChange v ↔ p.ComparesAsStored v := by
  have hcond : p.ComparesAsStored v ↔ p.rejects v = true
      ∨ (p.varType = .uint8 → (conv.intAt v.toNat).toNat % 2 ^ 8 < 2 ^ 7)
        ∧ (p.varType = .uint16 → (conv.intAt v.toNat).toNat % 2 ^ 16 < 2 ^ 15)
        ∧ (p.varType = .bool → conv.intAt v.toNat = 0#32 ∨ conv.intAt v.toNat = 1#32
          ∨ (p.curValue.val8.toNat : ℤ) = (conv.intAt v.toNat).toInt) := by
    unfold ComparesAsStored
    rw [hconv]
  rw [hcond]
  by_cases hn : p.nconv ≤ v.toNat
  · have hrej : p.rejects v = true := by simp [PropDef.rejects, hconv, hn]
    refine iff_of_true (reportsChange_of_eq (s := .error) (by simp) ?_) (Or.inl hrej)
    simp [updatePropertyValue, hconv, hn]
  · have hrej : p.rejects v = false := by simp [PropDef.rejects, hconv, hn]
    rw [hrej]
    generalize hx : conv.intAt v.toNat = x
    have hbyte : (x.setWidth 8).toNat = x.toNat % 2 ^ 8 := BitVec.toNat_setWidth 8 x
    have hhalf : (x.setWidth 16).toNat = x.toNat % 2 ^ 16 := BitVec.toNat_setWidth 16 x
    cases ht : p.varType with
    | uint8 =>
      have hbranch : ∀ c, updatePropertyValue { p with curValue := c } v
          = assign { p with curValue := c } ((c.val8.toNat : ℤ) ≠ (x.setWidth 8).toInt)
            (c.setVal8 (x.setWidth 8)) true := fun c => by
        simp [updatePropertyValue, ht, hconv, hn, hx]
      rw [reportsChange_iff_of_signed hbranch (fun c => DataContent.val8_setVal8 c _), hbyte]
      simp
    | uint16 =>
      have hbranch : ∀ c, updatePropertyValue { p with curValue := c } v
          = assign { p with curValue := c } ((c.val16.toNat : ℤ) ≠ (x.setWidth 16).toInt)
            (c.setVal16 (x.setWidth 16)) true := fun c => by
        simp [updatePropertyValue, ht, hconv, hn, hx]
      rw [reportsChange_iff_of_signed hbranch (fun c => DataContent.val16_setVal16 c _), hhalf]
      simp
    | bool =>
      have hbranch : ∀ c, updatePropertyValue { p with curValue := c } v
          = assign { p with curValue := c } ((c.val8.toNat : ℤ) ≠ x.toInt)
            (c.setVal8 (if x = 0#32 then 0#8 else 1#8)) true := fun c => by
        simp [updatePropertyValue, ht, hconv, hn, hx]
      rw [reportsChange_iff_of_mixed hbranch (fun c => DataContent.val8_setVal8 c _)]
      -- the byte stored is zero or one, and so must the entry be
      rw [BitVec.toNat_truth_eq_toInt_iff]
      by_cases hold : (p.curValue.val8.toNat : ℤ) = x.toInt
      · simp [hold]
      · simp [hold]
    | int8 =>
      refine iff_of_true (reportsChange_of_branch (x := x.setWidth 8) (r := true)
        (fun c => ?_) (fun h => by cases h) (fun c => DataContent.val8_setVal8 c _)) (by simp)
      simp [updatePropertyValue, ht, hconv, hn, hx]
    | int16 =>
      refine iff_of_true (reportsChange_of_branch (x := x.setWidth 16) (r := true)
        (fun c => ?_) (fun h => by cases h) (fun c => DataContent.val16_setVal16 c _)) (by simp)
      simp [updatePropertyValue, ht, hconv, hn, hx]
    | void | int | int32 | uint | uint32 =>
      refine iff_of_true (reportsChange_of_branch (x := x) (r := true)
        (fun c => ?_) (fun h => by cases h) (fun c => DataContent.word_setVal32 c _)) (by simp)
      simp [updatePropertyValue, ht, hconv, hn, hx]
    | enable1 =>
      refine iff_of_true (reportsChange_of_branch (x := x) (r := v ≠ 0#32)
        (fun c => ?_) (fun h => Or.inr ⟨ht, by simpa using h⟩)
        (fun c => DataContent.word_setVal32 c _)) (by simp)
      simp [updatePropertyValue, ht, hconv, hn, hx]
    | string =>
      have hmeaning : p.meaning v = .text (some (conv.stringAt v.toNat).text) := by
        simp [PropDef.meaning, hconv, ht]
      refine iff_of_true (reportsChange_of_branch (g := DataContent.string)
        (x := some (conv.stringAt v.toNat)) (r := (conv.stringAt v.toNat).text ≠ "NOTSET")
        (f := fun c => { c with string := some (conv.stringAt v.toNat) })
        (fun c => ?_) (fun h => Or.inl ⟨ht, ?_⟩) (fun _ => rfl)) (by simp)
      · simp [updatePropertyValue, ht, hconv, hn]
      · rw [hmeaning, of_not_not (of_decide_eq_false h)]
    | array | uint64 | int64 =>
      refine iff_of_true (reportsChange_of_eq (s := .noUpdated) (by simp) ?_) (by simp)
      simp [updatePropertyValue, ht, hconv, hn]

/-- **Changes are reported** exactly where a value compares as it is stored. -/
theorem reportsChange_iff (p : CanBit) (v : BitVec 32) :
    p.ReportsChange v ↔ p.ComparesAsStored v := by
  cases hconv : p.dataconv with
  | none => exact reportsChange_iff_of_none hconv v
  | some conv => exact reportsChange_iff_of_some hconv v

end CanBit

/-- A property of one byte. -/
def throttle : CanBit where
  name := "throttle"
  propertyKind := .readonly
  bytePos := 1#8
  bitPos := 0#8
  bitLen := 8#8
  varType := .uint8
  dataconv := none
  nconv := 0
  mycanid := 0x100#16

/-- A byte with its highest bit set is reported as changed each time. -/
theorem not_reportsChange_throttle : ¬throttle.ReportsChange 200#32 :=
  fun h => h.second (by decide)
