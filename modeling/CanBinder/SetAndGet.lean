import CanBinder.Configuration
import CanBinder.Values

/-!
# What was set and what was sent

`property2canframe` stores the value it is given into the property and its low
bits into the frame. The two agree where the bits that are cut off have no part
in the value: a receiver of the frame then decodes what the property holds.
-/

/-- The width of the number a type stores, zero for the types that store
none. -/
def VarType.width : VarType → ℕ
  | .int8 | .uint8 => 8
  | .int16 | .uint16 => 16
  | .void | .int | .int32 | .uint | .uint32 | .enable1 => 32
  | .bool | .string | .array | .uint64 | .int64 => 0

/-- **Two words are one number in a type** if they agree on the bits it
stores. -/
theorem VarType.cast_eq_cast_iff {t : VarType} (ht : t ≠ .bool) (x y : BitVec 32) :
    t.cast x = t.cast y ↔ x.toNat % 2 ^ t.width = y.toNat % 2 ^ t.width := by
  have hw : ∀ w, (x.setWidth w).toNat = x.toNat % 2 ^ w ∧ (y.setWidth w).toNat = y.toNat % 2 ^ w :=
    fun w => ⟨BitVec.toNat_setWidth w x, BitVec.toNat_setWidth w y⟩
  have hx := Nat.mod_eq_of_lt x.isLt
  have hy := Nat.mod_eq_of_lt y.isLt
  cases t with
  | bool => exact absurd rfl ht
  | _ => simp only [VarType.cast, VarType.width, Value.int.injEq, Int.natCast_inj, BitVec.toInt_inj,
      ← BitVec.toNat_inj, (hw _).1, (hw _).2, hx, hy, pow_zero, Nat.mod_one]

/-- Words are one truth value if both or neither are zero. -/
theorem VarType.cast_bool_eq_iff (x y : BitVec 32) :
    VarType.bool.cast x = VarType.bool.cast y ↔ (x = 0#32 ↔ y = 0#32) := by
  by_cases hx : x = 0#32 <;> by_cases hy : y = 0#32 <;> simp [VarType.cast, hx, hy]

/-- **Cutting a number to a field keeps its low bits** exactly if they fit. -/
theorem Nat.mod_mod_two_pow_eq_iff (a n k : ℕ) :
    a % 2 ^ n % 2 ^ k = a % 2 ^ k ↔ a % 2 ^ k < 2 ^ n := by
  rcases Nat.le_total k n with h | h
  · have hdvd : 2 ^ k ∣ 2 ^ n := Nat.pow_dvd_pow 2 h
    rw [Nat.mod_mod_of_dvd a hdvd]
    exact iff_of_true rfl ((Nat.mod_lt a (Nat.two_pow_pos k)).trans_le
      (Nat.pow_le_pow_right (by decide) h))
  · have hdvd : 2 ^ n ∣ 2 ^ k := Nat.pow_dvd_pow 2 h
    have hlt : a % 2 ^ n < 2 ^ k := (Nat.mod_lt a (Nat.two_pow_pos n)).trans_le
      (Nat.pow_le_pow_right (by decide) h)
    rw [Nat.mod_eq_of_lt hlt, ← Nat.mod_mod_of_dvd a hdvd]
    constructor
    · intro heq
      rw [← heq]
      exact Nat.mod_lt _ (Nat.two_pow_pos n)
    · exact Nat.mod_eq_of_lt

/-- **After a set, the frame has the value of the property**: any property of
the same definition that decodes it comes to hold what the property holds. -/
def CanBit.SetReadsBack (p : CanBit) (data : Payload) (v : BitVec 32) : Prop :=
  (property2canframe p data v).1 ≠ .error → ∀ q : CanBit, q.toPropDef = p.toPropDef →
    (canframe2property (canvalue2host (property2canframe p data v).2.2) q).2.value
      = (property2canframe p data v).2.1.value

/-- **The value fits the field as far as the type sees it**: it is refused, or
what the type stores of it is below the end of the field; and with a table, the
entry of the value and the entry of its low bits are one value. -/
def PropDef.FitsField (p : PropDef) (v : BitVec 32) : Prop :=
  let low := v.toNat % 2 ^ p.bitLen.toNat
  p.rejects v = true ∨
    match p.dataconv with
    | none =>
      if p.varType = .bool then v.toNat = 0 ∨ low ≠ 0
      else v.toNat % 2 ^ p.varType.width < 2 ^ p.bitLen.toNat
    | some conv =>
      if p.varType = .string then (conv.stringAt v.toNat).text = (conv.stringAt low).text
      else if p.varType = .bool then conv.intAt v.toNat = 0#32 ↔ conv.intAt low = 0#32
      else (conv.intAt v.toNat).toNat % 2 ^ p.varType.width
        = (conv.intAt low).toNat % 2 ^ p.varType.width

/-- The low bits of a value, as the frame has them. -/
theorem toNat_and_canMask64 (p : PropDef) (v : BitVec 32) :
    ((v.setWidth 64 &&& p.canMask64).setWidth 32).toNat = v.toNat % 2 ^ p.bitLen.toNat := by
  have hmask : p.canMask64 = BitField.lowMask 64 p.bitLen.toNat := rfl
  have hv := v.isLt
  have hle := Nat.mod_le v.toNat (2 ^ p.bitLen.toNat)
  have hv64 : v.toNat % 2 ^ 64 = v.toNat := Nat.mod_eq_of_lt (by omega)
  rw [hmask, BitVec.toNat_setWidth, BitField.toNat_and_lowMask, BitVec.toNat_setWidth, hv64,
    Nat.mod_eq_of_lt (by omega)]

/-- **The meaning of a value is that of its low bits** exactly if it fits. -/
theorem PropDef.fitsField_iff {p : PropDef} {v w : BitVec 32} (hv : p.rejects v = false)
    (hw : w.toNat = v.toNat % 2 ^ p.bitLen.toNat) :
    p.FitsField v ↔ p.meaning w = p.meaning v := by
  have hzero : ∀ x : BitVec 32, x = 0#32 ↔ x.toNat = 0 := fun x => by
    rw [← BitVec.toNat_inj]
    rfl
  unfold FitsField meaning
  rw [hv]
  simp only [Bool.false_eq_true, false_or]
  cases p.dataconv with
  | none =>
    dsimp only
    by_cases ht : p.varType = .bool
    · rw [if_pos ht, ht, VarType.cast_bool_eq_iff, hzero, hzero, hw]
      by_cases hz : v.toNat = 0
      · simp [hz]
      · simp [hz]
    · rw [if_neg ht, VarType.cast_eq_cast_iff ht, hw, Nat.mod_mod_two_pow_eq_iff]
  | some conv =>
    dsimp only
    by_cases hs : p.varType = .string
    · rw [if_pos hs, if_pos hs, if_pos hs, hw]
      simp [eq_comm]
    · rw [if_neg hs, if_neg hs, if_neg hs, hw]
      by_cases ht : p.varType = .bool
      · rw [if_pos ht, ht, VarType.cast_bool_eq_iff]
        exact iff_comm
      · rw [if_neg ht, VarType.cast_eq_cast_iff ht]
        exact eq_comm

/-- Low bits are taken where the value is. -/
theorem PropDef.rejects_of_le {p : PropDef} {v w : BitVec 32} (hv : p.rejects v = false)
    (hw : w.toNat ≤ v.toNat) : p.rejects w = false := by
  unfold rejects at hv ⊢
  cases hconv : p.dataconv with
  | none =>
    rw [hconv] at hv
    exact hv
  | some conv =>
    rw [hconv] at hv
    have hn : ¬p.nconv ≤ v.toNat := of_decide_eq_false hv
    exact decide_eq_false (fun hle => hn (hle.trans hw))

/-- **What was set is what was sent** exactly where the value fits the field as
far as the type sees it. -/
theorem set_reads_back_iff {p : CanBit} (h : p.WellFormed) (data : Payload) (v : BitVec 32) :
    p.SetReadsBack data v ↔ p.FitsField v := by
  unfold CanBit.SetReadsBack
  cases hv : p.rejects v with
  | true =>
    have hfits : p.FitsField v := Or.inl hv
    rw [property2canframe_of_rejects hv]
    exact iff_of_true (fun hne => absurd rfl hne) hfits
  | false =>
    have hne : (property2canframe p data v).1 ≠ .error := by
      rw [Ne, property2canframe_fst_eq_error_iff, hv]
      exact Bool.false_ne_true
    -- the field of the written frame is the low bits of the value
    have hlow : ∀ q : CanBit, q.toPropDef = p.toPropDef →
        q.raw (canvalue2host (property2canframe p data v).2.2)
          = (v.setWidth 64 &&& p.canMask64).setWidth 32 := fun q hq => by
      rw [hq, PropDef.raw, h.field_eq_get, property2canframe_of_not_rejects h data hv]
      dsimp only
      rw [canvalue2host_host2canvalue, BitField.get_put_self]
      rfl
    have hw := toNat_and_canMask64 p.toPropDef v
    have hrej := PropDef.rejects_of_le hv (hw.trans_le (Nat.mod_le _ _))
    have hread : ∀ q : CanBit, q.toPropDef = p.toPropDef →
        (canframe2property (canvalue2host (property2canframe p data v).2.2) q).2.value
          = p.meaning ((v.setWidth 64 &&& p.canMask64).setWidth 32) := fun q hq => by
      show (updatePropertyValue q (q.raw _)).2.value = _
      rw [hlow q hq, value_updatePropertyValue (hq ▸ hrej), hq]
    have hheld : (property2canframe p data v).2.1.value = p.meaning v := by
      rw [property2canframe_of_not_rejects h data hv]
      exact PropDef.valueOf_decode p.curValue hv
    rw [PropDef.fitsField_iff hv hw, hheld]
    exact ⟨fun hall => (hread p rfl).symm.trans (hall hne p rfl),
      fun heq _ q hq => (hread q hq).trans heq⟩

/-- A switch to send, in one bit. -/
def lamp : CanBit where
  name := "lamp"
  propertyKind := .send
  bytePos := 1#8
  bitPos := 0#8
  bitLen := 1#8
  varType := .bool
  dataconv := none
  nconv := 0
  mycanid := 0x200#16

theorem lamp_wellFormed : lamp.WellFormed := ⟨by decide, by decide, by decide, by decide, by decide⟩

theorem set_reads_back_iff_lamp : lamp.SetReadsBack (fun _ => 0#8) 1#32 ∧ lamp.FitsField 1#32 := by
  have hfits : lamp.FitsField 1#32 := Or.inr (Or.inr (by decide))
  exact ⟨(set_reads_back_iff lamp_wellFormed _ _).mpr hfits, hfits⟩

/-- The lamp is on for `get` after it was set to two, and off in the frame. -/
theorem not_set_reads_back_lamp : ¬lamp.SetReadsBack (fun _ => 0#8) 2#32 := by
  intro h
  have hne : (property2canframe lamp (fun _ => 0#8) 2#32).1 ≠ .error := by decide
  exact absurd (h hne lamp rfl) (by decide)
