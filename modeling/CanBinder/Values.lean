import CanBinder.Decoding

/-!
# Values and what raw values mean

A property holds a union of which its type reads one member (`PropDef.valueOf`).
What the type makes of a raw value is the entry of the conversion table the raw
value selects, or the raw value itself, cast to the type (`PropDef.meaning`).
Storing a raw value that is taken makes the property hold its meaning, whatever
it held before (`PropDef.valueOf_decode`).
-/

/-- **A value, as its type reads it.** -/
inductive Value
  | int (i : ℤ)
  | truth (b : Bool)
  | text (s : Option String)
  /-- The value of a type the decoder stores nothing for. -/
  | nothing
deriving DecidableEq

/-- The member of the union a type reads. -/
def PropDef.valueOf (p : PropDef) (c : DataContent) : Value :=
  match p.varType with
  | .int8 => .int c.val8.toInt
  | .int16 => .int c.val16.toInt
  | .void | .int | .int32 | .enable1 => .int c.word.toInt
  | .uint8 => .int c.val8.toNat
  | .uint16 => .int c.val16.toNat
  | .uint | .uint32 => .int c.word.toNat
  | .bool => .truth (c.val8 ≠ 0#8)
  | .string => .text (c.string.map CharPtr.text)
  | .array | .uint64 | .int64 => .nothing

/-- **The value a property holds.** -/
def CanBit.value (p : CanBit) : Value := p.valueOf p.curValue

/-- A word cast to a type. -/
def VarType.cast (t : VarType) (x : BitVec 32) : Value :=
  match t with
  | .int8 => .int (x.setWidth 8).toInt
  | .int16 => .int (x.setWidth 16).toInt
  | .void | .int | .int32 | .enable1 => .int x.toInt
  | .uint8 => .int (x.setWidth 8).toNat
  | .uint16 => .int (x.setWidth 16).toNat
  | .uint | .uint32 => .int x.toNat
  | .bool => .truth (x ≠ 0#32)
  | .string | .array | .uint64 | .int64 => .nothing

/-- **What a raw value means** to a property: itself, or the entry of the table
it selects, cast to the type. -/
def PropDef.meaning (p : PropDef) (v : BitVec 32) : Value :=
  match p.dataconv with
  | none => p.varType.cast v
  | some conv =>
    if p.varType = .string then .text (some (conv.stringAt v.toNat).text)
    else p.varType.cast (conv.intAt v.toNat)

/-- Two words that are equal as an unsigned and a signed number are equal. -/
theorem BitVec.eq_of_toNat_eq_toInt {w : ℕ} {a b : BitVec w} (h : (a.toNat : ℤ) = b.toInt) :
    a = b := by
  refine BitVec.eq_of_toInt_eq ?_
  rw [BitVec.toInt_eq_toNat_bmod, h, BitVec.toInt_bmod_cancel]

/-- A branch of the type switch leaves a value if what it stores has it, and so
does what it finds equal. -/
theorem CanBit.value_assign {p : CanBit} {differs : Bool} {c : DataContent} {reported : Bool}
    {x : Value} (hvalue : p.valueOf c = x) (hsame : differs = false → p.value = x) :
    (p.assign differs c reported).2.value = x := by
  cases differs with
  | false => exact hsame rfl
  | true => exact hvalue

/-- A property without a table. -/
theorem value_updatePropertyValue_none {p : CanBit} (hconv : p.dataconv = none) {v : BitVec 32}
    (h : p.rejects v = false) : (updatePropertyValue p v).2.value = p.varType.cast v := by
  unfold PropDef.rejects at h
  rw [hconv] at h
  unfold updatePropertyValue
  simp only [hconv, Option.isSome_none, Bool.false_eq_true, false_and, if_false]
  cases ht : p.varType with
  | string => simp [ht] at h
  | enable1 => simp [ht] at h
  | array => simp [CanBit.value, PropDef.valueOf, VarType.cast, ht]
  | uint64 => simp [CanBit.value, PropDef.valueOf, VarType.cast, ht]
  | int64 => simp [CanBit.value, PropDef.valueOf, VarType.cast, ht]
  | bool =>
    refine CanBit.value_assign ?_ (fun hd => ?_)
    · by_cases hv : v = 0#32 <;> simp [PropDef.valueOf, VarType.cast, ht, hv]
    · have heq := of_not_not (of_decide_eq_false hd)
      by_cases hv : v = 0#32 <;>
        simp [CanBit.value, PropDef.valueOf, VarType.cast, ht, heq, hv]
  | uint8 =>
    refine CanBit.value_assign (by simp [PropDef.valueOf, VarType.cast, ht]) (fun hd => ?_)
    have heq := BitVec.eq_of_toNat_eq_toInt (of_not_not (of_decide_eq_false hd))
    simp [CanBit.value, PropDef.valueOf, VarType.cast, ht, heq]
  | _ =>
    refine CanBit.value_assign (by simp [PropDef.valueOf, VarType.cast, ht]) (fun hd => ?_)
    have heq := of_not_not (of_decide_eq_false hd)
    simp [CanBit.value, PropDef.valueOf, VarType.cast, ht, heq]

/-- A property with a table. -/
theorem value_updatePropertyValue_some {p : CanBit} {conv : ConvTable}
    (hconv : p.dataconv = some conv) {v : BitVec 32} (h : p.rejects v = false) :
    (updatePropertyValue p v).2.value = p.meaning v := by
  unfold PropDef.rejects at h
  rw [hconv] at h
  have hn : ¬p.nconv ≤ v.toNat := of_decide_eq_false h
  unfold updatePropertyValue PropDef.meaning
  simp only [hconv, Option.isSome_some, true_and, if_neg hn]
  cases ht : p.varType with
  | array => simp [CanBit.value, PropDef.valueOf, VarType.cast, ht]
  | uint64 => simp [CanBit.value, PropDef.valueOf, VarType.cast, ht]
  | int64 => simp [CanBit.value, PropDef.valueOf, VarType.cast, ht]
  | string =>
    refine CanBit.value_assign (by simp [PropDef.valueOf, ht]) (fun hd => ?_)
    have heq := of_not_not (of_decide_eq_false hd)
    simp [CanBit.value, PropDef.valueOf, ht, heq]
  | bool =>
    refine CanBit.value_assign ?_ (fun hd => ?_)
    · by_cases hv : conv.intAt v.toNat = 0#32 <;> simp [PropDef.valueOf, VarType.cast, ht, hv]
    · -- the byte is compared with the entry itself, so both are zero or neither is
      have heq := of_not_not (of_decide_eq_false hd)
      have hzero : p.curValue.val8 = 0#8 ↔ conv.intAt v.toNat = 0#32 := by
        rw [← BitVec.toNat_inj, ← BitVec.toInt_inj, ← heq]
        simp
      simp [CanBit.value, PropDef.valueOf, VarType.cast, ht, hzero]
  | uint8 | uint16 =>
    refine CanBit.value_assign (by simp [PropDef.valueOf, VarType.cast, ht]) (fun hd => ?_)
    have heq := BitVec.eq_of_toNat_eq_toInt (of_not_not (of_decide_eq_false hd))
    simp [CanBit.value, PropDef.valueOf, VarType.cast, ht, heq]
  | _ =>
    refine CanBit.value_assign (by simp [PropDef.valueOf, VarType.cast, ht]) (fun hd => ?_)
    have heq := of_not_not (of_decide_eq_false hd)
    simp [CanBit.value, PropDef.valueOf, VarType.cast, ht, heq]

/-- **A property that takes a raw value holds its meaning**, whatever it held
before. -/
theorem value_updatePropertyValue {p : CanBit} {v : BitVec 32} (h : p.rejects v = false) :
    (updatePropertyValue p v).2.value = p.meaning v := by
  cases hconv : p.dataconv with
  | none =>
    rw [value_updatePropertyValue_none hconv h]
    unfold PropDef.meaning
    rw [hconv]
  | some conv => exact value_updatePropertyValue_some hconv h

/-- The same on values. -/
theorem PropDef.valueOf_decode {p : PropDef} (c : DataContent) {v : BitVec 32}
    (h : p.rejects v = false) : p.valueOf (p.decode c v).2 = p.meaning v := by
  have hv := value_updatePropertyValue (p := { p with mycanid := 0#16, curValue := c }) h
  rw [updatePropertyValue_eq] at hv
  exact hv

/-! ## The number in a field -/

/-- The width of a signed type. -/
def VarType.signedWidth : VarType → Option ℕ
  | .int8 => some 8
  | .int16 => some 16
  | .void | .int | .int32 => some 32
  | .int64 => some 64
  | .uint8 | .uint16 | .uint | .uint32 | .uint64 | .string | .bool | .array | .enable1 => none

/-- **The number in a field**: its bits, in two's complement at the width of the
type for a signed one. With a table it is the number of an entry. -/
def PropDef.number (p : PropDef) (x : BitVec 64) : ℤ :=
  match p.dataconv, p.varType.signedWidth with
  | none, some w => (x.setWidth w).toInt
  | _, _ => x.toNat
