import CanBinder.CanidInfo
import Mathlib.Tactic.FinCases

/-!
# What the codec does

The facts about `canid_info.c` that the rest of the development uses, so that
no later proof opens the type switch again.

The first half is about bytes: `canvalue2host` and `host2canvalue` are
inverse to each other, and bit `j` of data byte `b` is bit
`8 * (7 - b) + j` of the word. The second half is about values: storing a
value changes nothing of a property but its current value, and whether a
value is refused depends on the property's definition alone
(`PropDef.rejects`).
-/

/-! ## The byte order -/

/-- The position in the frame word of a bit of a data byte. -/
def frameBit (b : Fin 8) (j : ℕ) : ℕ := 8 * (7 - b.val) + j

/-- Every bit of the frame word is a bit of a data byte. -/
theorem exists_frameBit {k : ℕ} (hk : k < 64) :
    ∃ (b : Fin 8) (j : ℕ), j < 8 ∧ frameBit b j = k := by
  refine ⟨⟨7 - k / 8, by omega⟩, k % 8, Nat.mod_lt _ (by omega), ?_⟩
  simp only [frameBit]
  omega

theorem getLsbD_value64 (data : Payload) (b : Fin 8) {j : ℕ} (hj : j < 8) :
    (value64 data).getLsbD (8 * b.val + j) = (data b).getLsbD j := by
  unfold value64
  simp only [BitVec.getLsbD_append]
  -- which byte it is decides every comparison
  fin_cases b <;> grind

/-- **The word of a frame**, bit by bit. -/
theorem getLsbD_canvalue2host (data : Payload) (b : Fin 8) {j : ℕ} (hj : j < 8) :
    (canvalue2host data).getLsbD (frameBit b j) = (data b).getLsbD j := by
  have h := getLsbD_value64
    ![data 7, data 6, data 5, data 4, data 3, data 2, data 1, data 0] b.rev hj
  have hrev : 8 * b.rev.val + j = frameBit b j := by
    rw [Fin.val_rev, frameBit]
    omega
  rw [hrev] at h
  refine h.trans ?_
  fin_cases b <;> rfl

/-- **The frame of a word**, bit by bit. -/
theorem getLsbD_host2canvalue (v : BitVec 64) (b : Fin 8) {j : ℕ} (hj : j < 8) :
    (host2canvalue v b).getLsbD j = v.getLsbD (frameBit b j) := by
  have hb : host2canvalue v b = v.extractLsb' (8 * (7 - b.val)) 8 := by
    fin_cases b <;> rfl
  rw [hb, BitVec.getLsbD_extractLsb', frameBit, decide_eq_true hj, Bool.true_and]

/-- **Writing a word and reading it back** gives the word. -/
@[simp] theorem canvalue2host_host2canvalue (v : BitVec 64) :
    canvalue2host (host2canvalue v) = v := by
  refine BitVec.eq_of_getLsbD_eq (fun k hk => ?_)
  obtain ⟨b, j, hj, rfl⟩ := exists_frameBit hk
  rw [getLsbD_canvalue2host _ b hj, getLsbD_host2canvalue v b hj]

/-- **Reading a frame and writing it back** gives the frame. -/
@[simp] theorem host2canvalue_canvalue2host (data : Payload) :
    host2canvalue (canvalue2host data) = data := by
  funext b
  refine BitVec.eq_of_getLsbD_eq (fun j hj => ?_)
  rw [getLsbD_host2canvalue _ b hj, getLsbD_canvalue2host data b hj]

/-! ## Storing a value -/

/-- Whether a property refuses a raw value: one beyond its table, and any for
a string or substitution without a table. -/
def PropDef.rejects (p : PropDef) (v : BitVec 32) : Bool :=
  match p.dataconv with
  | some _ => p.nconv ≤ v.toNat
  | none => p.varType = .string ∨ p.varType = .enable1

/-- **The decoder on values**: what a definition makes of a raw value over a
current one. -/
def PropDef.decode (p : PropDef) (c : DataContent) (v : BitVec 32) :
    UpdateStat × DataContent :=
  let r := updatePropertyValue { p with mycanid := 0#16, curValue := c } v
  (r.1, r.2.curValue)

/-- **Storing a value changes the current value and nothing else**, and the
result depends on the definition and the current value alone. -/
theorem updatePropertyValue_eq (p : CanBit) (v : BitVec 32) :
    updatePropertyValue p v
      = ((p.decode p.curValue v).1, { p with curValue := (p.decode p.curValue v).2 }) := by
  obtain ⟨⟨_, _, _, _, _, varType, dataconv, nconv⟩, _, _, _, _, curValue⟩ := p
  unfold PropDef.decode updatePropertyValue CanBit.assign
  cases varType <;> cases dataconv <;> dsimp only <;> split_ifs <;> rfl

@[simp] theorem CanBit.assign_fst_ne_error (p : CanBit) (differs : Bool)
    (value : DataContent) (reported : Bool) :
    (p.assign differs value reported).1 ≠ .error := by
  unfold CanBit.assign
  split_ifs <;> simp

/-- A value is refused exactly when the definition refuses it. -/
theorem PropDef.decode_fst_eq_error_iff (p : PropDef) (c : DataContent) (v : BitVec 32) :
    (p.decode c v).1 = .error ↔ p.rejects v = true := by
  obtain ⟨name, kind, bytePos, bitPos, bitLen, varType, dataconv, nconv⟩ := p
  unfold PropDef.decode PropDef.rejects updatePropertyValue
  cases dataconv with
  | none => cases varType <;> simp
  | some t =>
    by_cases hn : nconv ≤ v.toNat
    · simp [hn]
    · cases varType <;> simp [hn]

/-- A refused value changes nothing. -/
theorem PropDef.decode_of_rejects {p : PropDef} {c : DataContent} {v : BitVec 32}
    (h : p.rejects v = true) : p.decode c v = (.error, c) := by
  unfold PropDef.rejects at h
  unfold PropDef.decode updatePropertyValue
  cases hd : p.dataconv with
  | none =>
    rw [hd] at h
    have ht : p.varType = .string ∨ p.varType = .enable1 := by simpa using h
    rcases ht with ht | ht <;> simp [ht]
  | some t =>
    rw [hd] at h
    have hn : p.nconv ≤ v.toNat := by simpa using h
    simp [hn]

/-- What a property makes of a value it refuses. -/
theorem updatePropertyValue_of_rejects {p : CanBit} {v : BitVec 32}
    (h : p.rejects v = true) : updatePropertyValue p v = (.error, p) := by
  rw [updatePropertyValue_eq, PropDef.decode_of_rejects h]

theorem updatePropertyValue_fst_eq_error_iff (p : CanBit) (v : BitVec 32) :
    (updatePropertyValue p v).1 = .error ↔ p.rejects v = true := by
  rw [updatePropertyValue_eq]
  exact p.decode_fst_eq_error_iff _ v

/-! ## Fields -/

/-- **A well-formed field**: a byte of the frame, a bit of that byte, at most
32 bits, and all of them inside the frame. -/
structure PropDef.WellFormed (p : PropDef) : Prop where
  one_le_bytePos : 1 ≤ p.bytePos.toNat
  bytePos_le : p.bytePos.toNat ≤ 8
  bitPos_le : p.bitPos.toNat ≤ 7
  bitLen_le : p.bitLen.toNat ≤ 32
  inside : (8 - p.bytePos.toNat) * 8 + p.bitPos.toNat + p.bitLen.toNat ≤ 64

/-- The field of a property, as a field of the frame word. -/
def PropDef.WellFormed.bitField {p : PropDef} (h : p.WellFormed) : BitField 64 where
  off := p.bitShift.toNat
  len := p.bitLen.toNat
  le := by
    have h₁ := h.bytePos_le
    have h₂ := h.inside
    unfold PropDef.bitShift
    omega

/-- The bits a property's field occupies in the frame word. -/
def PropDef.bits (p : PropDef) : Finset ℕ :=
  Finset.Ico p.bitShift.toNat (p.bitShift.toNat + p.bitLen.toNat)

/-- The extraction of `canframe2property` is the reading of the field. -/
theorem PropDef.WellFormed.field_eq_get {p : PropDef} (h : p.WellFormed) (x : BitVec 64) :
    p.field x = h.bitField.get x := rfl

/-- What `property2canframe` does when the property takes the value. -/
theorem property2canframe_eq_of_not_rejects {p : CanBit} (data : Payload) {v : BitVec 32}
    (hv : p.rejects v = false) :
    property2canframe p data v
      = ((p.decode p.curValue v).1, { p with curValue := (p.decode p.curValue v).2 },
          host2canvalue ((canvalue2host data &&& ~~~(p.canMask64 <<< p.bitShift.toNat))
            ||| ((v.setWidth 64 &&& p.canMask64) <<< p.bitShift.toNat))) := by
  have hne : (p.decode p.curValue v).1 ≠ .error := by
    rw [Ne, PropDef.decode_fst_eq_error_iff, hv]
    exact Bool.false_ne_true
  unfold property2canframe
  rw [updatePropertyValue_eq]
  cases hs : (p.decode p.curValue v).1 with
  | error => exact absurd hs hne
  | noUpdated => rfl
  | updated => rfl

/-- **`property2canframe` writes the field** when the property takes the
value. -/
theorem property2canframe_of_not_rejects {p : CanBit} (h : p.WellFormed) (data : Payload)
    {v : BitVec 32} (hv : p.rejects v = false) :
    property2canframe p data v
      = ((p.decode p.curValue v).1, { p with curValue := (p.decode p.curValue v).2 },
          host2canvalue (h.bitField.put (canvalue2host data) (v.setWidth 64))) :=
  property2canframe_eq_of_not_rejects data hv

/-- **A refused write is no write.** -/
theorem property2canframe_of_rejects {p : CanBit} {data : Payload} {v : BitVec 32}
    (hv : p.rejects v = true) : property2canframe p data v = (.error, p, data) := by
  unfold property2canframe
  rw [updatePropertyValue_of_rejects hv]

theorem property2canframe_fst_eq_error_iff (p : CanBit) (data : Payload) (v : BitVec 32) :
    (property2canframe p data v).1 = .error ↔ p.rejects v = true := by
  rw [← updatePropertyValue_fst_eq_error_iff]
  unfold property2canframe
  cases hu : updatePropertyValue p v with
  | mk st q => cases st <;> simp
