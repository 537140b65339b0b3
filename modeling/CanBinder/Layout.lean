import CanBinder.CanJson
import CanBinder.Codec

/-!
# The layout a configuration gives a property

`add_propertyMember` reads `POS`, `OFFS` and `LEN` of a `DATA` entry, each cut
to eight bits, then compared with a bound, and replaced by zero where it is
above it. What it stores is a field of the frame for some entries and not for
others, and `addPropertyMember_isField_iff` says for which: those whose three
numbers are in range as they stand in the file and fit into the frame
together. Every other entry is stored all the same – a missing `POS` as byte
zero, from which the field starts at bit 64; a number out of range as another
one, because it was cut before it was compared, or because zero is itself in
range.
-/

/-- The integer a JSON value holds, before it is converted. -/
def Json.integer : Json → ℤ
  | .int i => i
  | j => j.getInt

/-! ## The key loop -/

/-- The members of an object, the last of a key first. -/
theorem find?_reverse_cons (l : List (String × Json)) (m : String × Json) (key : String) :
    ((m :: l).reverse.find? (fun x => x.1 = key))
      = (l.reverse.find? (fun x => x.1 = key)).or (if m.1 = key then some m else none) := by
  rw [List.reverse_cons, List.find?_append]
  by_cases h : m.1 = key <;> simp [h]

/-- **A variable that one key sets is that of the last member of the key**,
whichever variable it is. -/
theorem memberLoop_field {α : Type} {kind : CanPropertyKind} {field : Member → α}
    {key : String} {read : Json → α}
    (hstep : ∀ m k v m', memberStep kind m k v = some m' →
      field m' = if k = key then read v else field m)
    {l : List (String × Json)} {m m' : Member} (h : memberLoop kind l m = some m') :
    field m' = match l.reverse.find? (fun x => x.1 = key) with
      | some x => read x.2
      | none => field m := by
  induction l generalizing m with
  | nil =>
    cases h
    rfl
  | cons x l ih =>
    rw [memberLoop] at h
    split at h
    · cases h
    · rename_i m₁ hm₁
      rw [ih h, find?_reverse_cons]
      cases hf : l.reverse.find? (fun x => x.1 = key) with
      | some y => rfl
      | none =>
        rw [hstep _ _ _ _ hm₁]
        by_cases hk : x.1 = key <;> simp [hk]

/-- The same with the default of the variable, if it is what `null` reads as. -/
theorem memberLoop_field_lookup {α : Type} {kind : CanPropertyKind} {field : Member → α}
    {key : String} {read : Json → α}
    (hstep : ∀ m k v m', memberStep kind m k v = some m' →
      field m' = if k = key then read v else field m)
    (hnull : read .null = field {}) {l : List (String × Json)} {m : Member}
    (h : memberLoop kind l {} = some m) : field m = read (Json.lookup l key) := by
  rw [memberLoop_field hstep h, Json.lookup]
  cases l.reverse.find? (fun x => x.1 = key) with
  | some x => rfl
  | none => exact hnull.symm

/-- A value nobody gave reads as zero. -/
theorem boundedByte_null (max : BitVec 8) : boundedByte .null max = 0#8 := by
  simp [boundedByte, Json.getInt]

/-- **What one key does to the layout**: `POS`, `OFFS` and `LEN` set a byte
each, and no other key sets any. -/
theorem memberStep_layout {kind : CanPropertyKind} {m m' : Member} {k : String} {v : Json}
    (h : memberStep kind m k v = some m') :
    m'.bytePos = (if k = "POS" then boundedByte v 8#8 else m.bytePos)
      ∧ m'.bitPos = (if k = "OFFS" then boundedByte v 8#8 else m.bitPos)
      ∧ m'.bitLen = (if k = "LEN" then boundedByte v 32#8 else m.bitLen) := by
  rw [memberStep_eq_some h]
  exact ⟨rfl, rfl, rfl⟩

/-- **The layout an entry is stored with**: each number is the last of its
key, cut and bounded. -/
theorem memberLoop_layout {kind : CanPropertyKind} {l : List (String × Json)} {m : Member}
    (h : memberLoop kind l {} = some m) :
    m.bytePos = boundedByte (Json.lookup l "POS") 8#8
      ∧ m.bitPos = boundedByte (Json.lookup l "OFFS") 8#8
      ∧ m.bitLen = boundedByte (Json.lookup l "LEN") 32#8 :=
  ⟨memberLoop_field_lookup (fun _ _ _ _ hs => (memberStep_layout hs).1)
      (boundedByte_null 8#8) h,
    memberLoop_field_lookup (fun _ _ _ _ hs => (memberStep_layout hs).2.1)
      (boundedByte_null 8#8) h,
    memberLoop_field_lookup (fun _ _ _ _ hs => (memberStep_layout hs).2.2)
      (boundedByte_null 32#8) h⟩

theorem addPropertyMember_layout {kind : CanPropertyKind} {l : List (String × Json)}
    {p : PropDef} (h : addPropertyMember (.object l) kind = some p) :
    p.bytePos = boundedByte (Json.lookup l "POS") 8#8
      ∧ p.bitPos = boundedByte (Json.lookup l "OFFS") 8#8
      ∧ p.bitLen = boundedByte (Json.lookup l "LEN") 32#8 := by
  obtain ⟨l', m, heq, hloop, rfl⟩ := addPropertyMember_eq_some h
  cases heq
  exact memberLoop_layout hloop

/-! ## One number -/

/-- A stored number is never above its bound. -/
theorem boundedByte_le (v : Json) (max : BitVec 8) :
    (boundedByte v max).toNat ≤ max.toNat := by
  unfold boundedByte
  dsimp only
  split_ifs with h
  · simp
  · exact BitVec.le_def.mp (BitVec.not_lt.mp h)

/-- **A number in range is stored as it is.** -/
theorem boundedByte_of_le {v : Json} {max : BitVec 8} (h0 : 0 ≤ v.integer)
    (hle : v.integer ≤ max.toNat) : ((boundedByte v max).toNat : ℤ) = v.integer := by
  have hmax := max.isLt
  have hint : v.getInt = v.integer := by
    cases v with
    | int i =>
      show Json.clampInt i = i
      change 0 ≤ i at h0
      change i ≤ max.toNat at hle
      unfold Json.clampInt
      split_ifs <;> omega
    | _ => rfl
  have hcast : ((BitVec.ofInt 8 v.getInt).toNat : ℤ) = v.integer := by
    rw [hint, BitVec.toNat_ofInt]
    omega
  unfold boundedByte
  dsimp only
  rw [if_neg]
  · exact hcast
  · rw [BitVec.lt_def]
    omega

/-! ## The field -/

/-- A number is stored faithfully: if it is out of its range, so is what is
stored. -/
def StoredInRange (lo hi : ℕ) (v : Json) (stored : BitVec 8) : Prop :=
  ¬ ((lo : ℤ) ≤ v.integer ∧ v.integer ≤ hi) → ¬ (lo ≤ stored.toNat ∧ stored.toNat ≤ hi)

/-- **The layout is a field of the frame**, and every number of it that was
out of range is still out of range: the byte is one of the eight, the field
lies inside the frame, so every shift by it is by less than 64 and loses no
bit of a value. -/
structure PropDef.IsField (p : PropDef) (l : List (String × Json)) : Prop where
  one_le_bytePos : 1 ≤ p.bytePos.toNat
  bytePos_le : p.bytePos.toNat ≤ 8
  bitLen_le : p.bitLen.toNat ≤ 32
  shift_nonneg : 0 ≤ p.bitShift
  shift_lt : p.bitShift < 64
  shift_add_le : p.bitShift + p.bitLen.toNat ≤ 64
  noBitLost : ∀ v : BitVec 64,
    ((v &&& p.canMask64) <<< p.bitShift.toNat) >>> p.bitShift.toNat = v &&& p.canMask64
  pos : StoredInRange 1 8 (Json.lookup l "POS") p.bytePos
  offs : StoredInRange 0 8 (Json.lookup l "OFFS") p.bitPos
  len : StoredInRange 0 32 (Json.lookup l "LEN") p.bitLen

/-- **The numbers of an entry describe a field as they stand**: `POS` is given
and is one of the eight bytes, `OFFS` and `LEN` are within the bounds of the
loader, and the field neither starts beyond bit 63 nor runs past it. -/
def DescribesField (l : List (String × Json)) : Prop :=
  let pos := (Json.lookup l "POS").integer
  let offs := (Json.lookup l "OFFS").integer
  let len := (Json.lookup l "LEN").integer
  (1 ≤ pos ∧ pos ≤ 8) ∧ (0 ≤ offs ∧ offs ≤ 8) ∧ (0 ≤ len ∧ len ≤ 32)
    ∧ (8 - pos) * 8 + offs < 64 ∧ (8 - pos) * 8 + offs + len ≤ 64

/-- Shifting a masked value up inside the frame and down again. -/
theorem PropDef.shift_roundtrip {p : PropDef}
    (h : p.bitShift + p.bitLen.toNat ≤ 64) (v : BitVec 64) :
    ((v &&& p.canMask64) <<< p.bitShift.toNat) >>> p.bitShift.toNat = v &&& p.canMask64 := by
  have hmask : ∀ i, p.canMask64.getLsbD i = (decide (i < 64) && decide (i < p.bitLen.toNat)) :=
    BitField.getLsbD_lowMask p.bitLen.toNat
  refine BitVec.eq_of_getLsbD_eq (fun i hi => ?_)
  rw [BitVec.getLsbD_ushiftRight, BitVec.getLsbD_shiftLeft, BitVec.getLsbD_and, hmask,
    BitVec.getLsbD_and, hmask]
  by_cases hlen : i < p.bitLen.toNat
  · have hlt : p.bitShift.toNat + i < 64 := by omega
    simp [hlt]
  · simp [hlen]

/-- **Exactly the entries whose numbers describe a field are stored as
one.** -/
theorem addPropertyMember_isField_iff {kind : CanPropertyKind} {l : List (String × Json)}
    {p : PropDef} (h : addPropertyMember (.object l) kind = some p) :
    p.IsField l ↔ DescribesField l := by
  obtain ⟨hpos, hoffs, hlen⟩ := addPropertyMember_layout h
  have hpos8 := boundedByte_le (Json.lookup l "POS") 8#8
  have hoffs8 := boundedByte_le (Json.lookup l "OFFS") 8#8
  have hlen32 := boundedByte_le (Json.lookup l "LEN") 32#8
  rw [← hpos] at hpos8
  rw [← hoffs] at hoffs8
  rw [← hlen] at hlen32
  change p.bytePos.toNat ≤ 8 at hpos8
  change p.bitPos.toNat ≤ 8 at hoffs8
  change p.bitLen.toNat ≤ 32 at hlen32
  -- a number in range is the one stored
  have hposEq : 1 ≤ (Json.lookup l "POS").integer →
      (Json.lookup l "POS").integer ≤ 8 →
        (p.bytePos.toNat : ℤ) = (Json.lookup l "POS").integer :=
    fun h1 h8 => hpos ▸ boundedByte_of_le (by omega) h8
  have hoffsEq : 0 ≤ (Json.lookup l "OFFS").integer →
      (Json.lookup l "OFFS").integer ≤ 8 →
        (p.bitPos.toNat : ℤ) = (Json.lookup l "OFFS").integer :=
    fun h0 h8 => hoffs ▸ boundedByte_of_le h0 h8
  have hlenEq : 0 ≤ (Json.lookup l "LEN").integer →
      (Json.lookup l "LEN").integer ≤ 32 →
        (p.bitLen.toNat : ℤ) = (Json.lookup l "LEN").integer :=
    fun h0 h32 => hlen ▸ boundedByte_of_le h0 h32
  constructor
  · intro hf
    -- what is stored is in range, so the number was
    have hp : (1 : ℤ) ≤ (Json.lookup l "POS").integer ∧ (Json.lookup l "POS").integer ≤ 8 := by
      by_contra hc
      exact hf.pos hc ⟨hf.one_le_bytePos, hf.bytePos_le⟩
    have ho : (0 : ℤ) ≤ (Json.lookup l "OFFS").integer
        ∧ (Json.lookup l "OFFS").integer ≤ 8 := by
      by_contra hc
      exact hf.offs hc ⟨Nat.zero_le _, hoffs8⟩
    have hl : (0 : ℤ) ≤ (Json.lookup l "LEN").integer
        ∧ (Json.lookup l "LEN").integer ≤ 32 := by
      by_contra hc
      exact hf.len hc ⟨Nat.zero_le _, hlen32⟩
    have h₁ := hf.shift_lt
    have h₂ := hf.shift_add_le
    unfold PropDef.bitShift at h₁ h₂
    rw [hposEq hp.1 hp.2, hoffsEq ho.1 ho.2] at h₁ h₂
    rw [hlenEq hl.1 hl.2] at h₂
    exact ⟨hp, ho, hl, h₁, h₂⟩
  · rintro ⟨⟨hp1, hp8⟩, ⟨ho0, ho8⟩, ⟨hl0, hl32⟩, hlt, hle⟩
    rw [← hposEq hp1 hp8, ← hoffsEq ho0 ho8] at hlt hle
    rw [← hlenEq hl0 hl32] at hle
    have hnn : 0 ≤ p.bitShift := by
      unfold PropDef.bitShift
      omega
    refine ⟨?_, hpos8, hlen32, hnn, hlt, hle, PropDef.shift_roundtrip hle,
      fun hc => absurd ⟨hp1, hp8⟩ hc, fun hc => absurd ⟨ho0, ho8⟩ hc,
      fun hc => absurd ⟨hl0, hl32⟩ hc⟩
    have := hposEq hp1 hp8
    omega

/-- The `DATA` entry of the sample configuration. -/
def sampleEntry : List (String × Json) :=
  [("POS", .int 2), ("OFFS", .int 0), ("LEN", .int 16), ("PROPERTY", .string "EngineSpeed"),
    ("ZONE", .array [.string "Zone::None"]), ("TYPE", .string "uint16_t")]

theorem addPropertyMember_isField_iff_sample :
    ∃ p, addPropertyMember (.object sampleEntry) .readonly = some p
      ∧ p.IsField sampleEntry := by
  have h : addPropertyMember (.object sampleEntry) .readonly
      = some ⟨"EngineSpeed", .readonly, 2#8, 0#8, 16#8, .uint16, none, 0⟩ := by decide
  exact ⟨_, h, (addPropertyMember_isField_iff h).mpr
    ⟨by decide, by decide, by decide, by decide, by decide⟩⟩

/-- An entry that gives no `POS` is stored with byte zero, and one that gives
byte 257 with byte one. -/
theorem addPropertyMember_not_isField :
    (∃ p, addPropertyMember (.object [("PROPERTY", .string "Speed"), ("LEN", .int 8)])
        .readonly = some p
      ∧ ¬ p.IsField [("PROPERTY", .string "Speed"), ("LEN", .int 8)])
      ∧ (∃ p, addPropertyMember (.object [("PROPERTY", .string "Speed"), ("POS", .int 257)])
          .readonly = some p
        ∧ p.bytePos = 1#8 ∧ ¬ p.IsField [("PROPERTY", .string "Speed"), ("POS", .int 257)]) := by
  refine ⟨⟨⟨"Speed", .readonly, 0#8, 0#8, 8#8, .void, none, 0⟩, by decide, fun hf => ?_⟩,
    ⟨⟨"Speed", .readonly, 1#8, 0#8, 0#8, .void, none, 0⟩, by decide, rfl, fun hf => ?_⟩⟩
  · exact absurd hf.one_le_bytePos (by decide)
  · exact hf.pos (by decide) (by decide)
