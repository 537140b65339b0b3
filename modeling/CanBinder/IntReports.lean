import CanBinder.Delivery
import CanBinder.Values

/-!
# Numbers that are reported

The number in a field of a frame passes through the mask, the store switch of the
decoder, the read switch of `propertyValue_int` and the one of `property2json`.
It comes out as it was for the types that are stored at all, up to the highest
bit of `uint` and `uint32_t`, which are read back as `int`
(`Binder.reports_number_iff`).
-/

/-- **The types `property2json` reports as a number**, with their widths. -/
def VarType.intWidth : VarType → Option ℕ
  | .int8 | .uint8 => some 8
  | .int16 | .uint16 => some 16
  | .void | .int | .int32 | .uint | .uint32 | .enable1 => some 32
  | .int64 => some 64
  | .uint64 | .string | .bool | .array => none

/-- They are the types with a number as value object. -/
theorem isSome_intWidth_iff (p : CanBit) :
    p.varType.intWidth.isSome = true ↔ ∃ i, valueObject p = some (.int i) := by
  unfold valueObject
  cases p.varType <;> simp [VarType.intWidth]

/-- The number of a property of such a type is what `propertyValue_int`
returns. -/
theorem valueObject_of_intWidth {p : CanBit} {w : ℕ} (h : p.varType.intWidth = some w) :
    valueObject p = some (.int (propertyValueInt p)) := by
  unfold valueObject
  cases ht : p.varType <;> rw [ht] at h <;> cases h

/-- **`propertyValue_int` reads the value a property holds**, as an `int`. -/
theorem propertyValueInt_of_value {p : CanBit} {i : ℤ} (h : p.value = .int i) :
    propertyValueInt p
      = if p.varType = .uint ∨ p.varType = .uint32 then i.bmod (2 ^ 32) else i := by
  unfold CanBit.value PropDef.valueOf at h
  unfold propertyValueInt
  cases ht : p.varType <;> rw [ht] at h <;> cases h <;> simp [BitVec.toInt_eq_toNat_bmod]

/-- A field is below its end. -/
theorem PropDef.field_lt (p : PropDef) (canV64 : BitVec 64) :
    (p.field canV64).toNat < 2 ^ p.bitLen.toNat := by
  have hmask : p.canMask64 = BitField.lowMask 64 p.bitLen.toNat := rfl
  unfold field
  rw [hmask, BitField.toNat_and_lowMask]
  exact Nat.mod_lt _ (Nat.two_pow_pos _)

/-- **The meaning of a field is its number**, where the type is stored and wide
enough. -/
theorem PropDef.WellFormed.meaning_eq_number {p : PropDef} (h : p.WellFormed)
    (hconv : p.dataconv = none) {w : ℕ} (hw : p.varType.intWidth = some w)
    (hlen : p.bitLen.toNat ≤ w) (hne : p.varType ≠ .int64) (henable : p.varType ≠ .enable1)
    (canV64 : BitVec 64) :
    p.meaning (p.raw canV64) = .int (p.number (p.field canV64)) := by
  have hf := field_lt p canV64
  have hmod : ∀ k, p.bitLen.toNat ≤ k →
      (p.field canV64).toNat % 2 ^ k = (p.field canV64).toNat := fun k hk =>
    Nat.mod_eq_of_lt (hf.trans_le (Nat.pow_le_pow_right (by decide) hk))
  have h32 := hmod 32 h.bitLen_le
  have hw' := hmod w hlen
  have hcut : ∀ k, k ≤ 32 → (p.raw canV64).setWidth k = (p.field canV64).setWidth k := fun k hk =>
    BitVec.setWidth_setWidth_of_le _ hk
  unfold meaning number
  rw [hconv]
  dsimp only
  cases ht : p.varType with
  | int64 => exact absurd ht hne
  | enable1 => exact absurd ht henable
  | uint64 | string | bool | array =>
    rw [ht] at hw
    cases hw
  | int8 =>
    show Value.int _ = _
    rw [hcut 8 (by decide)]
    rfl
  | int16 =>
    show Value.int _ = _
    rw [hcut 16 (by decide)]
    rfl
  | void | int | int32 => rfl
  | uint8 | uint16 | uint | uint32 =>
    rw [ht] at hw
    cases hw
    refine congrArg Value.int (Int.natCast_inj.mpr ?_)
    simp only [raw, BitVec.toNat_setWidth, h32, hw']

/-- **What is reported is the number in the field**, but for the types that are
not stored or are read back as `int`. -/
theorem PropDef.WellFormed.propertyValueInt_iff {p : CanBit} (h : p.WellFormed)
    (hconv : p.dataconv = none) {w : ℕ} (hw : p.varType.intWidth = some w)
    (hlen : p.bitLen.toNat ≤ w) {canV64 : BitVec 64}
    (hread : (canframe2property canV64 p).1 ≠ .error) :
    propertyValueInt (canframe2property canV64 p).2 = p.number (p.field canV64)
      ↔ p.varType ≠ .int64
        ∧ (p.varType = .uint ∨ p.varType = .uint32 → (p.field canV64).toNat < 2 ^ 31) := by
  have hf := p.field_lt canV64
  have hpow : 2 ^ p.bitLen.toNat ≤ 2 ^ 32 := Nat.pow_le_pow_right (by decide) h.bitLen_le
  have hrej : p.rejects (p.raw canV64) = false := by
    rw [← Bool.not_eq_true, ← updatePropertyValue_fst_eq_error_iff]
    exact hread
  have henable : p.varType ≠ .enable1 := fun ht => by
    unfold PropDef.rejects at hrej
    rw [hconv, ht] at hrej
    cases hrej
  have htype : (canframe2property canV64 p).2.varType = p.varType := by
    rw [canframe2property_eq]
  by_cases hne : p.varType = .int64
  · -- nothing is stored, and a field of 32 bits is not negative
    refine iff_of_false (fun heq => ?_) (fun hboth => hboth.1 hne)
    have hminus : propertyValueInt (canframe2property canV64 p).2 = -1 := by
      unfold propertyValueInt
      rw [htype, hne]
    have hnum : p.number (p.field canV64) = (p.field canV64).toNat := by
      unfold PropDef.number
      rw [hconv, hne]
      show ((p.field canV64).setWidth 64).toInt = _
      rw [BitVec.setWidth_eq, BitVec.toInt_eq_toNat_of_lt (by omega)]
    rw [hminus, hnum] at heq
    omega
  · have hvalue : (canframe2property canV64 p).2.value = .int (p.number (p.field canV64)) :=
      (value_updatePropertyValue hrej).trans
        (h.meaning_eq_number hconv hw hlen hne henable canV64)
    rw [propertyValueInt_of_value hvalue, htype]
    split_ifs with hu
    · have hnum : p.number (p.field canV64) = (p.field canV64).toNat := by
        unfold PropDef.number
        rw [hconv]
        rcases hu with hu | hu <;> rw [hu] <;> rfl
      have hhalf : ((p.field canV64).toNat : ℤ).bmod (2 ^ 32) = (p.field canV64).toNat
          ↔ (p.field canV64).toNat < 2 ^ 31 := by
        rw [Int.bmod_def]
        omega
      rw [hnum, hhalf]
      exact ⟨fun hlt => ⟨hne, fun _ => hlt⟩, fun hboth => hboth.2 hu⟩
    · exact iff_of_true rfl ⟨hne, fun hu' => absurd hu' hu⟩

namespace Binder

/-- **The number in the field is the one reported.** In any state of a run, after
a frame was decoded into a property of a single entry without a table, of a type
that is reported as a number and is wide enough, the number reported is the one in
the field, exactly if the type is not `int64_t`, and for `uint` and `uint32_t` the
number is below `2 ^ 31`. -/
theorem reports_number_iff {d : Dict} {b : Binder} (h : Sane d b) {a : Addr}
    (ha : a ∈ d.propertyRoot) (hnext : (d.mem a).next = none) (hconv : (d.mem a).dataconv = none)
    (hwf : (d.mem a).WellFormed) {w : ℕ} (hw : (d.mem a).varType.intWidth = some w)
    (hlen : (d.mem a).bitLen.toNat ≤ w) {canV64 : BitVec 64}
    (hread : (canframe2property canV64 (b.mem a)).1 ≠ .error) :
    (b.setBit a (canframe2property canV64 (b.mem a)).2).property2json a
        = some (.object [("value", .int ((d.mem a).number ((d.mem a).field canV64)))])
      ↔ (d.mem a).varType ≠ .int64
        ∧ ((d.mem a).varType = .uint ∨ (d.mem a).varType = .uint32 →
          ((d.mem a).field canV64).toNat < 2 ^ 31) := by
  have hdef := (h.layout.entry a).1
  have hentry := Dict.sameEntry_canframe2property canV64 (b.mem a)
  have hlayout : b.toDict.SameLayout (b.setBit a (canframe2property canV64 (b.mem a)).2) :=
    (Dict.touches_setBit hentry).sameLayout
  have hkeep : (canframe2property canV64 (b.mem a)).2.applyinfo = (b.mem a).applyinfo := by
    rw [canframe2property_eq]
  have hap : (b.setBit a (canframe2property canV64 (b.mem a)).2).AppliedInChain :=
    h.applied.congr hlayout (Dict.setBit_applyinfo hkeep)
  have ha' : a ∈ (b.setBit a (canframe2property canV64 (b.mem a)).2).propertyRoot := by
    rw [hlayout.propertyRoot, h.layout.propertyRoot]
    exact ha
  have hself : (b.setBit a (canframe2property canV64 (b.mem a)).2).applied a = a := by
    refine Dict.applied_of_next_none ?_ (hap a ha').1
    rw [(hlayout.entry a).2.2, (h.layout.entry a).2.2, hnext]
  have hw' : (canframe2property canV64 (b.mem a)).2.varType.intWidth = some w := by
    rw [hentry.1, hdef]
    exact hw
  rw [Dict.property2json_eq hap ha', hself, Dict.setBit_mem_self, Dict.report,
    valueObject_of_intWidth hw', Option.map_some, Option.some_inj]
  simp only [Json.object.injEq, List.cons.injEq, Prod.mk.injEq, Json.int.injEq, and_true, true_and]
  rw [← hdef] at hconv hwf hw hlen ⊢
  exact hwf.propertyValueInt_iff hconv hw hlen hread

/-- A distance of 32 bits. -/
def distanceConfig : Json :=
  configFile [("100", configCanid "CAN_THINOUT_NON" 0 [configData "distance" "uint32_t" 4 0 32])] []

/-- The frame word of a distance, by its highest byte. -/
def distanceWord (v : BitVec 8) : BitVec 64 :=
  canvalue2host (fun i => if i.val = 0 then v else 0#8)

theorem reports_number_iff_distance :
    ∃ d, canDefineInit distanceConfig = some d
      ∧ ((start d).setBit (.slot 0x100#16 0) (canframe2property (distanceWord 1#8)
          (d.mem (.slot 0x100#16 0))).2).property2json (.slot 0x100#16 0)
        = some (.object [("value", .int 0x1000000)]) := by
  have hload : (canDefineInit distanceConfig).map (fun d =>
        (d.propertyRoot, d.mem (.slot 0x100#16 0)))
      = some ([.slot 0x100#16 0],
          ⟨⟨"distance", .readonly, 4#8, 0#8, 32#8, .uint32, none, 0⟩, 0x100#16, none, none, ⟨0, 0⟩,
            DataContent.zero⟩) := by
    decide
  obtain ⟨d, hd, hval⟩ := Option.map_eq_some_iff.mp hload
  simp only [Prod.mk.injEq] at hval
  obtain ⟨hroot, hmem⟩ := hval
  obtain ⟨cs, -, hconf⟩ := Dict.configured_of_canDefineInit hd
  have hwf : (d.mem (.slot 0x100#16 0)).WellFormed := by
    rw [hmem]
    exact ⟨by decide, by decide, by decide, by decide, by decide⟩
  have hnum : (d.mem (.slot 0x100#16 0)).number
      ((d.mem (.slot 0x100#16 0)).field (distanceWord 1#8)) = 0x1000000 := by
    rw [hmem]
    decide
  rw [← hnum]
  refine ⟨d, hd, (reports_number_iff (w := 32) (sane_start hconf.sound.pristine)
    (by rw [hroot]; decide) (by rw [hmem]) (by rw [hmem]) hwf (by rw [hmem]; rfl)
    (by rw [hmem]; decide) ?_).mpr ⟨by rw [hmem]; decide, fun _ => by rw [hmem]; decide⟩⟩
  rw [show (start d).mem = d.mem from rfl, hmem]
  decide

/-- A distance with its highest bit set is reported as negative. -/
theorem not_reports_number_distance :
    ∃ d, canDefineInit distanceConfig = some d
      ∧ (d.mem (.slot 0x100#16 0)).number
          ((d.mem (.slot 0x100#16 0)).field (distanceWord 0x80#8)) = 0x80000000
      ∧ ((start d).setBit (.slot 0x100#16 0) (canframe2property (distanceWord 0x80#8)
          (d.mem (.slot 0x100#16 0))).2).property2json (.slot 0x100#16 0)
        ≠ some (.object [("value", .int 0x80000000)]) := by
  have hload : (canDefineInit distanceConfig).map (fun d =>
        ((d.mem (.slot 0x100#16 0)).number
          ((d.mem (.slot 0x100#16 0)).field (distanceWord 0x80#8)),
        (((start d).setBit (.slot 0x100#16 0) (canframe2property (distanceWord 0x80#8)
          (d.mem (.slot 0x100#16 0))).2).property2json (.slot 0x100#16 0)).bind reportedInt))
      = some (0x80000000, some (-0x80000000)) := by
    decide
  obtain ⟨d, hd, hval⟩ := Option.map_eq_some_iff.mp hload
  simp only [Prod.mk.injEq] at hval
  obtain ⟨hnum, hint⟩ := hval
  refine ⟨d, hd, hnum, fun heq => ?_⟩
  rw [heq] at hint
  exact absurd hint (by decide)

end Binder
