import CanBinder.Codec

/-!
# Writes to the fields of one frame

The properties of a CAN-ID share one frame, and `property2canframe` writes
into it one field at a time. Where the fields are well formed and disjoint,
a sequence of such writes behaves as if every property had a store of its
own: each field holds the last value written to it, the bits outside all
fields are never touched, a refused write does nothing at all, and the order
of writes to different fields does not matter.
-/

/-- The properties of one CAN-ID and the payload of its frame. -/
structure FieldState (n : ℕ) where
  /-- The properties. -/
  props : Fin n → CanBit
  /-- The payload they are fields of. -/
  data : Payload

namespace FieldState

variable {n : ℕ}

/-- One call of `property2canframe`, on the property of an index. -/
def write (s : FieldState n) (i : Fin n) (v : BitVec 32) : UpdateStat × FieldState n :=
  match property2canframe (s.props i) s.data v with
  | (update, p, data) => (update, ⟨Function.update s.props i p, data⟩)

/-- A sequence of calls. -/
def writes : FieldState n → List (Fin n × BitVec 32) → FieldState n
  | s, [] => s
  | s, (i, v) :: calls => writes (s.write i v).2 calls

/-- The last value of a sequence whose write to a property did not return an
error. -/
def lastWritten (i : Fin n) : FieldState n → List (Fin n × BitVec 32) → Option (BitVec 32)
  | _, [] => none
  | s, (j, v) :: calls =>
    match lastWritten i (s.write j v).2 calls with
    | some u => some u
    | none => if j = i ∧ (s.write j v).1 ≠ .error then some v else none

/-- The fields are well formed and pairwise disjoint. -/
structure Separate (s : FieldState n) : Prop where
  wellFormed : ∀ i, (s.props i).WellFormed
  disjoint : ∀ i j, i ≠ j → Disjoint (s.props i).bits (s.props j).bits

/-- Separate fields of the properties are disjoint fields of the word. -/
theorem Separate.disjoint_bitField {s : FieldState n} (hs : s.Separate) {i j : Fin n}
    (hij : i ≠ j) :
    Disjoint (hs.wellFormed i).bitField.bits (hs.wellFormed j).bitField.bits :=
  hs.disjoint i j hij

/-- **A refused write is no write**: neither the payload nor any property
changes. -/
theorem write_of_rejects {s : FieldState n} {i : Fin n} {v : BitVec 32}
    (h : (s.props i).rejects v = true) : s.write i v = (.error, s) := by
  unfold write
  rw [property2canframe_of_rejects h]
  simp

theorem write_fst_eq_error_iff (s : FieldState n) (i : Fin n) (v : BitVec 32) :
    (s.write i v).1 = .error ↔ (s.props i).rejects v = true :=
  property2canframe_fst_eq_error_iff (s.props i) s.data v

/-- What a write that is not refused leaves. -/
theorem write_of_not_rejects {s : FieldState n} (hs : s.Separate) {i : Fin n}
    {v : BitVec 32} (h : (s.props i).rejects v = false) :
    (s.write i v).2
      = ⟨Function.update s.props i { s.props i with
            curValue := ((s.props i).decode (s.props i).curValue v).2 },
          host2canvalue ((hs.wellFormed i).bitField.put (canvalue2host s.data)
            (v.setWidth 64))⟩ := by
  unfold write
  rw [property2canframe_of_not_rejects (hs.wellFormed i) s.data h]

/-- **A write changes no definition.** -/
@[simp] theorem write_toPropDef (s : FieldState n) (i : Fin n) (v : BitVec 32) (k : Fin n) :
    ((s.write i v).2.props k).toPropDef = (s.props k).toPropDef := by
  have hp : (property2canframe (s.props i) s.data v).2.1.toPropDef
      = (s.props i).toPropDef := by
    unfold property2canframe
    rw [updatePropertyValue_eq]
    cases ((s.props i).decode (s.props i).curValue v).1 <;> rfl
  show (Function.update s.props i _ k).toPropDef = _
  by_cases hk : k = i
  · subst hk
    rw [Function.update_self]
    exact hp
  · rw [Function.update_of_ne hk]

/-- A write keeps the fields well formed and disjoint. -/
theorem Separate.write {s : FieldState n} (hs : s.Separate) (i : Fin n) (v : BitVec 32) :
    (s.write i v).2.Separate where
  wellFormed k := by
    rw [write_toPropDef]
    exact hs.wellFormed k
  disjoint k l hkl := by
    rw [write_toPropDef, write_toPropDef]
    exact hs.disjoint k l hkl

/-! ## One write -/

/-- The low bits of the value a write stores are what its own field then
reads. -/
theorem field_write_self {s : FieldState n} (hs : s.Separate) {i : Fin n} {v : BitVec 32}
    (h : (s.props i).rejects v = false) :
    ((s.props i).field (canvalue2host (s.write i v).2.data)).toNat
      = v.toNat % 2 ^ (s.props i).bitLen.toNat := by
  have hlt : v.toNat < 2 ^ 64 := v.isLt.trans (by decide)
  rw [write_of_not_rejects hs h, canvalue2host_host2canvalue,
    (hs.wellFormed i).field_eq_get, BitField.get_put_self, BitField.toNat_and_lowMask,
    BitVec.toNat_setWidth, Nat.mod_eq_of_lt hlt]
  rfl

/-- The other fields read what they read before. -/
theorem field_write_of_ne {s : FieldState n} (hs : s.Separate) {i j : Fin n} (hij : i ≠ j)
    (v : BitVec 32) :
    (s.props j).field (canvalue2host (s.write i v).2.data)
      = (s.props j).field (canvalue2host s.data) := by
  cases h : (s.props i).rejects v with
  | true => rw [write_of_rejects h]
  | false =>
    rw [write_of_not_rejects hs h, canvalue2host_host2canvalue,
      (hs.wellFormed j).field_eq_get, (hs.wellFormed j).field_eq_get]
    exact BitField.get_put_of_disjoint (hs.disjoint_bitField hij) _ _

/-- The bits outside the field are what they were. -/
theorem getLsbD_write_of_notMem {s : FieldState n} (hs : s.Separate) {i : Fin n}
    (v : BitVec 32) {b : Fin 8} {j : ℕ} (hj : j < 8)
    (hb : frameBit b j ∉ (s.props i).bits) :
    ((s.write i v).2.data b).getLsbD j = (s.data b).getLsbD j := by
  cases h : (s.props i).rejects v with
  | true => rw [write_of_rejects h]
  | false =>
    rw [write_of_not_rejects hs h, getLsbD_host2canvalue _ b hj,
      BitField.getLsbD_put_of_notMem _ _ hb, getLsbD_canvalue2host _ b hj]

/-- **Writes to different properties commute.** -/
theorem write_comm {s : FieldState n} (hs : s.Separate) {i j : Fin n} (hij : i ≠ j)
    (u v : BitVec 32) :
    ((s.write i u).2.write j v).2 = ((s.write j v).2.write i u).2 := by
  cases hu : (s.props i).rejects u with
  | true =>
    have hu' : ((s.write j v).2.props i).rejects u = true := by
      rw [write_toPropDef]
      exact hu
    rw [write_of_rejects hu, write_of_rejects hu']
  | false =>
    have hu' : ((s.write j v).2.props i).rejects u = false := by
      rw [write_toPropDef]
      exact hu
    cases hv : (s.props j).rejects v with
    | true =>
      have hv' : ((s.write i u).2.props j).rejects v = true := by
        rw [write_toPropDef]
        exact hv
      rw [write_of_rejects hv, write_of_rejects hv']
    | false =>
      have hv' : ((s.write i u).2.props j).rejects v = false := by
        rw [write_toPropDef]
        exact hv
      rw [write_of_not_rejects (hs.write i u) hv', write_of_not_rejects (hs.write j v) hu']
      simp only [write_of_not_rejects hs hu, write_of_not_rejects hs hv,
        Function.update_of_ne hij, Function.update_of_ne hij.symm,
        canvalue2host_host2canvalue, mk.injEq]
      refine ⟨Function.update_comm hij _ _ _, congrArg host2canvalue ?_⟩
      exact BitField.put_comm (hs.disjoint_bitField hij) _ _ _

/-! ## Sequences of writes -/

/-- A sequence of writes keeps the fields separate. -/
theorem Separate.writes {s : FieldState n} (hs : s.Separate)
    (calls : List (Fin n × BitVec 32)) : (s.writes calls).Separate := by
  induction calls generalizing s with
  | nil => exact hs
  | cons call calls ih => exact ih (hs.write call.1 call.2)

/-- A sequence of writes changes no definition. -/
theorem writes_toPropDef (s : FieldState n) (calls : List (Fin n × BitVec 32)) (k : Fin n) :
    ((s.writes calls).props k).toPropDef = (s.props k).toPropDef := by
  induction calls generalizing s with
  | nil => rfl
  | cons call calls ih => exact (ih _).trans (write_toPropDef s call.1 call.2 k)

/-- **A field holds what was last written to it**, and what it held at first
if nothing was. -/
theorem field_writes {s : FieldState n} (hs : s.Separate)
    (calls : List (Fin n × BitVec 32)) (i : Fin n) :
    ((s.props i).field (canvalue2host (s.writes calls).data)).toNat
      = match lastWritten i s calls with
        | some v => v.toNat % 2 ^ (s.props i).bitLen.toNat
        | none => ((s.props i).field (canvalue2host s.data)).toNat := by
  induction calls generalizing s with
  | nil => rfl
  | cons call calls ih =>
    obtain ⟨j, v⟩ := call
    have hrest := ih (hs.write j v)
    rw [write_toPropDef] at hrest
    rw [FieldState.writes, hrest, lastWritten]
    cases hl : lastWritten i (s.write j v).2 calls with
    | some u => rfl
    | none =>
      by_cases hij : j = i
      · subst hij
        cases hr : (s.props j).rejects v with
        | true => simp [write_of_rejects hr]
        | false =>
          have hne : (s.write j v).1 ≠ .error := by
            rw [Ne, write_fst_eq_error_iff, hr]
            exact Bool.false_ne_true
          simp only [hne, ne_eq, not_false_eq_true, and_self, if_true]
          exact field_write_self hs hr
      · simp only [hij, false_and, if_false]
        rw [field_write_of_ne hs hij]

/-- **The bits outside all fields are never touched.** -/
theorem getLsbD_writes_of_notMem {s : FieldState n} (hs : s.Separate)
    (calls : List (Fin n × BitVec 32)) {b : Fin 8} {j : ℕ} (hj : j < 8)
    (hb : ∀ i, frameBit b j ∉ (s.props i).bits) :
    ((s.writes calls).data b).getLsbD j = (s.data b).getLsbD j := by
  induction calls generalizing s with
  | nil => rfl
  | cons call calls ih =>
    obtain ⟨i, v⟩ := call
    have hb' : ∀ k, frameBit b j ∉ ((s.write i v).2.props k).bits := fun k => by
      rw [write_toPropDef]
      exact hb k
    exact (ih (hs.write i v) hb').trans (getLsbD_write_of_notMem hs v hj (hb i))

/-- **Any sequence of writes to separate fields**: every field holds the low
bits of the last value that was not refused, every other bit of the payload
is what it was, a refused write changes nothing, and two writes to different
properties commute. -/
theorem writes_spec {s : FieldState n} (hs : s.Separate)
    (calls : List (Fin n × BitVec 32)) :
    (∀ i, (((s.writes calls).props i).field (canvalue2host (s.writes calls).data)).toNat
        = match lastWritten i s calls with
          | some v => v.toNat % 2 ^ (s.props i).bitLen.toNat
          | none => ((s.props i).field (canvalue2host s.data)).toNat)
      ∧ (∀ (b : Fin 8) (j : ℕ), j < 8 → (∀ i, frameBit b j ∉ (s.props i).bits) →
          ((s.writes calls).data b).getLsbD j = (s.data b).getLsbD j)
      ∧ (∀ i v, ((s.writes calls).write i v).1 = .error →
          ((s.writes calls).write i v).2 = s.writes calls)
      ∧ (∀ i j u v, i ≠ j →
          (((s.writes calls).write i u).2.write j v).2
            = (((s.writes calls).write j v).2.write i u).2) := by
  refine ⟨fun i => ?_, fun b j hj hb => getLsbD_writes_of_notMem hs calls hj hb,
    fun i v h => ?_, fun i j u v hij => write_comm (hs.writes calls) hij u v⟩
  · rw [writes_toPropDef]
    exact field_writes hs calls i
  · rw [write_of_rejects ((write_fst_eq_error_iff _ i v).mp h)]

/-- Two bytes of a frame, written one after the other with values too wide
for them. -/
def twoBytes : FieldState 2 where
  props := ![{ PropDef.mk "Low" .send 8#8 0#8 8#8 .uint8 none 0 with mycanid := 0x100#16 },
    { PropDef.mk "Next" .send 7#8 0#8 8#8 .string none 0 with mycanid := 0x100#16 }]
  data := fun _ => 0#8

theorem twoBytes_separate : twoBytes.Separate := by
  refine ⟨fun i => ?_, fun i j hij => ?_⟩
  · fin_cases i <;> exact ⟨by decide, by decide, by decide, by decide, by decide⟩
  · fin_cases i <;> fin_cases j <;> first | exact absurd rfl hij | decide

theorem writes_spec_twoBytes :
    ((twoBytes.props 0).field (canvalue2host
        (twoBytes.writes [(0, 0x1234#32), (1, 5#32)]).data)).toNat = 0x34 := by
  have h := (writes_spec twoBytes_separate [(0, 0x1234#32), (1, 5#32)]).1 0
  rw [writes_toPropDef] at h
  rw [h]
  decide

end FieldState
