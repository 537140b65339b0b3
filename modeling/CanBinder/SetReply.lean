import CanBinder.Numerals
import CanBinder.Sending
import CanBinder.Values

/-!
# What `set` answers

`set` answers with success once the name of the property resolves. It does what
it says where the value is a number as a whole (`CLib.wholeNumber`), a field can
hold it (`PropDef.Holds`), the property takes it, and the kernel takes the frame
(`Binder.set_answered_iff`).
-/

namespace PropDef

/-! ## Numbers and fields -/

/-- The bits of a field a value reaches: those inside the frame, 32 at most. -/
def fieldBits (p : PropDef) : ℕ := min (min p.bitLen.toNat 32) (64 - p.bitShift.toNat)

/-- **A number the field can hold**: in the range of the type for a signed type
the field is wide enough for, and below the end of the field otherwise. -/
def Holds (p : PropDef) (n : ℤ) : Prop :=
  match p.dataconv, p.varType.signedWidth with
  | none, some w =>
    if w ≤ p.fieldBits then -((2 ^ w : ℕ) : ℤ) ≤ 2 * n ∧ 2 * n < (2 ^ w : ℕ)
    else 0 ≤ n ∧ n < (2 ^ p.fieldBits : ℕ)
  | _, _ => 0 ≤ n ∧ n < (2 ^ p.fieldBits : ℕ)

/-- The field of a frame after a value was written into it. -/
theorem field_written (p : PropDef) (x : BitVec 64) (v : BitVec 32) :
    p.field ((x &&& ~~~(p.canMask64 <<< p.bitShift.toNat))
        ||| ((v.setWidth 64 &&& p.canMask64) <<< p.bitShift.toNat))
      = v.setWidth 64 &&& BitField.lowMask 64 p.fieldBits := by
  have hmask : p.canMask64 = BitField.lowMask 64 p.bitLen.toNat := rfl
  unfold field fieldBits
  rw [hmask]
  generalize p.bitShift.toNat = s
  generalize p.bitLen.toNat = k
  generalize he : min (min k 32) (64 - s) = e
  refine BitVec.eq_of_getLsbD_eq (fun i hi => ?_)
  rw [BitVec.getLsbD_and, BitVec.getLsbD_ushiftRight, BitVec.getLsbD_or, BitVec.getLsbD_and,
    BitVec.getLsbD_not, BitVec.getLsbD_shiftLeft, BitVec.getLsbD_shiftLeft, BitVec.getLsbD_and,
    BitVec.getLsbD_and, BitVec.getLsbD_setWidth, Nat.add_sub_cancel_left,
    BitField.getLsbD_lowMask, BitField.getLsbD_lowMask]
  have hhigh : 32 ≤ i → v.getLsbD i = false := fun h => BitVec.getLsbD_of_ge v i h
  by_cases hlow : i < e
  · simp [hi, hlow, show i < k by omega, show s + i < 64 by omega]
  · by_cases hk : i < k
    · by_cases hs : s + i < 64
      · simp [hi, hk, hs, hlow, hhigh (by omega)]
      · have hout : x.getLsbD (s + i) = false := BitVec.getLsbD_of_ge x _ (by omega)
        simp [hi, hk, hs, hlow, hout]
    · simp [hk, hlow]

/-- The low bits of an integer, as a number. -/
theorem toNat_low_ofInt (n : ℤ) {e : ℕ} (he : e ≤ 32) :
    ((((BitVec.ofInt 32 n).setWidth 64 &&& BitField.lowMask 64 e).toNat : ℕ) : ℤ)
      = n % (2 ^ e : ℕ) := by
  have hlt := (BitVec.ofInt 32 n).isLt
  have hdvd : ((2 ^ e : ℕ) : ℤ) ∣ (2 ^ 32 : ℕ) := Int.natCast_dvd_natCast.mpr (Nat.pow_dvd_pow 2 he)
  have hnat : (((BitVec.ofInt 32 n).toNat : ℕ) : ℤ) = n % (2 ^ 32 : ℕ) := by
    rw [BitVec.toNat_ofInt, Int.toNat_of_nonneg (Int.emod_nonneg n (by decide))]
  have hword : (BitVec.ofInt 32 n).toNat % 2 ^ 64 = (BitVec.ofInt 32 n).toNat :=
    Nat.mod_eq_of_lt (by omega)
  rw [BitField.toNat_and_lowMask, BitVec.toNat_setWidth, hword, Int.natCast_mod, hnat,
    Int.emod_emod_of_dvd n hdvd]

/-- An integer is its own remainder if it is below the divisor. -/
theorem emod_eq_self_iff (n : ℤ) (k : ℕ) : n % (2 ^ k : ℕ) = n ↔ 0 ≤ n ∧ n < (2 ^ k : ℕ) := by
  have hpos : (0 : ℤ) < (2 ^ k : ℕ) := by exact_mod_cast Nat.two_pow_pos k
  constructor
  · intro h
    rw [← h]
    exact ⟨Int.emod_nonneg n hpos.ne', Int.emod_lt_of_pos n hpos⟩
  · rintro ⟨h, h'⟩
    exact Int.emod_eq_of_lt h h'

/-- **What a written field holds is the number that was set**, exactly if the
field can hold it. -/
theorem number_written_iff (p : PropDef) (n : ℤ) :
    p.number ((BitVec.ofInt 32 n).setWidth 64 &&& BitField.lowMask 64 p.fieldBits) = n
      ↔ p.Holds n := by
  have he : p.fieldBits ≤ 32 := (min_le_left _ _).trans (min_le_right _ _)
  have hlow := toNat_low_ofInt n he
  have hraw := emod_eq_self_iff n p.fieldBits
  unfold number Holds
  cases p.dataconv with
  | some conv =>
    dsimp only
    rw [hlow, hraw]
  | none =>
    cases hs : p.varType.signedWidth with
    | none =>
      dsimp only
      rw [hlow, hraw]
    | some w =>
      dsimp only
      rw [BitVec.toInt_setWidth, hlow]
      have hpos : 0 < 2 ^ w := Nat.two_pow_pos w
      split_ifs with hw
      · -- the field has all the bits of the type
        have hdvd : ((2 ^ w : ℕ) : ℤ) ∣ (2 ^ p.fieldBits : ℕ) :=
          Int.natCast_dvd_natCast.mpr (Nat.pow_dvd_pow 2 hw)
        rw [← Int.emod_bmod, Int.emod_emod_of_dvd n hdvd, Int.emod_bmod]
        constructor
        · intro h
          have hle := Int.le_bmod (x := n) hpos
          have hlt := Int.bmod_lt (x := n) hpos
          rw [h] at hle hlt
          omega
        · rintro ⟨hle, hlt⟩
          exact Int.bmod_eq_of_le_mul_two (by omega) (by omega)
      · -- the highest bit of the type is zero
        have hhalf : 2 * 2 ^ p.fieldBits ≤ 2 ^ w := by
          rw [← pow_succ']
          exact Nat.pow_le_pow_right (by decide) (by omega)
        have hend : (0 : ℤ) < (2 ^ p.fieldBits : ℕ) := by exact_mod_cast Nat.two_pow_pos _
        have hnonneg := Int.emod_nonneg n hend.ne'
        have hlt := Int.emod_lt_of_pos n hend
        rw [Int.bmod_eq_of_le_mul_two (by omega) (by omega), hraw]

end PropDef

namespace PropDef

/-- The number in a field is no smaller than a `long`, and no greater than the
bits of the field. -/
theorem number_bounds (p : PropDef) (x : BitVec 64) :
    CLib.longMin ≤ p.number x ∧ p.number x ≤ x.toNat := by
  unfold number
  split
  · rename_i w _ hs
    have hw : w ≤ 64 := by
      unfold VarType.signedWidth at hs
      split at hs <;> cases hs <;> decide
    have hpow : 2 ^ w ≤ 2 ^ 64 := Nat.pow_le_pow_right (by decide) hw
    have hle : (x.setWidth w).toNat ≤ x.toNat := by
      rw [BitVec.toNat_setWidth]
      exact Nat.mod_le _ _
    have hlt := (x.setWidth w).isLt
    unfold CLib.longMin
    rw [BitVec.toInt_eq_toNat_cond]
    generalize 2 ^ w = y at hpow hlt ⊢
    split_ifs <;> constructor <;> omega
  · exact ⟨by unfold CLib.longMin; omega, le_rfl⟩

end PropDef

namespace Binder

/-! ## The request -/

/-- **What `can_signal_send` puts on the bus.** -/
theorem canSignalSend_out (b : Binder) (a : Addr) (v : BitVec 32) (sent : Bool) :
    (b.canSignalSend a v sent).2
      = if (b.mem a).rejects v = true ∨ b.canSendfd = false then []
        else [.send { (b.info (b.mem a).mycanid).canrawFrame with
          data := (property2canframe (b.mem a)
            (b.info (b.mem a).mycanid).canrawFrame.data v).2.2 }] := by
  have herr := property2canframe_fst_eq_error_iff (b.mem a)
    (b.info (b.mem a).mycanid).canrawFrame.data v
  unfold canSignalSend socketcanSend
  dsimp only
  cases hrej : (b.mem a).rejects v with
  | true =>
    rw [if_neg (not_not.mpr (herr.mpr hrej)), if_pos (Or.inl rfl)]
  | false =>
    rw [if_pos (fun h => Bool.false_ne_true (hrej.symm.trans (herr.mp h)))]
    cases b.canSendfd with
    | false => rfl
    | true =>
      rw [if_neg (by simp), Dict.setInfo_info_self]
      rfl

/-- The number in the field of a frame a value was written into. -/
theorem number_sent {p : CanBit} {v : BitVec 32} (hv : p.rejects v = false) (data : Payload) :
    p.number (p.field (canvalue2host (property2canframe p data v).2.2))
      = p.number (v.setWidth 64 &&& BitField.lowMask 64 p.fieldBits) := by
  rw [property2canframe_eq_of_not_rejects data hv]
  dsimp only
  rw [canvalue2host_host2canvalue, PropDef.field_written]

/-- A number that was written is a `long`. -/
theorem number_sent_bounds (p : PropDef) (v : BitVec 32) :
    CLib.longMin ≤ p.number (v.setWidth 64 &&& BitField.lowMask 64 p.fieldBits)
      ∧ p.number (v.setWidth 64 &&& BitField.lowMask 64 p.fieldBits) ≤ CLib.longMax := by
  obtain ⟨hmin, hmax⟩ := p.number_bounds (v.setWidth 64 &&& BitField.lowMask 64 p.fieldBits)
  have hv := v.isLt
  rw [BitField.toNat_and_lowMask, BitVec.toNat_setWidth] at hmax
  have hle := (Nat.mod_le (v.toNat % 2 ^ 64) (2 ^ p.fieldBits)).trans (Nat.mod_le v.toNat (2 ^ 64))
  refine ⟨hmin, hmax.trans ?_⟩
  unfold CLib.longMax
  omega

/-- The frames a `set` puts on the bus, where its name resolves. -/
theorem send_mem_set_iff {b : Binder} {name : String} {a : Addr}
    (ha : b.getPropertyDict name = some a) {client : Client} {str : String} {sent : Bool}
    {frame : CanFrame} :
    .send frame ∈ (b.set client (some name) (some str) sent).2
      ↔ (b.mem a).rejects (BitVec.ofInt 32 (CLib.strtol str 0)) = false ∧ b.canSendfd = true
        ∧ frame = { (b.info (b.mem a).mycanid).canrawFrame with
          data := (property2canframe (b.mem a) (b.info (b.mem a).mycanid).canrawFrame.data
            (BitVec.ofInt 32 (CLib.strtol str 0))).2.2 } := by
  rw [(set_of_resolves ha client str sent).2, List.append_assoc, List.mem_append,
    or_iff_left (not_mem_send_of_timer _ _ client frame), canSignalSend_out]
  cases hrej : (b.mem a).rejects (BitVec.ofInt 32 (CLib.strtol str 0)) with
  | true => simp
  | false => cases hfd : b.canSendfd <;> simp

/-- **The request was done**: its text is a number that a field like that of the
property can hold, the property took it, and the kernel took a frame whose field
holds it. -/
def SetDone (b : Binder) (client : Client) (event value : Option String) (sent : Bool) : Prop :=
  ∃ name str a n frame, event = some name ∧ value = some str ∧ b.getPropertyDict name = some a
    ∧ CLib.wholeNumber str = some n
    ∧ (∃ word, (b.mem a).number ((b.mem a).field word) = n)
    ∧ (property2canframe (b.mem a) (b.info (b.mem a).mycanid).canrawFrame.data
      (BitVec.ofInt 32 n)).1 ≠ .error
    ∧ .send frame ∈ (b.set client event value sent).2 ∧ sent = true
    ∧ (b.mem a).number ((b.mem a).field (canvalue2host frame.data)) = n

/-- **The answer says what was done**: success just where the request was done,
and otherwise failure, with every value and frame as it was. -/
structure SetAnswered (b : Binder) (client : Client) (event value : Option String) (sent : Bool) :
    Prop where
  success : .success client none ∈ (b.set client event value sent).2
    ↔ b.SetDone client event value sent
  failure : ¬b.SetDone client event value sent →
    (∃ status, .fail client status ∈ (b.set client event value sent).2)
      ∧ (∀ a, ((b.set client event value sent).1.mem a).curValue = (b.mem a).curValue)
      ∧ ∀ c, ((b.set client event value sent).1.info c).canrawFrame = (b.info c).canrawFrame

/-- **The request is one that can be done**: where its name resolves, the socket
is open, the kernel takes the frame, and the text is a number that the field can
hold and the property does not refuse. -/
def Settable (b : Binder) (event value : Option String) (sent : Bool) : Prop :=
  ∀ name str a, event = some name → value = some str → b.getPropertyDict name = some a →
    b.canSendfd = true ∧ sent = true
      ∧ ∃ n, CLib.wholeNumber str = some n ∧ (b.mem a).Holds n
        ∧ (b.mem a).rejects (BitVec.ofInt 32 n) = false

/-- **What `set` answers is what was done**, exactly for the requests that can be
done. -/
theorem set_answered_iff (b : Binder) (client : Client) (event value : Option String)
    (sent : Bool) : b.SetAnswered client event value sent ↔ b.Settable event value sent := by
  by_cases hres : ∃ name str a, event = some name ∧ value = some str
      ∧ b.getPropertyDict name = some a
  · obtain ⟨name, str, a, rfl, rfl, ha⟩ := hres
    have hsuccess : .success client none ∈ (b.set client (some name) (some str) sent).2 := by
      rw [(set_of_resolves ha client str sent).2]
      exact List.mem_append_right _ (List.mem_singleton_self _)
    constructor
    · intro h
      obtain ⟨name', str', a', n, frame, hn, hv, ha', hnum, -, -, hsend, hsent, hfield⟩ :=
        h.success.mp hsuccess
      obtain rfl := Option.some.inj hn
      obtain rfl := Option.some.inj hv
      obtain rfl := Option.some.inj (ha.symm.trans ha')
      obtain ⟨hrej, hfd, rfl⟩ := (send_mem_set_iff ha).mp hsend
      rw [number_sent hrej] at hfield
      -- the number is in the range of `long`, so `strtol` read it as it is
      obtain ⟨hmin, hmax⟩ := number_sent_bounds (b.mem a).toPropDef
        (BitVec.ofInt 32 (CLib.strtol str 0))
      rw [hfield] at hmin hmax
      rw [CLib.strtol_of_wholeNumber hnum hmin hmax] at hrej hfield
      rintro _ _ _ ⟨⟩ ⟨⟩ ha''
      obtain rfl := Option.some.inj (ha.symm.trans ha'')
      exact ⟨hfd, hsent, n, hnum, ((b.mem a).number_written_iff n).mp hfield, hrej⟩
    · intro h
      obtain ⟨hfd, hsent, n, hnum, hholds, hrej⟩ := h name str a rfl rfl ha
      have hfield := ((b.mem a).number_written_iff n).mpr hholds
      obtain ⟨hmin, hmax⟩ := number_sent_bounds (b.mem a).toPropDef (BitVec.ofInt 32 n)
      rw [hfield] at hmin hmax
      have hread := CLib.strtol_of_wholeNumber hnum hmin hmax
      have hsend : .send _ ∈ (b.set client (some name) (some str) sent).2 :=
        (send_mem_set_iff ha).mpr ⟨by rwa [hread], hfd, rfl⟩
      have hwritten := (number_sent hrej (b.info (b.mem a).mycanid).canrawFrame.data).trans hfield
      have hdone : b.SetDone client (some name) (some str) sent := by
        refine ⟨name, str, a, n, _, rfl, rfl, ha, hnum, ⟨_, hwritten⟩, ?_, hsend, hsent, ?_⟩
        · rw [Ne, property2canframe_fst_eq_error_iff, hrej]
          exact Bool.false_ne_true
        · rw [hread]
          exact hwritten
      exact ⟨iff_of_true hsuccess hdone, fun hnot => absurd hdone hnot⟩
  · -- the request fails, and nothing was to be done
    obtain ⟨status, hset⟩ := set_of_not_resolves hres client sent
    have hdone : ¬b.SetDone client event value sent := fun ⟨n, v, a, _, _, hn, hv, ha, _⟩ =>
      hres ⟨n, v, a, hn, hv, ha⟩
    refine iff_of_true ⟨?_, fun _ => ?_⟩ (fun n v a hn hv ha => absurd ⟨n, v, a, hn, hv, ha⟩ hres)
    · rw [hset]
      exact iff_of_false (by simp) hdone
    · rw [hset]
      exact ⟨⟨status, List.mem_singleton_self _⟩, fun _ => rfl, fun _ => rfl⟩

/-- A text that is no number is sent as zero, with success. -/
theorem not_set_answered_lamp :
    ∃ d, canDefineInit sampleConfig = some d
      ∧ ¬(start d).SetAnswered 1 (some "lamp") (some "on") true := by
  have hload : (canDefineInit sampleConfig).map (fun d => d.getPropertyDict "lamp")
      = some (some (.slot 0x200#16 0)) := by
    decide
  obtain ⟨d, hd, ha⟩ := Option.map_eq_some_iff.mp hload
  refine ⟨d, hd, fun h => ?_⟩
  have hsuccess : .success 1 none ∈ ((start d).set 1 (some "lamp") (some "on") true).2 := by
    rw [(set_of_resolves (b := start d) ha 1 "on" true).2]
    exact List.mem_append_right _ (List.mem_singleton_self _)
  obtain ⟨name, str, a, n, frame, -, hv, -, hnum, -⟩ := h.success.mp hsuccess
  obtain rfl := Option.some.inj hv
  have hnone : CLib.wholeNumber "on" = none := by decide
  rw [hnone] at hnum
  cases hnum

end Binder
