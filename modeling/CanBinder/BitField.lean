import Mathlib.Data.BitVec
import Mathlib.Data.Finset.Interval
import Mathlib.Order.Interval.Finset.Nat

/-!
# Bit fields of a machine word

A register, a frame payload or a packet header carries several numbers
side by side, each in its own range of bits. `BitField w` is such a range
inside a `w`-bit word, and the proof that it lies inside the word is one of
its fields, so no shift below is by more than the word holds.

A field is read by shifting and masking (`BitField.get`) and written by
clearing its bits and or-ing the masked value in (`BitField.put`). Both are
described bit by bit (`getLsbD_get`, `getLsbD_put`), and everything else
follows from the two descriptions: what is written is read back, a write
leaves every bit outside its field alone, and writes to disjoint fields
commute.
-/

/-- **A field of a `w`-bit word**: `len` bits starting at bit `off`. -/
structure BitField (w : ℕ) where
  /-- The least significant bit of the field. -/
  off : ℕ
  /-- The number of bits. -/
  len : ℕ
  /-- The field lies inside the word. -/
  le : off + len ≤ w

namespace BitField

variable {w : ℕ}

/-- The bit positions a field occupies. -/
def bits (f : BitField w) : Finset ℕ := Finset.Ico f.off (f.off + f.len)

@[simp] theorem mem_bits {f : BitField w} {i : ℕ} :
    i ∈ f.bits ↔ f.off ≤ i ∧ i < f.off + f.len :=
  Finset.mem_Ico

/-- The word whose low `n` bits are set, computed as `(1 << n) - 1`. -/
def lowMask (w n : ℕ) : BitVec w := (1#w <<< n) - 1#w

/-- **`(1 << n) - 1` is the mask of the low `n` bits**, also where `n`
reaches the word's width and the shift drops the one. -/
theorem getLsbD_lowMask (n i : ℕ) :
    (lowMask w n).getLsbD i = (decide (i < w) && decide (i < n)) := by
  unfold lowMask
  rcases Nat.lt_or_ge n w with hn | hn
  · have hpow : 2 ^ n < 2 ^ w := Nat.pow_lt_pow_right (by omega) hn
    have hpos : 0 < 2 ^ n := Nat.two_pow_pos n
    have hone : 1 < 2 ^ w := by omega
    have hnat : ((1#w <<< n) - 1#w).toNat = 2 ^ n - 1 := by
      rw [BitVec.toNat_sub_of_le]
      · rw [BitVec.toNat_shiftLeft, BitVec.toNat_ofNat, Nat.mod_eq_of_lt hone,
          Nat.shiftLeft_eq, one_mul, Nat.mod_eq_of_lt hpow]
      · rw [BitVec.le_def, BitVec.toNat_shiftLeft, BitVec.toNat_ofNat,
          Nat.mod_eq_of_lt hone, Nat.shiftLeft_eq, one_mul, Nat.mod_eq_of_lt hpow]
        omega
    rw [← BitVec.testBit_toNat, hnat, Nat.testBit_two_pow_sub_one]
    by_cases hi : i < n
    · simp [hi, show i < w by omega]
    · simp [hi]
  · have hzero : (1#w <<< n) = 0#w := by
      ext i hi
      simp only [BitVec.getElem_shiftLeft, BitVec.getElem_zero]
      simp [show i < n by omega]
    rw [hzero, BitVec.zero_sub, BitVec.neg_one_eq_allOnes, BitVec.getLsbD_allOnes]
    by_cases hi : i < w
    · simp [hi, show i < n by omega]
    · simp [hi]

/-- **Masking is reduction** modulo a power of two. -/
theorem toNat_and_lowMask (x : BitVec w) (n : ℕ) :
    (x &&& lowMask w n).toNat = x.toNat % 2 ^ n := by
  refine Nat.eq_of_testBit_eq (fun i => ?_)
  rw [BitVec.testBit_toNat, BitVec.getLsbD_and, getLsbD_lowMask, Nat.testBit_mod_two_pow,
    BitVec.testBit_toNat]
  by_cases hi : i < w
  · simp [hi, Bool.and_comm]
  · simp [BitVec.getLsbD_of_ge x i (Nat.le_of_not_lt hi)]

/-- The bits of the field, as a word. -/
def mask (f : BitField w) : BitVec w := lowMask w f.len <<< f.off

theorem getLsbD_mask (f : BitField w) (i : ℕ) :
    f.mask.getLsbD i = decide (i ∈ f.bits) := by
  have hle := f.le
  unfold mask
  rw [BitVec.getLsbD_shiftLeft, getLsbD_lowMask, Bool.eq_iff_iff]
  simp only [mem_bits, Bool.and_eq_true, Bool.not_eq_true', decide_eq_true_eq,
    decide_eq_false_iff_not]
  omega

/-- **Reading a field**: shift it down and mask it. -/
def get (f : BitField w) (x : BitVec w) : BitVec w :=
  (x >>> f.off) &&& lowMask w f.len

/-- **Writing a field**: clear its bits and or the masked value in. -/
def put (f : BitField w) (x v : BitVec w) : BitVec w :=
  (x &&& ~~~f.mask) ||| ((v &&& lowMask w f.len) <<< f.off)

/-- Bit `i` of what is read is bit `off + i` of the word. -/
theorem getLsbD_get (f : BitField w) (x : BitVec w) (i : ℕ) :
    (f.get x).getLsbD i = (decide (i < f.len) && x.getLsbD (f.off + i)) := by
  have hle := f.le
  unfold get
  rw [BitVec.getLsbD_and, BitVec.getLsbD_ushiftRight, getLsbD_lowMask]
  by_cases hi : i < f.len
  · simp [hi, show i < w by omega]
  · simp [hi]

/-- A written word reads the value inside the field and the old word
outside. -/
theorem getLsbD_put (f : BitField w) (x v : BitVec w) (i : ℕ) :
    (f.put x v).getLsbD i
      = if i ∈ f.bits then v.getLsbD (i - f.off) else x.getLsbD i := by
  have hle := f.le
  unfold put
  rw [BitVec.getLsbD_or, BitVec.getLsbD_and, BitVec.getLsbD_not, getLsbD_mask,
    BitVec.getLsbD_shiftLeft, BitVec.getLsbD_and, getLsbD_lowMask]
  by_cases hi : i ∈ f.bits
  · have hb := mem_bits.mp hi
    rw [if_pos hi]
    simp [hi, show i < w by omega, show ¬ i < f.off by omega,
      show i - f.off < w by omega, show i - f.off < f.len by omega]
  · have hout : i < f.off ∨ f.off + f.len ≤ i := by
      rw [mem_bits] at hi
      omega
    rw [if_neg hi]
    rcases Nat.lt_or_ge i w with hw | hw
    · rcases hout with h | h
      · simp [hi, hw, h]
      · simp [hi, hw, show ¬ i - f.off < f.len by omega]
    · simp [hw, show ¬ i < w by omega]

/-- **What is written is read back**, masked to the field's width. -/
theorem get_put_self (f : BitField w) (x v : BitVec w) :
    f.get (f.put x v) = v &&& lowMask w f.len := by
  refine BitVec.eq_of_getLsbD_eq (fun i hi => ?_)
  rw [getLsbD_get, getLsbD_put, BitVec.getLsbD_and, getLsbD_lowMask]
  by_cases hlen : i < f.len
  · rw [if_pos (mem_bits.mpr ⟨by omega, by omega⟩), Nat.add_sub_cancel_left]
    simp [hlen, hi]
  · simp [hlen]

/-- **A write leaves the bits outside its field alone.** -/
theorem getLsbD_put_of_notMem {f : BitField w} (x v : BitVec w) {i : ℕ}
    (hi : i ∉ f.bits) : (f.put x v).getLsbD i = x.getLsbD i := by
  rw [getLsbD_put, if_neg hi]

/-- **A write leaves every disjoint field alone.** -/
theorem get_put_of_disjoint {f g : BitField w} (h : Disjoint f.bits g.bits)
    (x v : BitVec w) : g.get (f.put x v) = g.get x := by
  refine BitVec.eq_of_getLsbD_eq (fun i _ => ?_)
  rw [getLsbD_get, getLsbD_get]
  by_cases hlen : i < g.len
  · have hg : g.off + i ∈ g.bits := mem_bits.mpr ⟨by omega, by omega⟩
    rw [getLsbD_put_of_notMem x v (Finset.disjoint_right.mp h hg)]
  · simp [hlen]

/-- **Writes to disjoint fields commute.** -/
theorem put_comm {f g : BitField w} (h : Disjoint f.bits g.bits)
    (x u v : BitVec w) : g.put (f.put x u) v = f.put (g.put x v) u := by
  refine BitVec.eq_of_getLsbD_eq (fun i _ => ?_)
  simp only [getLsbD_put]
  by_cases hf : i ∈ f.bits
  · rw [if_pos hf, if_pos hf, if_neg (Finset.disjoint_left.mp h hf)]
  · rw [if_neg hf, if_neg hf]

end BitField
