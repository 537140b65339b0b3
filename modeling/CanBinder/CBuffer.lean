import Mathlib.Data.Fin.Basic
import Mathlib.Data.List.Basic
import Mathlib.Logic.Function.Basic

/-!
# Strings in fixed buffers

A C string in an array of `n` bytes is what stands before the first zero byte, and
the functions that write one ask for no length. Here every byte is written through
`write`, which is nothing outside the array, so a function that has a result has
written inside it. `Holds buf s` says that the string in a buffer is `s`. Copying
and appending a string keep it (`holds_strcpy`, `Holds.strcat`), and have a result
exactly if there is room for the string and its terminator (`strcpy_isSome_iff`,
`Holds.strcat_isSome_iff`).
-/

namespace CBuffer

/-- An array of `n` bytes. -/
abbrev Buffer (n : ℕ) := Fin n → UInt8

variable {n : ℕ}

/-! ## Bytes -/

/-- Write one byte; there is none to write outside the array. -/
def write (buf : Buffer n) (i : ℕ) (b : UInt8) : Option (Buffer n) :=
  if h : i < n then some (Function.update buf ⟨i, h⟩ b) else none

/-- Write bytes one after the other. -/
def writeAll (buf : Buffer n) : ℕ → List UInt8 → Option (Buffer n)
  | _, [] => some buf
  | i, b :: bs =>
    match write buf i b with
    | none => none
    | some buf => writeAll buf (i + 1) bs

/-- **Bytes are written exactly if there is room for them.** -/
theorem writeAll_isSome_iff {buf : Buffer n} {i : ℕ} {bs : List UInt8} (hbs : bs ≠ []) :
    (writeAll buf i bs).isSome ↔ i + bs.length ≤ n := by
  induction bs generalizing buf i with
  | nil => exact absurd rfl hbs
  | cons b bs ih =>
    rw [writeAll, write, List.length_cons]
    by_cases hi : i < n
    · rw [dif_pos hi]
      dsimp only
      cases bs with
      | nil =>
        rw [writeAll]
        exact iff_of_true rfl (Nat.succ_le_of_lt hi)
      | cons b' bs =>
        rw [ih (List.cons_ne_nil _ _)]
        omega
    · rw [dif_neg hi]
      simp only [Option.isSome_none, Bool.false_eq_true, false_iff, not_le]
      omega

/-- **What is written stands in its place**, and the rest is as it was. -/
theorem writeAll_get {buf buf' : Buffer n} {i : ℕ} {bs : List UInt8}
    (h : writeAll buf i bs = some buf') (j : Fin n) :
    buf' j = if i ≤ j.val then (bs[j.val - i]?).getD (buf j) else buf j := by
  induction bs generalizing buf i with
  | nil =>
    cases h
    simp
  | cons b bs ih =>
    rw [writeAll, write] at h
    by_cases hi : i < n
    · rw [dif_pos hi] at h
      rw [ih h, Function.update_apply]
      by_cases hj : j = ⟨i, hi⟩
      · subst hj
        simp
      · have hne : j.val ≠ i := fun hc => hj (Fin.ext hc)
        rw [if_neg hj]
        by_cases hlt : i + 1 ≤ j.val
        · have hsub : j.val - i = (j.val - (i + 1)) + 1 := by omega
          rw [if_pos hlt, if_pos (by omega), hsub, List.getElem?_cons_succ]
        · rw [if_neg hlt, if_neg (by omega)]
    · rw [dif_neg hi] at h
      cases h

/-! ## Strings -/

/-- **The string in a buffer**: its bytes, none of which is zero, and then a
zero. -/
structure Holds (buf : Buffer n) (s : List UInt8) : Prop where
  notMem : 0 ∉ s
  length_lt : s.length < n
  bytes : ∀ i : Fin n, i.val < s.length → some (buf i) = s[i.val]?
  terminated : buf ⟨s.length, length_lt⟩ = 0

/-- `strlen`: the first zero byte, if there is one in the array. -/
def strlen (buf : Buffer n) : Option ℕ :=
  ((List.finRange n).find? (fun i => buf i = 0)).map Fin.val

/-- `strcpy`: a string and its terminator, from the beginning. -/
def strcpy (buf : Buffer n) (s : List UInt8) : Option (Buffer n) :=
  writeAll buf 0 (s ++ [0])

/-- `strcat`: a string and its terminator, from the terminator on. -/
def strcat (buf : Buffer n) (s : List UInt8) : Option (Buffer n) :=
  match strlen buf with
  | none => none
  | some i => writeAll buf i (s ++ [0])

/-- A cleared buffer holds the empty string. -/
theorem holds_zero (h : 0 < n) : Holds (fun _ : Fin n => 0) [] where
  notMem := List.not_mem_nil
  length_lt := h
  bytes _ hi := absurd hi (Nat.not_lt_zero _)
  terminated := rfl

/-- The length of the string in a buffer. -/
theorem Holds.strlen {buf : Buffer n} {s : List UInt8} (h : Holds buf s) :
    strlen buf = some s.length := by
  have hfind : (List.finRange n).find? (fun i => buf i = 0) = some ⟨s.length, h.length_lt⟩ := by
    rw [List.find?_eq_some_iff_getElem]
    refine ⟨decide_eq_true h.terminated, s.length, by simpa using h.length_lt, by simp, ?_⟩
    intro j hj
    have hbyte := h.bytes ⟨j, hj.trans h.length_lt⟩ hj
    -- a byte of the string is not zero
    have hne : buf ⟨j, hj.trans h.length_lt⟩ ≠ 0 := fun hzero => by
      rw [hzero] at hbyte
      exact h.notMem (List.mem_of_getElem? hbyte.symm)
    simpa using hne
  rw [CBuffer.strlen, hfind]
  rfl

/-- **Writing a string behind one.** -/
theorem holds_writeAll {buf buf' : Buffer n} {s t : List UInt8} (hs : 0 ∉ s)
    (hbytes : ∀ i : Fin n, i.val < s.length → some (buf i) = s[i.val]?) (ht : 0 ∉ t)
    (h : writeAll buf s.length (t ++ [0]) = some buf') : Holds buf' (s ++ t) := by
  have hroom : s.length + (t ++ [0]).length ≤ n :=
    (writeAll_isSome_iff (by simp)).mp (Option.isSome_of_eq_some h)
  rw [List.length_append, List.length_singleton] at hroom
  refine ⟨fun hmem => (List.mem_append.mp hmem).elim hs ht, ?_, fun i hi => ?_, ?_⟩
  · rw [List.length_append]
    omega
  · rw [List.length_append] at hi
    rw [writeAll_get h]
    by_cases his : i.val < s.length
    · rw [if_neg (by omega), hbytes i his, List.getElem?_append_left his]
    · have hit : i.val - s.length < t.length := by omega
      have hwritten : (t ++ [0])[i.val - s.length]? = t[i.val - s.length]? :=
        List.getElem?_append_left hit
      have hstring : (s ++ t)[i.val]? = t[i.val - s.length]? :=
        List.getElem?_append_right (by omega)
      rw [if_pos (by omega), hwritten, hstring, List.getElem?_eq_getElem hit, Option.getD_some]
  · rw [writeAll_get h]
    simp

/-- **Copying a string** stays inside the buffer exactly if there is room for it and
its terminator. -/
theorem strcpy_isSome_iff {buf : Buffer n} {s : List UInt8} :
    (strcpy buf s).isSome ↔ s.length < n := by
  rw [strcpy, writeAll_isSome_iff (by simp), List.length_append, List.length_singleton]
  omega

theorem holds_strcpy {buf buf' : Buffer n} {s : List UInt8} (hs : 0 ∉ s)
    (h : strcpy buf s = some buf') : Holds buf' s :=
  holds_writeAll List.not_mem_nil (fun _ hi => absurd hi (Nat.not_lt_zero _)) hs h

/-- **Appending a string** stays inside the buffer exactly if there is room for both
and the terminator. -/
theorem Holds.strcat_isSome_iff {buf : Buffer n} {s t : List UInt8} (h : Holds buf s) :
    (strcat buf t).isSome ↔ s.length + t.length < n := by
  rw [CBuffer.strcat, h.strlen]
  dsimp only
  rw [writeAll_isSome_iff (by simp), List.length_append, List.length_singleton]
  omega

theorem Holds.strcat {buf buf' : Buffer n} {s t : List UInt8} (h : Holds buf s) (ht : 0 ∉ t)
    (hcat : strcat buf t = some buf') : Holds buf' (s ++ t) := by
  rw [CBuffer.strcat, h.strlen] at hcat
  exact holds_writeAll h.notMem h.bytes ht hcat

/-- The string a function reads from a buffer, which has to end in it. -/
def contents (buf : Buffer n) : Option (List UInt8) :=
  (strlen buf).map (fun k => (List.ofFn buf).take k)

theorem Holds.contents_eq {buf : Buffer n} {s : List UInt8} (h : Holds buf s) :
    contents buf = some s := by
  have htake : (List.ofFn buf).take s.length = s := by
    refine List.ext_getElem? (fun i => ?_)
    by_cases hi : i < s.length
    · have hn : i < n := hi.trans h.length_lt
      rw [List.getElem?_take_of_lt hi, ← h.bytes ⟨i, hn⟩ hi, List.getElem?_ofFn, dif_pos hn]
    · rw [List.getElem?_eq_none (Nat.le_of_not_lt hi), List.getElem?_eq_none]
      exact (List.length_take_le _ _).trans (Nat.le_of_not_lt hi)
  rw [contents, h.strlen, Option.map_some, htake]

end CBuffer
