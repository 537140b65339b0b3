import CanBinder.Json

/-!
# Texts that are numbers

`strtol` reads the number a text starts with, and the code asks for no more. What
a text denotes as a whole is a partial function (`CLib.wholeNumber` for the
prefixes of base 0, `CLib.hexNumber` for base 16), and `strtol` agrees with it
where it is defined, up to the ends of `long`.
-/

namespace CLib

/-- The number a text denotes, of digits of the base and nothing else. -/
def numeral (base : ℕ) : List Char → ℕ → Option ℕ
  | [], acc => some acc
  | c :: cs, acc =>
    match digitValue c with
    | some d => if d < base then numeral base cs (acc * base + d) else none
    | none => none

/-- The magnitude of a text that is a number: at least one digit, of the base
its prefix selects. -/
def wholeMagnitude (cs : List Char) : Option ℕ :=
  match afterHexPrefix cs, cs with
  | some ds, _ => numeral 16 ds 0
  | none, [] => none
  | none, '0' :: _ => numeral 8 cs 0
  | none, _ => numeral 10 cs 0

/-- **The number a text denotes as a whole**, after blanks, with a sign. -/
def wholeNumber (s : String) : Option ℤ :=
  match s.toList.dropWhile isspace with
  | '-' :: cs => (wholeMagnitude cs).map (fun m : ℕ => -(m : ℤ))
  | '+' :: cs => (wholeMagnitude cs).map (fun m : ℕ => (m : ℤ))
  | cs => (wholeMagnitude cs).map (fun m : ℕ => (m : ℤ))

example : wholeNumber "0x1f" = some 31 ∧ wholeNumber "-5" = some (-5)
    ∧ wholeNumber "5 km" = none := by decide

/-- The magnitude of a text that is a hexadecimal number: at least one digit, with
or without the prefix. -/
def hexMagnitude (cs : List Char) : Option ℕ :=
  match afterHexPrefix cs, cs with
  | some ds, _ => numeral 16 ds 0
  | none, [] => none
  | none, _ => numeral 16 cs 0

/-- A number as a whole: blanks, a sign, and a magnitude. -/
def signedNumber (whole : List Char → Option ℕ) (s : String) : Option ℤ :=
  match s.toList.dropWhile isspace with
  | '-' :: cs => (whole cs).map (fun m : ℕ => -(m : ℤ))
  | '+' :: cs => (whole cs).map (fun m : ℕ => (m : ℤ))
  | cs => (whole cs).map (fun m : ℕ => (m : ℤ))

/-- **The hexadecimal number a text denotes as a whole.** -/
def hexNumber (s : String) : Option ℤ := signedNumber hexMagnitude s

example : hexNumber "7Ff" = some 2047 ∧ hexNumber "0x10" = some 16
    ∧ hexNumber "7Fz" = none := by decide

/-! ## Reading them -/

/-- Reading the digits of a numeral stops at none of them. -/
theorem digits_of_numeral {base : ℕ} {cs : List Char} {acc m : ℕ}
    (h : numeral base cs acc = some m) : digits base cs acc = m := by
  induction cs generalizing acc with
  | nil => exact Option.some.inj h
  | cons c cs ih =>
    rw [numeral] at h
    rw [digits]
    cases hd : digitValue c with
    | none =>
      rw [hd] at h
      cases h
    | some d =>
      rw [hd] at h
      dsimp only at h ⊢
      split_ifs at h with hlt
      rw [if_pos hlt]
      exact ih h

/-- The magnitude that is read is that of the whole text. -/
theorem magnitude_of_wholeMagnitude {cs : List Char} {m : ℕ} (h : wholeMagnitude cs = some m) :
    magnitude 0 cs = m := by
  unfold wholeMagnitude at h
  unfold magnitude
  cases hhex : afterHexPrefix cs with
  | some ds =>
    rw [hhex] at h
    exact digits_of_numeral h
  | none =>
    rw [hhex] at h
    cases cs with
    | nil => cases h
    | cons c cs =>
      by_cases hc : c = '0'
      · subst hc
        exact digits_of_numeral h
      · have hnum : numeral 10 (c :: cs) 0 = some m := by simpa [hc] using h
        simpa [hc] using digits_of_numeral hnum

/-- The hexadecimal magnitude that is read is that of the whole text. -/
theorem magnitude_of_hexMagnitude {cs : List Char} {m : ℕ} (h : hexMagnitude cs = some m) :
    magnitude 16 cs = m := by
  unfold hexMagnitude at h
  unfold magnitude
  cases hhex : afterHexPrefix cs with
  | some ds =>
    rw [hhex] at h
    exact digits_of_numeral h
  | none =>
    rw [hhex] at h
    cases cs with
    | nil => cases h
    | cons c cs => exact digits_of_numeral h

/-- **`strtol` reads a number as a whole** as that number, up to the ends of
`long`, in every base whose magnitudes it reads. -/
theorem strtol_of_signedNumber {base : ℕ} {whole : List Char → Option ℕ}
    (hnil : whole [] = none) (hwhole : ∀ cs m, whole cs = some m → magnitude base cs = m)
    {s : String} {n : ℤ} (h : signedNumber whole s = some n)
    (hmin : longMin ≤ n) (hmax : n ≤ longMax) : strtol s base = n := by
  unfold signedNumber at h
  unfold strtol
  generalize s.toList.dropWhile isspace = l at h ⊢
  cases l with
  | nil => simp [hnil] at h
  | cons c cs =>
    by_cases hminus : c = '-'
    · subst hminus
      obtain ⟨m, hm, rfl⟩ := Option.map_eq_some_iff.mp h
      show max longMin (-(magnitude base cs : ℤ)) = _
      rw [hwhole cs m hm, Int.max_eq_right hmin]
    · by_cases hplus : c = '+'
      · subst hplus
        obtain ⟨m, hm, rfl⟩ := Option.map_eq_some_iff.mp h
        show min longMax (magnitude base cs : ℤ) = _
        rw [hwhole cs m hm, Int.min_eq_right hmax]
      · obtain ⟨m, hm, rfl⟩ : ∃ m, whole (c :: cs) = some m ∧ (m : ℤ) = n := by
          simpa [hminus, hplus] using h
        have hmin : min longMax (magnitude base (c :: cs) : ℤ) = m := by
          rw [hwhole (c :: cs) m hm, Int.min_eq_right hmax]
        simpa [hminus, hplus] using hmin

theorem strtol_of_wholeNumber {s : String} {n : ℤ} (h : wholeNumber s = some n)
    (hmin : longMin ≤ n) (hmax : n ≤ longMax) : strtol s 0 = n :=
  strtol_of_signedNumber rfl (fun _ _ => magnitude_of_wholeMagnitude)
    (show signedNumber wholeMagnitude s = some n from h) hmin hmax

theorem strtol_of_hexNumber {s : String} {n : ℤ} (h : hexNumber s = some n)
    (hmin : longMin ≤ n) (hmax : n ≤ longMax) : strtol s 16 = n :=
  strtol_of_signedNumber rfl (fun _ _ => magnitude_of_hexMagnitude) h hmin hmax

end CLib
