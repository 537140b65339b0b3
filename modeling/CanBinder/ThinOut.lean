import Mathlib.Data.Int.Order.Basic
import Mathlib.Data.List.Pairwise

/-!
# Thinning out a sequence of samples

A reporter that is given a value again and again reports it when it changes,
and when a cycle has passed since it last reported anything. `law` says which
samples of a sequence are reported, from the value before the first of them
and the time of the last report.

Two consequences need the times in order. A cycle of zero thins out nothing
(`law_of_cycle_nonpos`), and as long as the value does not change, reports
are a cycle apart (`law_spaced`).
-/

namespace ThinOut

/-- **A sample**: a value at a time. -/
structure Sample (α : Type) where
  /-- The value. -/
  value : α
  /-- The time. -/
  time : ℤ
deriving DecidableEq

variable {α : Type} [DecidableEq α]

/-- A sample is reported over the value before and the last report. -/
def reported (cycle : ℤ) (v : α) (last : ℤ) (s : Sample α) : Bool :=
  s.value ≠ v ∨ last + cycle ≤ s.time

theorem reported_eq_true_iff {cycle last : ℤ} {v : α} {s : Sample α} :
    reported cycle v last s = true ↔ s.value ≠ v ∨ last + cycle ≤ s.time := decide_eq_true_iff

/-- The time of the last report after a sample. -/
def lastAfter (cycle : ℤ) (v : α) (last : ℤ) (s : Sample α) : ℤ :=
  if reported cycle v last s then s.time else last

/-- **The law**: the samples, each with whether it is reported. -/
def law (cycle : ℤ) : α → ℤ → List (Sample α) → List (Sample α × Bool)
  | _, _, [] => []
  | v, last, s :: l =>
    (s, reported cycle v last s) :: law cycle s.value (lastAfter cycle v last s) l

/-- **The gap between one report and the next stays below a bound.** -/
def GapsBelow (bound cycle : ℤ) : α → ℤ → List (Sample α) → Prop
  | _, _, [] => True
  | v, last, s :: l =>
    (reported cycle v last s = true → s.time - last < bound)
      ∧ GapsBelow bound cycle s.value (lastAfter cycle v last s) l

/-- The times are in order, from the last report on. -/
def Ordered (last : ℤ) (l : List (Sample α)) : Prop :=
  (last :: l.map Sample.time).Pairwise (· ≤ ·)

variable {cycle last : ℤ} {v : α} {s : Sample α} {l : List (Sample α)}

omit [DecidableEq α] in
theorem Ordered.le (h : Ordered last (s :: l)) : last ≤ s.time :=
  List.rel_of_pairwise_cons h List.mem_cons_self

/-- The times are in order after a sample as well. -/
theorem Ordered.tail (h : Ordered last (s :: l)) (cycle : ℤ) (v : α) :
    Ordered (lastAfter cycle v last s) l := by
  unfold lastAfter
  split_ifs
  · exact List.Pairwise.of_cons h
  · exact h.sublist ((List.sublist_cons_self s.time _).cons_cons last)

theorem le_lastAfter (h : Ordered last (s :: l)) (cycle : ℤ) (v : α) :
    last ≤ lastAfter cycle v last s := by
  unfold lastAfter
  split_ifs
  · exact h.le
  · exact le_rfl

/-- Times within the bound of the last report leave no larger gaps. -/
theorem gapsBelow_of_lt {bound : ℤ} (cycle : ℤ) (v : α) (h : Ordered last l)
    (hlt : ∀ s ∈ l, s.time < last + bound) : GapsBelow bound cycle v last l := by
  induction l generalizing v last with
  | nil => exact trivial
  | cons s l ih =>
    have hs := hlt s List.mem_cons_self
    have hle := le_lastAfter h cycle v
    refine ⟨fun _ => by omega, ih _ (h.tail cycle v) (fun s' hs' => ?_)⟩
    have hs'' := hlt s' (List.mem_cons_of_mem _ hs')
    omega

/-- **Without a cycle every sample is reported.** -/
theorem law_of_cycle_nonpos (hcycle : cycle ≤ 0) (h : Ordered last l) :
    ∀ x ∈ law cycle v last l, x.2 = true := by
  induction l generalizing v last with
  | nil => exact fun x hx => absurd hx List.not_mem_nil
  | cons s l ih =>
    intro x hx
    rcases List.mem_cons.mp hx with rfl | hx
    · have hle := h.le
      exact reported_eq_true_iff.mpr (Or.inr (by omega))
    · exact ih (h.tail cycle v) x hx

/-- A value that did not change since a report is not reported before the
cycle is over. -/
theorem law_next (h : Ordered last l) {mid post : List (Sample α × Bool)} {y : Sample α}
    (heq : law cycle v last l = mid ++ (y, true) :: post) (hmid : ∀ z ∈ mid, z.1.value = y.value)
    (hv : v = y.value) : last + cycle ≤ y.time := by
  induction mid generalizing v last l with
  | nil =>
    cases l with
    | nil => cases heq
    | cons s l =>
      obtain ⟨rfl, hrep⟩ := Prod.mk.inj (List.cons.inj heq).1
      exact (reported_eq_true_iff.mp hrep).resolve_left (not_not.mpr hv.symm)
  | cons z mid ih =>
    cases l with
    | nil => cases heq
    | cons s l =>
      obtain ⟨rfl, hrest⟩ := List.cons.inj heq
      have hlast := ih (h.tail cycle v) hrest (fun w hw => hmid w (List.mem_cons_of_mem _ hw))
        (hmid _ List.mem_cons_self)
      have hle := le_lastAfter h cycle v
      omega

/-- **Two reports without a change of the value are a cycle apart.** -/
theorem law_spaced (h : Ordered last l) {pre mid post : List (Sample α × Bool)} {x y : Sample α}
    (heq : law cycle v last l = pre ++ (x, true) :: (mid ++ (y, true) :: post))
    (hsame : ∀ z ∈ (x, true) :: mid, z.1.value = y.value) : x.time + cycle ≤ y.time := by
  induction pre generalizing v last l with
  | nil =>
    cases l with
    | nil => cases heq
    | cons s l =>
      obtain ⟨hx, hrest⟩ := List.cons.inj heq
      obtain ⟨rfl, hrep⟩ := Prod.mk.inj hx
      have hlast : lastAfter cycle v last s = s.time := if_pos hrep
      have htail := h.tail cycle v
      rw [hlast] at htail hrest
      exact law_next htail hrest (fun z hz => hsame z (List.mem_cons_of_mem _ hz))
        (hsame _ List.mem_cons_self)
  | cons z pre ih =>
    cases l with
    | nil => cases heq
    | cons s l => exact ih (h.tail cycle v) (List.cons.inj heq).2

end ThinOut
