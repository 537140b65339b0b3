import Mathlib.Algebra.Order.Group.Nat
import Mathlib.Data.List.Basic

/-!
# Periodic timers

A timer that is armed expires a period later, and then every period. Whoever
reads it learns how often it has expired since; it is read late or in time,
and may be armed anew at any moment.

Two laws of such a timer. It is not read more often than periods have gone by
(`rate`), however often it is armed. And where no time goes by while it is
expired, and it is not armed anew, it is read once in every period, at the end
of it (`prompt`).
-/

namespace PeriodicTimer

/-- **A timer**: the time, and when it expires. -/
structure Timer where
  /-- The time. -/
  now : ℕ
  /-- When the timer expires next, or first did. -/
  deadline : ℕ
deriving DecidableEq

/-- What happens to a timer. -/
inductive Event
  /-- Time goes by. -/
  | wait (time : ℕ)
  /-- The timer is read. -/
  | read
  /-- The timer is armed anew. -/
  | arm
deriving DecidableEq

variable (period : ℕ)

/-- How often the timer has expired. -/
def expirations (t : Timer) : ℕ :=
  if t.now < t.deadline then 0 else (t.now - t.deadline) / period + 1

/-- One event. Reading the timer leaves it the next deadline. -/
def step (t : Timer) : Event → Timer
  | .wait time => { t with now := t.now + time }
  | .read => { t with deadline := t.deadline + expirations period t * period }
  | .arm => { t with deadline := t.now + period }

/-- One event after the other. -/
def run (t : Timer) (es : List Event) : Timer := es.foldl (step period) t

/-- A condition on the events and the times at which they happen. -/
def Meets (ok : Timer → Event → Prop) : Timer → List Event → Prop
  | _, [] => True
  | t, e :: es => ok t e ∧ Meets ok (step period t e) es

/-- **It is read only when it has expired.** -/
def Ready (t : Timer) (e : Event) : Prop := e = .read → t.deadline ≤ t.now

/-- **It is read before time goes on.** -/
def Prompt (t : Timer) : Event → Prop
  | .wait time => t.now + time ≤ t.deadline
  | _ => True

/-- How often it is read. -/
def reads (es : List Event) : ℕ := es.count .read

variable {period}

/-- A condition along two sequences, one after the other. -/
theorem meets_append {ok : Timer → Event → Prop} {t : Timer} {es es' : List Event} :
    Meets period ok t (es ++ es')
      ↔ Meets period ok t es ∧ Meets period ok (run period t es) es' := by
  induction es generalizing t with
  | nil => exact ⟨fun h => ⟨trivial, h⟩, And.right⟩
  | cons e es ih =>
    show ok t e ∧ Meets period ok (step period t e) (es ++ es') ↔ _
    rw [ih, ← and_assoc]
    rfl

/-- Two conditions along a sequence. -/
theorem Meets.and {ok ok' : Timer → Event → Prop} {t : Timer} {es : List Event}
    (h : Meets period ok t es) (h' : Meets period ok' t es) :
    Meets period (fun t e => ok t e ∧ ok' t e) t es := by
  induction es generalizing t with
  | nil => trivial
  | cons e es ih => exact ⟨⟨h.1, h'.1⟩, ih h.2 h'.2⟩

/-- Where the timer is armed and read, no time goes by. -/
theorem meets_prompt {t : Timer} {es : List Event} (h : ∀ e ∈ es, ∀ time, e ≠ .wait time) :
    Meets period Prompt t es := by
  induction es generalizing t with
  | nil => trivial
  | cons e es ih =>
    refine ⟨?_, ih (fun e' he' => h e' (List.mem_cons_of_mem e he'))⟩
    cases e with
    | wait time => exact absurd rfl (h _ List.mem_cons_self time)
    | read => trivial
    | arm => trivial

theorem reads_append (es es' : List Event) : reads (es ++ es') = reads es + reads es' :=
  List.count_append

theorem reads_cons (e : Event) (es : List Event) :
    reads (e :: es) = reads [e] + reads es := by
  unfold reads
  rw [List.count_cons, List.count_singleton, Nat.add_comm]

/-- Reading an expired timer leaves a deadline that lies ahead, a number of
periods after the one before. -/
theorem deadline_read (hperiod : 0 < period) {t : Timer} (h : t.deadline ≤ t.now) :
    ∃ k, (step period t .read).deadline = t.deadline + (k + 1) * period
      ∧ t.now < (step period t .read).deadline
      ∧ (step period t .read).deadline ≤ t.now + period := by
  refine ⟨(t.now - t.deadline) / period, ?_⟩
  have hexp : (step period t .read).deadline
      = t.deadline + ((t.now - t.deadline) / period + 1) * period := by
    show t.deadline + expirations period t * period = _
    unfold expirations
    rw [if_neg (not_lt.mpr h)]
  have hdiv := Nat.div_add_mod (t.now - t.deadline) period
  have hmod := Nat.mod_lt (t.now - t.deadline) hperiod
  rw [hexp, Nat.add_mul, Nat.one_mul, Nat.mul_comm]
  refine ⟨rfl, ?_, ?_⟩
  · omega
  · omega

/-- **The rate**: from when it was armed, the timer is read no more often than
periods go by, whatever is armed in between. -/
theorem rate (hperiod : 0 < period) {t : Timer} {es : List Event} (n start : ℕ)
    (hdeadline : start + (n + 1) * period ≤ t.deadline) (hnow : start + n * period ≤ t.now)
    (hready : Meets period Ready t es) :
    start + (n + reads es) * period ≤ (run period t es).now := by
  induction es generalizing t n with
  | nil => exact hnow
  | cons e es ih =>
    rw [reads_cons]
    cases e with
    | wait time =>
      have hreads : reads [Event.wait time] = 0 := rfl
      rw [hreads, Nat.zero_add]
      exact ih n hdeadline (Nat.le_trans hnow (Nat.le_add_right _ _)) hready.2
    | arm =>
      have hreads : reads [Event.arm] = 0 := rfl
      rw [hreads, Nat.zero_add]
      refine ih n ?_ hnow hready.2
      show start + (n + 1) * period ≤ t.now + period
      rw [Nat.add_mul, Nat.one_mul]
      omega
    | read =>
      have hreads : reads [Event.read] = 1 := rfl
      have hdue := hready.1 rfl
      obtain ⟨k, hk, -, -⟩ := deadline_read hperiod hdue
      rw [hreads, ← Nat.add_assoc]
      refine ih (n + 1) ?_ (Nat.le_trans hdeadline hdue) hready.2
      rw [hk, Nat.add_mul (n + 1), Nat.add_mul k, Nat.one_mul]
      omega

/-- **A prompt reader** reads once in every period, at the end of it. -/
theorem prompt (hperiod : 0 < period) {t : Timer} {es : List Event} (n start : ℕ)
    (hdeadline : t.deadline = start + (n + 1) * period) (hnow : t.now ≤ t.deadline)
    (hlow : start + n * period ≤ t.now) (harm : Event.arm ∉ es)
    (hready : Meets period (fun t e => Ready t e ∧ Prompt t e) t es) :
    (run period t es).deadline = start + (n + reads es + 1) * period
      ∧ (run period t es).now ≤ (run period t es).deadline
      ∧ start + (n + reads es) * period ≤ (run period t es).now := by
  induction es generalizing t n with
  | nil => exact ⟨hdeadline, hnow, hlow⟩
  | cons e es ih =>
    rw [List.mem_cons, not_or] at harm
    rw [reads_cons]
    obtain ⟨⟨hdue, hprompt⟩, hrest⟩ := hready
    cases e with
    | wait time =>
      have hreads : reads [Event.wait time] = 0 := rfl
      rw [hreads, Nat.zero_add]
      exact ih n hdeadline hprompt (Nat.le_trans hlow (Nat.le_add_right _ _)) harm.2 hrest
    | arm => exact absurd rfl harm.1
    | read =>
      have hreads : reads [Event.read] = 1 := rfl
      -- the time is that of the deadline
      have heq : t.now = t.deadline := Nat.le_antisymm hnow (hdue rfl)
      have hnext : (step period t .read).deadline = start + (n + 1 + 1) * period := by
        have hexp : expirations period t = 1 := by
          unfold expirations
          rw [if_neg (not_lt.mpr (hdue rfl)), heq, Nat.sub_self, Nat.zero_div]
        show t.deadline + expirations period t * period = _
        rw [hexp, hdeadline, Nat.add_mul (n + 1), Nat.one_mul, Nat.add_assoc]
      rw [hreads, ← Nat.add_assoc]
      refine ih (n + 1) hnext ?_ ?_ harm.2 hrest
      · show t.now ≤ (step period t .read).deadline
        rw [hnext, heq, hdeadline, Nat.add_mul (n + 1)]
        omega
      · show start + (n + 1) * period ≤ t.now
        rw [heq, hdeadline]

end PeriodicTimer
