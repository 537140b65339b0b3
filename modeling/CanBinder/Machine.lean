import Mathlib.Data.List.Basic

/-!
# Machines and their runs

A machine answers an input with a new state and a list of outputs, or does
not answer at all. `run` feeds it a sequence of inputs and collects the
outputs, and `Meets` says that every input of a sequence satisfies a
condition at the state in which it arrives.

The two induction rules are the ones every safety argument uses:
`run_invariant` for an invariant of the states, and `run_history` for one
that relates the state to the inputs that led there.
-/

namespace Machine

variable {σ ε ω : Type}

/-- **A run**: the inputs one after the other, the outputs collected. -/
def run (step : σ → ε → Option (σ × List ω)) : σ → List ε → Option (σ × List ω)
  | s, [] => some (s, [])
  | s, e :: es =>
    match step s e with
    | none => none
    | some (s', out) =>
      match run step s' es with
      | none => none
      | some (s'', out') => some (s'', out ++ out')

/-- Every input satisfies a condition in the state in which it arrives. -/
def Meets (step : σ → ε → Option (σ × List ω)) (ok : σ → ε → Prop) :
    σ → List ε → Prop
  | _, [] => True
  | s, e :: es => ok s e ∧ ∀ s' out, step s e = some (s', out) → Meets step ok s' es

variable {step : σ → ε → Option (σ × List ω)}

@[simp] theorem run_nil (s : σ) : run step s [] = some (s, []) := rfl

/-- A run of a non-empty sequence is its first step and the run of the
rest. -/
theorem run_cons_eq_some {s s'' : σ} {e : ε} {es : List ε} {outs : List ω} :
    run step s (e :: es) = some (s'', outs)
      ↔ ∃ s' out out', step s e = some (s', out)
          ∧ run step s' es = some (s'', out') ∧ outs = out ++ out' := by
  constructor
  · intro h
    rw [run] at h
    split at h
    · cases h
    · rename_i s' out hs
      split at h
      · cases h
      · rename_i t out' ht
        cases h
        exact ⟨s', out, out', hs, ht, rfl⟩
  · rintro ⟨s', out, out', hs, ht, rfl⟩
    rw [run, hs]
    simp only [ht]

/-- A condition that always holds is met. -/
theorem meets_of_forall {ok : σ → ε → Prop} (h : ∀ s e, ok s e) (s : σ) (es : List ε) :
    Meets step ok s es := by
  induction es generalizing s with
  | nil => exact trivial
  | cons e es ih => exact ⟨h s e, fun s' _ _ => ih s'⟩

/-- A condition on the inputs alone is met along a sequence of such inputs. -/
theorem Meets.and_of_mem {ok : σ → ε → Prop} {P : ε → Prop} {s : σ} {es : List ε}
    (h : Meets step ok s es) (hP : ∀ e ∈ es, P e) :
    Meets step (fun s e => P e ∧ ok s e) s es := by
  induction es generalizing s with
  | nil => exact trivial
  | cons e es ih =>
    exact ⟨⟨hP e List.mem_cons_self, h.1⟩,
      fun s' out hs => ih (h.2 s' out hs) (fun e' he' => hP e' (List.mem_cons_of_mem e he'))⟩

/-- A condition met along a sequence is met along the rest of it. -/
theorem Meets.rest {ok : σ → ε → Prop} {s s' : σ} {es es' : List ε}
    {outs : List ω} (h : Meets step ok s (es ++ es'))
    (hr : run step s es = some (s', outs)) : Meets step ok s' es' := by
  induction es generalizing s outs with
  | nil =>
    cases hr
    exact h
  | cons e es ih =>
    obtain ⟨s₁, out, out', hs, hr', rfl⟩ := run_cons_eq_some.mp hr
    exact ih (h.2 s₁ out hs) hr'

/-- **Invariants of a run**: what every step keeps holds at its end. -/
theorem run_invariant (Inv : σ → Prop) {ok : σ → ε → Prop}
    (hstep : ∀ s e s' out, Inv s → ok s e → step s e = some (s', out) → Inv s')
    {s s' : σ} {es : List ε} {outs : List ω} (h0 : Inv s)
    (hok : Meets step ok s es) (hr : run step s es = some (s', outs)) : Inv s' := by
  induction es generalizing s outs with
  | nil =>
    cases hr
    exact h0
  | cons e es ih =>
    obtain ⟨s₁, out, out', hs, hr', rfl⟩ := run_cons_eq_some.mp hr
    exact ih (hstep s e s₁ out h0 hok.1 hs) (hok.2 s₁ out hs) hr'

/-- Invariants with a history, for a run that continues another. -/
theorem run_history_from (Inv : List ε → List ω → σ → Prop) {ok : σ → ε → Prop}
    (hstep : ∀ past outs s e s' out, Inv past outs s → ok s e →
      step s e = some (s', out) → Inv (past ++ [e]) (outs ++ out) s')
    {past : List ε} {outs₀ : List ω} {s s' : σ} {es : List ε} {outs : List ω}
    (h0 : Inv past outs₀ s) (hok : Meets step ok s es)
    (hr : run step s es = some (s', outs)) : Inv (past ++ es) (outs₀ ++ outs) s' := by
  induction es generalizing s past outs₀ outs with
  | nil =>
    cases hr
    simpa using h0
  | cons e es ih =>
    obtain ⟨s₁, out, out', hs, hr', rfl⟩ := run_cons_eq_some.mp hr
    have h := ih (hstep past outs₀ s e s₁ out h0 hok.1 hs) (hok.2 s₁ out hs) hr'
    rwa [List.append_assoc, List.singleton_append, List.append_assoc] at h

/-- **Invariants with a history**: what relates the state to the inputs and
outputs so far, and is kept by every step, holds at the end of a run. -/
theorem run_history (Inv : List ε → List ω → σ → Prop) {ok : σ → ε → Prop}
    (hstep : ∀ past outs s e s' out, Inv past outs s → ok s e →
      step s e = some (s', out) → Inv (past ++ [e]) (outs ++ out) s')
    {s s' : σ} {es : List ε} {outs : List ω} (h0 : Inv [] [] s) (hok : Meets step ok s es)
    (hr : run step s es = some (s', outs)) : Inv es outs s' :=
  run_history_from Inv hstep h0 hok hr

end Machine
