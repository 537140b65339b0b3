import CanBinder.Machine

/-!
# Runs of related machines

Five ways to carry what one step does over to a whole run. A machine seen
through a map of its states and its outputs is another machine, if every step
is (`run_view`, `run_map`): then the two have the same runs, those that end
early included. A machine may answer an input by several inputs of another
machine (`run_bind`), or do something to a part of its state (`run_part`). And
inputs that nobody concerned can see may be left out of a run (`run_filter`):
the states stay related, and the outputs in view are the same. Inputs that do
nothing where they stand may be left out, too (`run_thin`); a memory of the
inputs before says which they are.
-/

namespace Machine

variable {σ τ ε ω : Type} {step : σ → ε → Option (σ × List ω)}
  {step' : τ → ε → Option (τ × List ω)}

/-- The state and the outputs of a step that always answers. -/
theorem eq_of_some {p : σ × List ω} {s : σ} {out : List ω} (h : some p = some (s, out)) :
    s = p.1 ∧ out = p.2 := by
  cases h
  exact ⟨rfl, rfl⟩

/-- A run of two sequences, one after the other. -/
theorem run_append (s : σ) (es es' : List ε) :
    run step s (es ++ es') =
      match run step s es with
      | none => none
      | some (s', outs) => (run step s' es').map (fun r => (r.1, outs ++ r.2)) := by
  induction es generalizing s with
  | nil =>
    rw [List.nil_append, run_nil]
    dsimp only
    cases run step s es' <;> rfl
  | cons e es ih =>
    rw [List.cons_append, run, run]
    cases step s e with
    | none => rfl
    | some r =>
      obtain ⟨s₁, out⟩ := r
      dsimp only
      rw [ih s₁]
      cases run step s₁ es with
      | none => rfl
      | some r₁ =>
        obtain ⟨s₂, out₁⟩ := r₁
        dsimp only
        cases run step s₂ es' with
        | none => rfl
        | some r₂ => exact congrArg (fun l => some (r₂.1, l)) (List.append_assoc _ _ _).symm

/-- Runs that end where the next one begins. -/
theorem run_append_eq_some {s s' s'' : σ} {es es' : List ε} {outs outs' : List ω}
    (h : run step s es = some (s', outs)) (h' : run step s' es' = some (s'', outs')) :
    run step s (es ++ es') = some (s'', outs ++ outs') := by
  rw [run_append, h]
  dsimp only
  rw [h']
  rfl

/-- **Seen through a map of the states and of the outputs**, runs are runs of the
machine the steps are seen as. -/
theorem run_view {κ : Type} {step' : τ → ε → Option (τ × List κ)} (abs : σ → τ) (view : ω → κ)
    (Inv : σ → Prop) {P : ε → Prop}
    (hinv : ∀ s e s' out, Inv s → step s e = some (s', out) → Inv s')
    (hstep : ∀ s e, Inv s → P e →
      (step s e).map (fun r => (abs r.1, r.2.map view)) = step' (abs s) e)
    {s : σ} (h : Inv s) {es : List ε} (hP : ∀ e ∈ es, P e) :
    (run step s es).map (fun r => (abs r.1, r.2.map view)) = run step' (abs s) es := by
  induction es generalizing s with
  | nil => rfl
  | cons e es ih =>
    have hs := hstep s e h (hP e List.mem_cons_self)
    rw [run, run, ← hs]
    cases he : step s e with
    | none => rfl
    | some r =>
      obtain ⟨s₁, out⟩ := r
      have htail := ih (hinv s e s₁ out h he) (fun e' he' => hP e' (List.mem_cons_of_mem e he'))
      dsimp only [Option.map_some]
      rw [← htail]
      cases run step s₁ es with
      | none => rfl
      | some r => exact congrArg (fun l => some (abs r.1, l)) List.map_append

/-- The same where the outputs are seen as they are. -/
theorem run_map (abs : σ → τ) (Inv : σ → Prop)
    (hinv : ∀ s e s' out, Inv s → step s e = some (s', out) → Inv s')
    (hstep : ∀ s e, Inv s → (step s e).map (fun r => (abs r.1, r.2)) = step' (abs s) e)
    {s : σ} (h : Inv s) (es : List ε) :
    (run step s es).map (fun r => (abs r.1, r.2)) = run step' (abs s) es := by
  have hid : ∀ l : List ω, l.map id = l := List.map_id
  have hview : (run step s es).map (fun r => (abs r.1, r.2.map id)) = run step' (abs s) es :=
    run_view (P := fun _ => True) abs id Inv hinv
      (fun s e hs _ => by simpa only [hid] using hstep s e hs) h (fun _ _ => trivial)
  simpa only [hid] using hview

/-- **One input as several of another machine**: the run of one is a run of
the other on the inputs they stand for. -/
theorem run_bind {δ ρ : Type} {mstep : ρ → δ → Option (ρ × List ω)} (abs : ρ → σ)
    (Inv : ρ → Prop)
    (hinv : ∀ r e r' out, Inv r → mstep r e = some (r', out) → Inv r')
    (hstep : ∀ r e r' out, Inv r → mstep r e = some (r', out) →
      ∃ es, run step (abs r) es = some (abs r', out))
    {r r' : ρ} {ds : List δ} {outs : List ω} (h : Inv r)
    (hr : run mstep r ds = some (r', outs)) :
    ∃ es, run step (abs r) es = some (abs r', outs) := by
  induction ds generalizing r outs with
  | nil =>
    cases hr
    exact ⟨[], rfl⟩
  | cons e ds ih =>
    obtain ⟨r₁, out, out', hs, hr', rfl⟩ := run_cons_eq_some.mp hr
    obtain ⟨es, hes⟩ := hstep r e r₁ out h hs
    obtain ⟨es', hes'⟩ := ih (hinv r e r₁ out h hs) hr'
    exact ⟨es ++ es', run_append_eq_some hes hes'⟩

section Part

variable {ρ δ : Type}

/-- What the inputs of a run do to a part of the state. -/
def trace (step : σ → ε → Option (σ × List ω)) (acts : σ → ε → List δ) : σ → List ε → List δ
  | _, [] => []
  | s, e :: es =>
    acts s e ++
      match step s e with
      | none => []
      | some (s', _) => trace step acts s' es

theorem trace_cons {acts : σ → ε → List δ} {s s' : σ} {e : ε} {es : List ε} {out : List ω}
    (h : step s e = some (s', out)) :
    trace step acts s (e :: es) = acts s e ++ trace step acts s' es := by
  rw [trace, h]

/-- **A part of the state** that every input acts on is acted on by the run. -/
theorem run_part {part : σ → ρ} {act : ρ → δ → ρ} {acts : σ → ε → List δ}
    (hstep : ∀ s e s' out, step s e = some (s', out) → part s' = (acts s e).foldl act (part s))
    {s s' : σ} {es : List ε} {outs : List ω} (hr : run step s es = some (s', outs)) :
    part s' = (trace step acts s es).foldl act (part s) := by
  induction es generalizing s outs with
  | nil =>
    cases hr
    rfl
  | cons e es ih =>
    obtain ⟨s₁, out, out', hs, hr', rfl⟩ := run_cons_eq_some.mp hr
    rw [trace_cons hs, List.foldl_append, ← hstep s e s₁ out hs]
    exact ih hr'

end Part

/-- **Inputs out of view.** Where an input that is kept shows the same from
related states, and one that is not kept shows nothing and leaves the states
related, a run without the latter shows the same. -/
theorem run_filter {κ : Type} {R : σ → σ → Prop} {P : ε → Prop} {keep : ε → Bool}
    {view : ω → Option κ}
    (hkeep : ∀ s t e s' out, R s t → P e → keep e = true → step s e = some (s', out) →
      ∃ t' out', step t e = some (t', out') ∧ R s' t'
        ∧ out'.filterMap view = out.filterMap view)
    (hskip : ∀ s t e s' out, R s t → keep e = false → step s e = some (s', out) →
      R s' t ∧ out.filterMap view = [])
    {s t s' : σ} {es : List ε} {outs : List ω} (h : R s t) (hP : ∀ e ∈ es, P e)
    (hr : run step s es = some (s', outs)) :
    ∃ t' outs', run step t (es.filter keep) = some (t', outs') ∧ R s' t'
      ∧ outs'.filterMap view = outs.filterMap view := by
  induction es generalizing s t outs with
  | nil =>
    cases hr
    exact ⟨t, [], rfl, h, rfl⟩
  | cons e es ih =>
    obtain ⟨s₁, out, out', hs, hr', rfl⟩ := run_cons_eq_some.mp hr
    have htail : ∀ e' ∈ es, P e' := fun e' he' => hP e' (List.mem_cons_of_mem e he')
    rw [List.filterMap_append]
    cases hk : keep e with
    | true =>
      obtain ⟨t₁, out₁, ht, hR, hview⟩ := hkeep s t e s₁ out h (hP e List.mem_cons_self) hk hs
      obtain ⟨t', outs', hrun, hR', hview'⟩ := ih hR htail hr'
      refine ⟨t', out₁ ++ outs', ?_, hR', ?_⟩
      · rw [List.filter_cons_of_pos hk]
        exact run_cons_eq_some.mpr ⟨t₁, out₁, outs', ht, hrun, rfl⟩
      · rw [List.filterMap_append, hview, hview']
    | false =>
      obtain ⟨hR, hnil⟩ := hskip s t e s₁ out h hk hs
      obtain ⟨t', outs', hrun, hR', hview'⟩ := ih hR htail hr'
      refine ⟨t', outs', ?_, hR', ?_⟩
      · rw [List.filter_cons_of_neg (by rw [hk]; exact Bool.false_ne_true)]
        exact hrun
      · rw [hnil, List.nil_append, hview']

section Thin

variable {μ : Type} {drop : μ → ε → Bool} {remember : μ → ε → μ}

/-- The inputs that are not dropped. A memory of all inputs so far says which
are. -/
def thin (drop : μ → ε → Bool) (remember : μ → ε → μ) : μ → List ε → List ε
  | _, [] => []
  | m, e :: es =>
    if drop m e then thin drop remember (remember m e) es
    else e :: thin drop remember (remember m e) es

/-- **Inputs without effect** may be left out of a run. -/
theorem run_thin {Inv : μ → σ → Prop} {P : ε → Prop}
    (hinv : ∀ m s e s' out, Inv m s → P e → step s e = some (s', out) → Inv (remember m e) s')
    (hdrop : ∀ m s e, Inv m s → P e → drop m e = true → step s e = some (s, []))
    {m : μ} {s : σ} (h : Inv m s) {es : List ε} (hP : ∀ e ∈ es, P e) :
    run step s (thin drop remember m es) = run step s es := by
  induction es generalizing m s with
  | nil => rfl
  | cons e es ih =>
    have he := hP e List.mem_cons_self
    have htail := fun e' he' => hP e' (List.mem_cons_of_mem e he')
    rw [thin]
    by_cases hd : drop m e = true
    · have hs := hdrop m s e h he hd
      rw [if_pos hd, run, hs]
      dsimp only
      rw [ih (hinv m s e s [] h he hs) htail]
      cases run step s es <;> rfl
    · rw [if_neg hd, run, run]
      cases hs : step s e with
      | none => rfl
      | some r =>
        obtain ⟨s₁, out⟩ := r
        dsimp only
        rw [ih (hinv m s e s₁ out h he hs) htail]

end Thin

end Machine
