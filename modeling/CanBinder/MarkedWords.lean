import Mathlib.Data.List.Nodup

/-!
# Words that show where they begin

A code whose words all begin with a mark, and have no mark after it, needs no
separator: a concatenation of its words is cut again wherever a mark stands
(`flatten_inj`), even where one word is a prefix of another. So a selection of
words from a table, written one after the other in the order of the table, can be
told from every other selection (`flatten_filter_iff`).
-/

namespace MarkedWords

variable {α β : Type} {mark : α → Bool}

/-- **A word**: a mark, and nothing that is one after it. -/
def IsWord (mark : α → Bool) : List α → Prop
  | [] => False
  | a :: w => mark a = true ∧ ∀ b ∈ w, mark b = false

instance (mark : α → Bool) (w : List α) : Decidable (IsWord mark w) :=
  match w with
  | [] => inferInstanceAs (Decidable False)
  | a :: w => inferInstanceAs (Decidable (mark a = true ∧ ∀ b ∈ w, mark b = false))

/-- What is left of a text before its first mark. -/
theorem takeWhile_flatten {ws : List (List α)} (hws : ∀ w ∈ ws, IsWord mark w) {w : List α}
    (hw : ∀ b ∈ w, mark b = false) :
    (w ++ ws.flatten).takeWhile (fun a => !mark a) = w := by
  rw [List.takeWhile_append_of_pos (fun b hb => by simp [hw b hb])]
  cases ws with
  | nil => simp
  | cons v ws =>
    cases v with
    | nil => exact absurd (hws [] List.mem_cons_self) id
    | cons a v =>
      have ha : mark a = true := (hws (a :: v) List.mem_cons_self).1
      simp [ha]

/-- **A text is cut into words in one way.** -/
theorem flatten_inj {ws ws' : List (List α)} (hws : ∀ w ∈ ws, IsWord mark w)
    (hws' : ∀ w ∈ ws', IsWord mark w) (h : ws.flatten = ws'.flatten) : ws = ws' := by
  induction ws generalizing ws' with
  | nil =>
    cases ws' with
    | nil => rfl
    | cons w' ws' =>
      cases w' with
      | nil => exact absurd (hws' [] List.mem_cons_self) id
      | cons a w' => simp at h
  | cons w ws ih =>
    have hw := hws w List.mem_cons_self
    have hrest := fun v hv => hws v (List.mem_cons_of_mem _ hv)
    cases ws' with
    | nil =>
      cases w with
      | nil => exact absurd hw id
      | cons a w => simp at h
    | cons w' ws' =>
      have hw' := hws' w' List.mem_cons_self
      have hrest' := fun v hv => hws' v (List.mem_cons_of_mem _ hv)
      cases w with
      | nil => exact absurd hw id
      | cons a w =>
        cases w' with
        | nil => exact absurd hw' id
        | cons a' w' =>
          rw [List.flatten_cons, List.flatten_cons, List.cons_append, List.cons_append] at h
          obtain ⟨rfl, htail⟩ := List.cons.inj h
          -- both first words end at the first mark
          have hhead : w = w' := by
            rw [← takeWhile_flatten hrest hw.2, htail, takeWhile_flatten hrest' hw'.2]
          subst hhead
          rw [ih hrest hrest' (List.append_cancel_left htail)]

/-- Two selections from a list of distinct elements. -/
theorem map_filter_inj {f : β → α} {l : List β} (hnd : (l.map f).Nodup) {p q : β → Bool}
    (h : (l.filter p).map f = (l.filter q).map f) : ∀ b ∈ l, p b = q b := by
  have hmem : ∀ r : β → Bool, ∀ b ∈ l, f b ∈ (l.filter r).map f ↔ r b = true := by
    intro r b hb
    constructor
    · intro hf
      obtain ⟨b', hb', heq⟩ := List.mem_map.mp hf
      obtain ⟨hl, hr⟩ := List.mem_filter.mp hb'
      rwa [List.inj_on_of_nodup_map hnd hl hb heq] at hr
    · exact fun hr => List.mem_map.mpr ⟨b, List.mem_filter.mpr ⟨hb, hr⟩, rfl⟩
  intro b hb
  rw [Bool.eq_iff_iff, ← hmem p b hb, ← hmem q b hb, h]

/-- **The words of a selection tell it from every other.** -/
theorem flatten_filter_iff {word : β → List α} {l : List β}
    (hwords : ∀ b ∈ l, IsWord mark (word b)) (hnd : (l.map word).Nodup) {p q : β → Bool} :
    ((l.filter p).map word).flatten = ((l.filter q).map word).flatten ↔ ∀ b ∈ l, p b = q b := by
  have hsel : ∀ r : β → Bool, ∀ w ∈ (l.filter r).map word, IsWord mark w := by
    intro r w hw
    obtain ⟨b, hb, rfl⟩ := List.mem_map.mp hw
    exact hwords b (List.mem_of_mem_filter hb)
  constructor
  · exact fun h => map_filter_inj hnd (flatten_inj (hsel p) (hsel q) h)
  · exact fun h => by rw [List.filter_congr h]

end MarkedWords
