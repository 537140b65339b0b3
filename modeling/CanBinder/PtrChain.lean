import Mathlib.Data.List.Nodup
import Mathlib.Logic.Function.Basic

/-!
# Chains of pointers

A singly linked list in a memory is a function `next` from addresses to
possibly null pointers, and its head is a possibly null pointer.
`IsChain next p l` says that following `next` from `p` visits exactly the
addresses of `l`, in order, and then meets the null pointer: the chain from
`p` is finite, and `l` is what a loop over it runs through.

A program walks a chain without knowing its length. `walk` does so under a
bound on the number of steps, and `walk_eq` says that a bound no smaller
than the chain visits all of it. A finite chain never meets an address
twice (`IsChain.nodup`), because from any address there is only one way to
go on.
-/

namespace PtrChain

variable {α : Type} {next next' : α → Option α}

/-- **The chain from a pointer**: the addresses met until the null
pointer. -/
def IsChain (next : α → Option α) : Option α → List α → Prop
  | p, [] => p = none
  | p, a :: l => p = some a ∧ IsChain next (next a) l

/-- Follow `next` from a pointer for at most `n` addresses. -/
def walk (next : α → Option α) : ℕ → Option α → List α
  | 0, _ => []
  | _ + 1, none => []
  | n + 1, some a => a :: walk next n (next a)

@[simp] theorem isChain_nil {p : Option α} : IsChain next p [] ↔ p = none := Iff.rfl

@[simp] theorem isChain_cons {p : Option α} {a : α} {l : List α} :
    IsChain next p (a :: l) ↔ p = some a ∧ IsChain next (next a) l := Iff.rfl

/-- **A pointer starts at most one chain.** -/
theorem IsChain.unique {p : Option α} {l l' : List α} (h : IsChain next p l)
    (h' : IsChain next p l') : l = l' := by
  induction l generalizing p l' with
  | nil =>
    obtain rfl := isChain_nil.mp h
    cases l' with
    | nil => rfl
    | cons a l' => exact absurd h'.1 (by simp)
  | cons a l ih =>
    obtain ⟨rfl, hl⟩ := h
    cases l' with
    | nil => exact absurd h' (by simp)
    | cons b l' =>
      obtain ⟨hab, hl'⟩ := h'
      obtain rfl := Option.some.inj hab
      rw [ih hl hl']

/-- **A walk that is long enough visits the whole chain.** -/
theorem walk_eq {p : Option α} {l : List α} (h : IsChain next p l) {n : ℕ}
    (hn : l.length ≤ n) : walk next n p = l := by
  induction l generalizing p n with
  | nil =>
    obtain rfl := isChain_nil.mp h
    cases n <;> rfl
  | cons a l ih =>
    obtain ⟨rfl, hl⟩ := h
    cases n with
    | zero => exact absurd hn (by simp)
    | succ n => rw [walk, ih hl (Nat.le_of_succ_le_succ hn)]

/-- A chain only depends on where its own addresses lead. -/
theorem IsChain.congr {p : Option α} {l : List α} (h : IsChain next p l)
    (heq : ∀ a ∈ l, next a = next' a) : IsChain next' p l := by
  induction l generalizing p with
  | nil => exact h
  | cons a l ih =>
    refine ⟨h.1, ?_⟩
    rw [← heq a List.mem_cons_self]
    exact ih h.2 (fun b hb => heq b (List.mem_cons_of_mem a hb))

/-- The chain from an address of a chain is the rest of it. -/
theorem IsChain.suffix {p : Option α} {l₁ l₂ : List α} {a : α}
    (h : IsChain next p (l₁ ++ a :: l₂)) : IsChain next (some a) (a :: l₂) := by
  induction l₁ generalizing p with
  | nil => exact ⟨rfl, h.2⟩
  | cons b l₁ ih => exact ih h.2

/-- **A finite chain is acyclic**: it meets no address twice. -/
theorem IsChain.nodup {p : Option α} {l : List α} (h : IsChain next p l) :
    l.Nodup := by
  induction l generalizing p with
  | nil => exact List.nodup_nil
  | cons a l ih =>
    refine List.nodup_cons.mpr ⟨fun ha => ?_, ih h.2⟩
    obtain ⟨l₁, l₂, rfl⟩ := List.append_of_mem ha
    -- both the chain and its own suffix start at `a`
    have hwhole : IsChain next (some a) (a :: (l₁ ++ a :: l₂)) := ⟨rfl, h.2⟩
    have hlen := congrArg List.length (hwhole.unique (IsChain.suffix h.2))
    simp at hlen
    omega

/-- **Appending to a chain**: let its last address lead to a new one that
leads nowhere. -/
theorem IsChain.concat {p : Option α} {l : List α} {z c : α}
    (h : IsChain next p (l ++ [z])) (hkeep : ∀ a ∈ l, next' a = next a)
    (hz : next' z = some c) (hc : next' c = none) :
    IsChain next' p (l ++ [z, c]) := by
  induction l generalizing p with
  | nil => exact ⟨h.1, hz, hc⟩
  | cons a l ih =>
    refine ⟨h.1, ?_⟩
    rw [hkeep a List.mem_cons_self]
    exact ih h.2 (fun b hb => hkeep b (List.mem_cons_of_mem a hb))

end PtrChain
