import Mathlib.Data.Finset.Basic

/-!
# Topics that come and go

A broker keeps the topics that are open, each with the set of parties that
joined it. A topic is opened at the latest when somebody joins it, and closed
by a publication that reaches nobody. Parties join, leave and publish in any
order.

What a party sees of this is membership, and membership is simpler than the
broker: opening a topic makes nobody a member, publishing changes nobody's
membership although it may close the topic, and joining and leaving change
the membership of one party in one topic.
-/

variable {κ γ : Type} [DecidableEq κ] [DecidableEq γ]

/-- **The open topics**, each with its members. -/
abbrev Topics (κ γ : Type) := κ → Option (Finset γ)

namespace Topics

/-- No topic is open. -/
def empty : Topics κ γ := fun _ => none

/-- The party is a member of the topic, which is open. -/
def Member (t : Topics κ γ) (c : γ) (k : κ) : Prop := ∃ s, t k = some s ∧ c ∈ s

/-- Open a topic, without members, unless it is open. -/
def opened (t : Topics κ γ) (k : κ) : Topics κ γ :=
  Function.update t k (some ((t k).getD ∅))

/-- A party joins an open topic. -/
def join (t : Topics κ γ) (c : γ) (k : κ) : Topics κ γ :=
  Function.update t k ((t k).map (insert c))

/-- A party leaves a topic. -/
def leave (t : Topics κ γ) (c : γ) (k : κ) : Topics κ γ :=
  Function.update t k ((t k).map (Finset.erase · c))

/-- A publication closes a topic that has no members. -/
def publish (t : Topics κ γ) (k : κ) : Topics κ γ :=
  if t k = some ∅ then Function.update t k none else t

variable {t : Topics κ γ} {c c' : γ} {k k' : κ}

omit [DecidableEq κ] [DecidableEq γ] in
theorem not_member_empty : ¬Member (empty : Topics κ γ) c k := fun ⟨_, h, _⟩ => by cases h

omit [DecidableEq γ] in
/-- **Opening a topic makes nobody a member.** -/
theorem member_opened : (t.opened k).Member c' k' ↔ t.Member c' k' := by
  unfold Member opened
  by_cases hk : k' = k
  · subst hk
    rw [Function.update_self]
    cases t k' <;> simp
  · rw [Function.update_of_ne hk]

omit [DecidableEq γ] in
theorem isSome_opened : (t.opened k k').isSome ↔ k' = k ∨ (t k').isSome := by
  unfold opened
  by_cases hk : k' = k
  · subst hk
    simp
  · rw [Function.update_of_ne hk]
    simp [hk]

/-- **Joining makes one party a member of one topic.** -/
theorem member_join :
    (t.join c k).Member c' k' ↔ t.Member c' k' ∨ c' = c ∧ k' = k ∧ (t k).isSome := by
  unfold Member join
  by_cases hk : k' = k
  · subst hk
    rw [Function.update_self]
    cases t k' with
    | none => simp
    | some s => simp [or_comm]
  · rw [Function.update_of_ne hk]
    simp [hk]

theorem isSome_join : (t.join c k k').isSome ↔ (t k').isSome := by
  unfold join
  by_cases hk : k' = k
  · subst hk
    simp
  · rw [Function.update_of_ne hk]

/-- **Leaving takes one party out of one topic.** -/
theorem member_leave :
    (t.leave c k).Member c' k' ↔ t.Member c' k' ∧ ¬(c' = c ∧ k' = k) := by
  unfold Member leave
  by_cases hk : k' = k
  · subst hk
    rw [Function.update_self]
    cases t k' with
    | none => simp
    | some s => simp [and_comm]
  · rw [Function.update_of_ne hk]
    simp [hk]

theorem isSome_leave : (t.leave c k k').isSome ↔ (t k').isSome := by
  unfold leave
  by_cases hk : k' = k
  · subst hk
    simp
  · rw [Function.update_of_ne hk]

/-- **Publishing changes nobody's membership**: a topic it closes has no
members. -/
theorem member_publish : (t.publish k).Member c' k' ↔ t.Member c' k' := by
  unfold Member publish
  split_ifs with hempty
  · by_cases hk : k' = k
    · subst hk
      rw [Function.update_self, hempty]
      simp
    · rw [Function.update_of_ne hk]
  · exact Iff.rfl

end Topics
