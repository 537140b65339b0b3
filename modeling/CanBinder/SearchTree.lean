import Mathlib.Data.List.Sort
import Mathlib.Order.Basic

/-!
# Search trees

The `tsearch` family of the C library keeps a set of pointers ordered by a
comparison of what they point to. The comparison here is that of a key in a
linear order, and a tree is represented by the sequence in which its walk
visits the elements, each of them once (`twalk`): the pointers in increasing
order of their keys. `IsTree` says that a sequence is such a tree.

The key function is a parameter of every operation and not of the type: a
program whose trees hold pointers computes the key by reading its memory,
and the memory may change while the tree does not. `IsTree.congr` is what
carries the order across such a change.
-/

namespace SearchTree

variable {α κ : Type} [LinearOrder κ]

/-- Look an element up by its key. -/
def tfind (key : α → κ) (k : κ) (t : List α) : Option α :=
  t.find? (fun a => key a = k)

/-- **Find or insert.** The element the tree then holds under the key, and
the tree: an element already there is returned and the tree left alone. -/
def tsearch (key : α → κ) (a : α) (t : List α) : α × List α :=
  match tfind key (key a) t with
  | some b => (b, t)
  | none => (a, t.orderedInsert (fun x y => key x ≤ key y) a)

/-- Remove the element under a key. -/
def tdelete (key : α → κ) (k : κ) (t : List α) : List α :=
  t.filter (fun a => key a ≠ k)

/-- The elements in the order in which a walk visits them. -/
def twalk (t : List α) : List α := t

/-- **A tree**: the keys increase strictly along the walk, so no key occurs
twice. -/
def IsTree (key : α → κ) (t : List α) : Prop :=
  t.Pairwise (fun a b => key a < key b)

/-! ## Lookup -/

theorem tfind_eq_none_iff {key : α → κ} {k : κ} {t : List α} :
    tfind key k t = none ↔ ∀ a ∈ t, key a ≠ k := by
  unfold tfind
  rw [List.find?_eq_none]
  simp

theorem mem_of_tfind_eq_some {key : α → κ} {k : κ} {t : List α} {a : α}
    (h : tfind key k t = some a) : a ∈ t :=
  List.mem_of_find?_eq_some h

theorem key_of_tfind_eq_some {key : α → κ} {k : κ} {t : List α} {a : α}
    (h : tfind key k t = some a) : key a = k := by
  have := List.find?_some h
  simpa using this

/-- Two elements of a tree with one key are one element. -/
theorem IsTree.eq_of_key_eq {key : α → κ} {t : List α} (ht : IsTree key t)
    {a b : α} (ha : a ∈ t) (hb : b ∈ t) (h : key a = key b) : a = b := by
  induction t with
  | nil => cases ha
  | cons c t ih =>
    obtain ⟨hc, ht'⟩ := List.pairwise_cons.mp ht
    rcases List.mem_cons.mp ha with rfl | ha'
    · rcases List.mem_cons.mp hb with rfl | hb'
      · rfl
      · exact absurd h (ne_of_lt (hc b hb'))
    · rcases List.mem_cons.mp hb with rfl | hb'
      · exact absurd h.symm (ne_of_lt (hc a ha'))
      · exact ih ht' ha' hb'

/-- **A lookup finds an element exactly when the tree holds it** under the
key. -/
theorem IsTree.tfind_eq_some_iff {key : α → κ} {t : List α}
    (ht : IsTree key t) {k : κ} {a : α} :
    tfind key k t = some a ↔ a ∈ t ∧ key a = k := by
  constructor
  · intro h
    exact ⟨mem_of_tfind_eq_some h, key_of_tfind_eq_some h⟩
  · rintro ⟨ha, hk⟩
    cases hf : tfind key k t with
    | none => exact absurd hk (tfind_eq_none_iff.mp hf a ha)
    | some b =>
      have hb : key b = key a := (key_of_tfind_eq_some hf).trans hk.symm
      rw [ht.eq_of_key_eq (mem_of_tfind_eq_some hf) ha hb]

theorem IsTree.congr {key key' : α → κ} {t : List α} (ht : IsTree key t)
    (h : ∀ a ∈ t, key a = key' a) : IsTree key' t := by
  refine List.Pairwise.imp_of_mem (fun ha hb hab => ?_) ht
  rwa [← h _ ha, ← h _ hb]

theorem isTree_nil (key : α → κ) : IsTree key [] := List.Pairwise.nil

theorem IsTree.nodup_map {key : α → κ} {t : List α} (ht : IsTree key t) :
    (t.map key).Nodup :=
  List.pairwise_map.mpr (List.Pairwise.imp (fun h => ne_of_lt h) ht)

/-! ## Insertion and deletion -/

/-- What an insertion of a new key leaves in the tree. -/
theorem tsearch_of_tfind_none {key : α → κ} {a : α} {t : List α}
    (h : tfind key (key a) t = none) :
    tsearch key a t = (a, t.orderedInsert (fun x y => key x ≤ key y) a) := by
  unfold tsearch
  rw [h]

/-- Inserting under a key the tree has is a lookup. -/
theorem tsearch_of_tfind_some {key : α → κ} {a b : α} {t : List α}
    (h : tfind key (key a) t = some b) : tsearch key a t = (b, t) := by
  unfold tsearch
  rw [h]

theorem mem_tsearch {key : α → κ} {a b : α} {t : List α}
    (h : tfind key (key a) t = none) :
    b ∈ (tsearch key a t).2 ↔ b = a ∨ b ∈ t := by
  rw [tsearch_of_tfind_none h]
  exact List.mem_orderedInsert _

/-- **Insertion keeps the tree a tree.** -/
theorem IsTree.tsearch {key : α → κ} {t : List α} (ht : IsTree key t) (a : α) :
    IsTree key (tsearch key a t).2 := by
  cases hf : tfind key (key a) t with
  | some b => rwa [tsearch_of_tfind_some hf]
  | none =>
    rw [tsearch_of_tfind_none hf]
    have hne := tfind_eq_none_iff.mp hf
    clear hf
    induction t with
    | nil => exact List.pairwise_singleton _ a
    | cons b t ih =>
      obtain ⟨hb, ht'⟩ := List.pairwise_cons.mp ht
      rw [List.orderedInsert_cons]
      split
      · rename_i hab
        have hlt : key a < key b :=
          lt_of_le_of_ne hab (fun h => hne b List.mem_cons_self h.symm)
        refine List.pairwise_cons.mpr ⟨fun c hc => ?_, ht⟩
        rcases List.mem_cons.mp hc with rfl | hc'
        · exact hlt
        · exact hlt.trans (hb c hc')
      · rename_i hab
        refine List.pairwise_cons.mpr ⟨fun c hc => ?_,
          ih ht' (fun c hc => hne c (List.mem_cons_of_mem b hc))⟩
        rcases (List.mem_orderedInsert _).mp hc with rfl | hc'
        · exact lt_of_not_ge hab
        · exact hb c hc'

/-- **Insertion adds its key** and changes no other lookup. -/
theorem tfind_tsearch {key : α → κ} {t : List α} (ht : IsTree key t) {a : α}
    (h : tfind key (key a) t = none) (k : κ) :
    tfind key k (tsearch key a t).2 = if k = key a then some a else tfind key k t := by
  by_cases hk : k = key a
  · rw [if_pos hk]
    exact (ht.tsearch a).tfind_eq_some_iff.mpr ⟨(mem_tsearch h).mpr (Or.inl rfl), hk.symm⟩
  · rw [if_neg hk]
    cases hf : tfind key k t with
    | some b =>
      obtain ⟨hb, hkb⟩ := ht.tfind_eq_some_iff.mp hf
      exact (ht.tsearch a).tfind_eq_some_iff.mpr ⟨(mem_tsearch h).mpr (Or.inr hb), hkb⟩
    | none =>
      refine tfind_eq_none_iff.mpr (fun b hb => ?_)
      rcases (mem_tsearch h).mp hb with rfl | hb
      · exact Ne.symm hk
      · exact tfind_eq_none_iff.mp hf b hb

/-- An insertion of a new key puts one element in. -/
theorem perm_tsearch {key : α → κ} {a : α} {t : List α} (h : tfind key (key a) t = none) :
    (tsearch key a t).2.Perm (a :: t) := by
  rw [tsearch_of_tfind_none h]
  exact List.perm_orderedInsert _ a t

theorem mem_tdelete {key : α → κ} {k : κ} {a : α} {t : List α} :
    a ∈ tdelete key k t ↔ a ∈ t ∧ key a ≠ k := by
  unfold tdelete
  rw [List.mem_filter, decide_eq_true_iff]

theorem IsTree.tdelete {key : α → κ} {t : List α} (ht : IsTree key t) (k : κ) :
    IsTree key (tdelete key k t) :=
  List.Pairwise.filter _ ht

/-- **A deletion takes one element out.** -/
theorem perm_tdelete {key : α → κ} {t : List α} (ht : IsTree key t) {a : α} (ha : a ∈ t) :
    (a :: tdelete key (key a) t).Perm t := by
  have hnot : a ∉ tdelete key (key a) t := fun h => (mem_tdelete.mp h).2 rfl
  have hnodup : t.Nodup := ht.nodup_map.of_map
  refine (List.perm_ext_iff_of_nodup (List.nodup_cons.mpr ⟨hnot, hnodup.filter _⟩) hnodup).mpr
    (fun x => ?_)
  rw [List.mem_cons, mem_tdelete]
  constructor
  · rintro (rfl | ⟨hx, -⟩)
    · exact ha
    · exact hx
  · intro hx
    by_cases hkey : key x = key a
    · exact Or.inl (ht.eq_of_key_eq hx ha hkey)
    · exact Or.inr ⟨hx, hkey⟩

/-- **Deletion removes its key** and changes no other lookup. -/
theorem tfind_tdelete {key : α → κ} {t : List α} (ht : IsTree key t) (k k' : κ) :
    tfind key k' (tdelete key k t) = if k' = k then none else tfind key k' t := by
  by_cases hk : k' = k
  · rw [if_pos hk]
    exact tfind_eq_none_iff.mpr (fun a ha => hk ▸ (mem_tdelete.mp ha).2)
  · rw [if_neg hk]
    cases hf : tfind key k' t with
    | some a =>
      obtain ⟨ha, hka⟩ := ht.tfind_eq_some_iff.mp hf
      exact (ht.tdelete k).tfind_eq_some_iff.mpr
        ⟨mem_tdelete.mpr ⟨ha, fun h => hk (hka.symm.trans h)⟩, hka⟩
    | none =>
      exact tfind_eq_none_iff.mpr
        (fun a ha => tfind_eq_none_iff.mp hf a (mem_tdelete.mp ha).1)

end SearchTree
