import CanBinder.CanidSearch

/-!
# What a registration leaves behind

`addCANID_dict` compacts the array of a CAN-ID while the property tree already
points into it. The loop is followed here entry by entry. With `pre` the
entries it has dealt with and `rest` the ones to come, `LoopInv` says where
each of them is: the array starts with the entries of `pre` that stay in it
(`heads`), goes on with those of `rest`, unchanged and in order, and the
chain of a name that was new holds exactly the entries of `pre` of that name.
What was registered before is where it was.

An entry stays in the array if it is the first of a new name, or if its name
belongs to another CAN-ID. The second kind is the one `addProperty_dict`
refuses, and the loop leaves it in its slot.
-/

/-- An entry that has no value, no time and no applied entry yet. -/
def CanBit.Pristine (p : CanBit) : Prop :=
  p.applyinfo = none ∧ p.updatetime = ⟨0, 0⟩ ∧ p.curValue = DataContent.zero

namespace Dict

/-- The property tree has an entry of a name. -/
def knows (d : Dict) (name : String) : Bool := (d.getPropertyDict name).isSome

/-- **The entries that stay in the array**: those whose name is foreign, and
of the other names the first of each. -/
def heads (foreign : String → Bool) : List String → List PropDef → List PropDef
  | _, [] => []
  | seen, e :: es =>
    if foreign e.name = true ∨ e.name ∉ seen then e :: heads foreign (e.name :: seen) es
    else heads foreign (e.name :: seen) es

/-- What the last entry adds to the array. -/
theorem heads_concat (foreign : String → Bool) (seen : List String) (pre : List PropDef)
    (e : PropDef) :
    heads foreign seen (pre ++ [e])
      = heads foreign seen pre
        ++ if foreign e.name = true ∨ (e.name ∉ seen ∧ ∀ p ∈ pre, p.name ≠ e.name) then [e]
          else [] := by
  induction pre generalizing seen with
  | nil => simp [heads]
  | cons p pre ih =>
    have hiff : (foreign e.name = true ∨ e.name ∉ p.name :: seen ∧ ∀ q ∈ pre, q.name ≠ e.name)
        ↔ (foreign e.name = true ∨ e.name ∉ seen ∧ ∀ q ∈ p :: pre, q.name ≠ e.name) := by
      simp only [List.mem_cons, not_or, forall_eq_or_imp]
      constructor
      · rintro (h | ⟨⟨h₁, h₂⟩, h₃⟩)
        · exact Or.inl h
        · exact Or.inr ⟨h₂, Ne.symm h₁, h₃⟩
      · rintro (h | ⟨h₂, h₁, h₃⟩)
        · exact Or.inl h
        · exact Or.inr ⟨⟨Ne.symm h₁, h₂⟩, h₃⟩
    simp only [List.cons_append, heads, ih, hiff]
    split_ifs <;> simp

/-- An entry that stays is one of the array. -/
theorem mem_of_mem_heads {foreign : String → Bool} {seen : List String}
    {es : List PropDef} {e : PropDef} (h : e ∈ heads foreign seen es) : e ∈ es := by
  induction es generalizing seen with
  | nil => exact h
  | cons p es ih =>
    rw [heads] at h
    split_ifs at h
    · rcases List.mem_cons.mp h with rfl | h'
      · exact List.mem_cons_self
      · exact List.mem_cons_of_mem _ (ih h')
    · exact List.mem_cons_of_mem _ (ih h)

/-! ## Well-formed data -/

/-- **What holds of the data between registrations.** Both trees are trees;
the property tree points to slots of registered CAN-IDs; a slot in use either
is in the property tree or was refused, because an entry of another CAN-ID
has its name; and every chain is finite, runs through copies, and has one
name, one CAN-ID and one kind. -/
structure WF (d : Dict) : Prop where
  canidTree : SearchTree.IsTree BitVec.toNat d.canidRoot
  propertyTree : SearchTree.IsTree d.name d.propertyRoot
  canid : ∀ c ∈ d.canidRoot, (d.info c).canid = c
  slot : ∀ a ∈ d.propertyRoot,
    ∃ c ∈ d.canidRoot, ∃ i < (d.info c).nData, a = .slot c i
  mycanid : ∀ c ∈ d.canidRoot, ∀ i < (d.info c).nData, (d.mem (.slot c i)).mycanid = c
  kind : ∀ c ∈ d.canidRoot, ∀ i < (d.info c).nData,
    (d.mem (.slot c i)).propertyKind = (d.info c).kind
  resolves : ∀ c ∈ d.canidRoot, ∀ i < (d.info c).nData,
    .slot c i ∈ d.propertyRoot
      ∨ d.next (.slot c i) = none
        ∧ ∃ a ∈ d.propertyRoot, d.name a = d.name (.slot c i) ∧ (d.mem a).mycanid ≠ c
  chains : ∀ a ∈ d.propertyRoot, ∃ l, PtrChain.IsChain d.next (d.next a) l
    ∧ ∀ x ∈ l, (∃ k < d.ncell, x = .cell k) ∧ d.name x = d.name a
      ∧ (d.mem x).mycanid = (d.mem a).mycanid
      ∧ (d.mem x).propertyKind = (d.mem a).propertyKind

/-- **The list of supported properties** is the names of the property tree in
the order in which they were registered, as far as the list has room. -/
def NamesListed (d : Dict) : Prop :=
  ∃ names : List String, names.Nodup
    ∧ (∀ n, n ∈ names ↔ ∃ a ∈ d.propertyRoot, d.name a = n)
    ∧ d.supportPropertyList = names.take SUPPORT_PROPERTY_LIMIT

/-- No property is listed twice. -/
theorem NamesListed.nodup {d : Dict} (h : NamesListed d) : d.supportPropertyList.Nodup := by
  obtain ⟨names, hnd, -, hlist⟩ := h
  rw [hlist]
  exact hnd.sublist (List.take_sublist _ _)

/-- A listed name is one of the property tree. -/
theorem NamesListed.exists_of_mem {d : Dict} (h : NamesListed d) {n : String}
    (hn : n ∈ d.supportPropertyList) : ∃ a ∈ d.propertyRoot, d.name a = n := by
  obtain ⟨names, -, hmem, hlist⟩ := h
  rw [hlist] at hn
  exact (hmem n).mp (List.mem_of_mem_take hn)

/-- Nothing has been received for any entry. -/
def Pristine (d : Dict) : Prop := ∀ a, (d.mem a).Pristine

theorem WF.getPropertyDict_eq_some_iff {d : Dict} (hd : d.WF) {name : String} {a : Addr} :
    d.getPropertyDict name = some a ↔ a ∈ d.propertyRoot ∧ d.name a = name :=
  hd.propertyTree.tfind_eq_some_iff

theorem WF.getCANIDDict_eq_some_iff {d : Dict} (hd : d.WF) {c c' : CanId} :
    d.getCANIDDict c = some c' ↔ c' ∈ d.canidRoot ∧ c' = c := by
  unfold getCANIDDict
  rw [hd.canidTree.tfind_eq_some_iff, BitVec.toNat_inj]

theorem getCANIDDict_eq_none_iff {d : Dict} {c : CanId} :
    d.getCANIDDict c = none ↔ c ∉ d.canidRoot := by
  unfold getCANIDDict
  rw [SearchTree.tfind_eq_none_iff]
  constructor
  · intro h hc
    exact h c hc rfl
  · intro h a ha hac
    exact h (BitVec.toNat_inj.mp hac ▸ ha)

theorem knows_eq_true_iff {d : Dict} {name : String} :
    d.knows name = true ↔ ∃ a ∈ d.propertyRoot, d.name a = name := by
  unfold knows getPropertyDict
  cases h : SearchTree.tfind d.name name d.propertyRoot with
  | none =>
    simp only [Option.isSome_none, Bool.false_eq_true, false_iff, not_exists, not_and]
    exact SearchTree.tfind_eq_none_iff.mp h
  | some a =>
    simp only [Option.isSome_some, true_iff]
    exact ⟨a, SearchTree.mem_of_tfind_eq_some h, SearchTree.key_of_tfind_eq_some h⟩

/-- **The chain a loop over a property visits.** The copies are distinct, so
there are not more of them than were allocated and the walk reaches the
end. -/
theorem chain_eq {d : Dict} {a : Addr} {l : List Addr}
    (h : PtrChain.IsChain d.next (d.next a) l) (hl : ∀ x ∈ l, ∃ k < d.ncell, x = .cell k) :
    d.chain a = a :: l := by
  have hlen : l.length ≤ d.ncell := by
    have hsub : l ⊆ (List.range d.ncell).map Addr.cell := fun x hx => by
      obtain ⟨k, hk, rfl⟩ := hl x hx
      exact List.mem_map_of_mem (List.mem_range.mpr hk)
    have := (List.subperm_of_subset h.nodup hsub).length_le
    rwa [List.length_map, List.length_range] at this
  have hwhole : PtrChain.IsChain d.next (some a) (a :: l) := ⟨rfl, h⟩
  exact PtrChain.walk_eq hwhole (Nat.succ_le_succ hlen)

/-! ## One entry -/

/-- The data after an entry was copied to the end of a chain. -/
def appendCopy (d : Dict) (v a : Addr) : Dict :=
  let cpEntry := Addr.cell d.ncell
  let last := (d.chain v).getLastD v
  let d := { d.setBit cpEntry (d.mem a) with ncell := d.ncell + 1 }
  d.setBit last { d.mem last with next := some cpEntry }

/-- The data after an entry of a new name was put into the tree. -/
def insertProperty (d : Dict) (a : Addr) : Dict :=
  { d with
    propertyRoot := (SearchTree.tsearch d.name a d.propertyRoot).2
    supportPropertyList :=
      if SUPPORT_PROPERTY_LIMIT ≤ d.supportPropertyList.length then d.supportPropertyList
      else d.supportPropertyList ++ [d.name a] }

/-- **The three outcomes of `addProperty_dict`**: a new name, a refusal, a
copy at the end of the chain. -/
theorem addPropertyDict_cases (d : Dict) (a : Addr) :
    (SearchTree.tfind d.name (d.name a) d.propertyRoot = none
        ∧ ∃ ret ≤ (0 : ℤ), d.addPropertyDict a = (d.insertProperty a, ret))
      ∨ (∃ v, SearchTree.tfind d.name (d.name a) d.propertyRoot = some v
          ∧ (d.mem a).mycanid ≠ (d.mem v).mycanid ∧ d.addPropertyDict a = (d, -1))
      ∨ (∃ v, SearchTree.tfind d.name (d.name a) d.propertyRoot = some v
          ∧ (d.mem a).mycanid = (d.mem v).mycanid
          ∧ d.addPropertyDict a = (d.appendCopy v a, 1)) := by
  unfold addPropertyDict insertProperty
  cases h : SearchTree.tfind d.name (d.name a) d.propertyRoot with
  | none =>
    refine Or.inl ⟨rfl, ?_⟩
    dsimp only
    split_ifs
    · exact ⟨-1, by omega, rfl⟩
    · exact ⟨0, le_refl _, rfl⟩
  | some v =>
    refine Or.inr ?_
    dsimp only
    split_ifs with hc
    · exact Or.inl ⟨v, rfl, hc, rfl⟩
    · exact Or.inr ⟨v, rfl, not_not.mp hc, rfl⟩

/-- **The memory after a copy**: the last entry of the chain leads to the
copy, and nothing else is touched. -/
theorem appendCopy_mem {d : Dict} {v a z : Addr} {l : List Addr}
    (hc : d.chain v = l ++ [z]) (hz : z ≠ .cell d.ncell) (x : Addr) :
    (d.appendCopy v a).mem x
      = if x = z then { d.mem z with next := some (.cell d.ncell) }
        else if x = .cell d.ncell then d.mem a else d.mem x := by
  have hlast : (d.chain v).getLastD v = z := by
    rw [hc, List.getLastD_concat]
  unfold appendCopy setBit
  dsimp only
  rw [hlast, Function.update_apply, Function.update_apply, Function.update_apply, if_neg hz]

/-- A copy changes nothing but a link of an entry that was there. -/
theorem appendCopy_of_ne {d : Dict} {v a z : Addr} {l : List Addr}
    (hc : d.chain v = l ++ [z]) (hz : z ≠ .cell d.ncell) {x : Addr}
    (hx : x ≠ .cell d.ncell) :
    ((d.appendCopy v a).mem x).toPropDef = (d.mem x).toPropDef
      ∧ ((d.appendCopy v a).mem x).mycanid = (d.mem x).mycanid := by
  rw [appendCopy_mem hc hz, if_neg hx]
  split_ifs with h
  · subst h
    exact ⟨rfl, rfl⟩
  · exact ⟨rfl, rfl⟩

/-- Where the other entries lead after a copy. -/
theorem appendCopy_next {d : Dict} {v a z : Addr} {l : List Addr}
    (hc : d.chain v = l ++ [z]) (hz : z ≠ .cell d.ncell) {x : Addr} (hx : x ≠ z)
    (hx' : x ≠ .cell d.ncell) : (d.appendCopy v a).next x = d.next x := by
  show ((d.appendCopy v a).mem x).next = (d.mem x).next
  rw [appendCopy_mem hc hz, if_neg hx, if_neg hx']

/-- **The chain that grows**: the copy comes at its end. -/
theorem isChain_appendCopy {d : Dict} {v a : Addr} {l : List Addr}
    (hl : PtrChain.IsChain d.next (d.next v) l) (hc : d.chain v = v :: l)
    (hcell : .cell d.ncell ∉ v :: l) (ha : (d.mem a).next = none) :
    PtrChain.IsChain (d.appendCopy v a).next ((d.appendCopy v a).next v)
      (l ++ [.cell d.ncell]) := by
  obtain ⟨l₁, z, hz⟩ : ∃ l₁ z, v :: l = l₁ ++ [z] :=
    ⟨_, _, (List.dropLast_append_getLast (List.cons_ne_nil _ _)).symm⟩
  have hzne : z ≠ .cell d.ncell := by
    rintro rfl
    rw [hz] at hcell
    exact hcell (List.mem_append_right _ (List.mem_singleton_self _))
  have hmem := appendCopy_mem (a := a) (hc.trans hz) hzne
  have hwhole : PtrChain.IsChain d.next (some v) (l₁ ++ [z]) := by
    rw [← hz]
    exact ⟨rfl, hl⟩
  -- only the last entry leads elsewhere than before, and the copy leads nowhere
  have hgrown : PtrChain.IsChain (d.appendCopy v a).next (some v) (l₁ ++ [z, .cell d.ncell]) := by
    refine hwhole.concat (fun x hx => ?_) ?_ ?_
    · refine appendCopy_next (hc.trans hz) hzne ?_ ?_
      · rintro rfl
        exact (List.nodup_append.mp hwhole.nodup).2.2 x hx x (List.mem_singleton_self x) rfl
      · rintro rfl
        rw [hz] at hcell
        exact hcell (List.mem_append_left _ hx)
    · show ((d.appendCopy v a).mem z).next = _
      rw [hmem, if_pos rfl]
    · show ((d.appendCopy v a).mem _).next = _
      rw [hmem, if_neg hzne.symm, if_pos rfl, ha]
  have hcons : l₁ ++ [z, .cell d.ncell] = v :: (l ++ [.cell d.ncell]) := by
    rw [← List.cons_append, hz, List.append_assoc]
    rfl
  rw [hcons] at hgrown
  exact hgrown.2

/-- A move leaves everything but the slots from the index on. -/
theorem moveSlots_mem_of_ne {d : Dict} {c : CanId} {i m : ℕ} {a : Addr}
    (h : ∀ j, i ≤ j → a ≠ .slot c j) : (d.moveSlots c i m).mem a = d.mem a := by
  unfold moveSlots
  cases a with
  | cell k => rfl
  | slot c' j =>
    dsimp only
    rw [if_neg]
    rintro ⟨rfl, hij, -⟩
    exact h j hij rfl

/-- A move takes every slot from the index on one down. -/
theorem moveSlots_mem_slot {d : Dict} {c : CanId} {i m j : ℕ} (hj : i ≤ j) (hm : j + 1 < m) :
    (d.moveSlots c i m).mem (.slot c j) = d.mem (.slot c (j + 1)) := by
  unfold moveSlots
  dsimp only
  rw [if_pos ⟨rfl, hj, hm⟩]

/-- The loop goes on behind an entry that was not copied. -/
theorem addLoop_of_nonpos {c : CanId} {n : ℕ} {d d' : Dict} {i m : ℕ} {w : Bool} {ret : ℤ}
    (hi : i < m) (h : d.addPropertyDict (.slot c i) = (d', ret)) (hret : ret ≤ 0) :
    addLoop c (n + 1) d i m w = addLoop c n d' (i + 1) m w := by
  rw [addLoop, if_pos hi, h]
  dsimp only
  rw [if_neg (not_lt.mpr hret)]

/-- The loop stays where an entry was copied, and the bound goes down. -/
theorem addLoop_of_pos {c : CanId} {n : ℕ} {d d' : Dict} {i m : ℕ} {w : Bool} {ret : ℤ}
    (hi : i < m) (h : d.addPropertyDict (.slot c i) = (d', ret)) (hret : 0 < ret) :
    addLoop c (n + 1) d i m w
      = addLoop c n (if i < m - 1 then d'.moveSlots c i m else d') i (m - 1) (w || i == 0) := by
  rw [addLoop, if_pos hi, h]
  dsimp only
  rw [if_pos hret]

/-! ## The loop -/

/-- The addresses that were in use before a CAN-ID was installed. -/
def Untouched (d₀ : Dict) (cid : CanId) : Addr → Prop
  | .slot c _ => c ≠ cid
  | .cell k => k < d₀.ncell

/-- **The invariant of the compaction loop** at index `i`, for the data `d₀`
before the registration. -/
structure LoopInv (d₀ : Dict) (cid : CanId) (pre rest : List PropDef) (i : ℕ)
    (d : Dict) : Prop where
  index : (heads d₀.knows [] pre).length = i
  ncell_le : d₀.ncell ≤ d.ncell
  untouched : ∀ a, Untouched d₀ cid a → d.mem a = d₀.mem a
  todo : ∀ j e, rest[j]? = some e → d.mem (.slot cid (i + j)) = fresh cid e
  done : ∀ j < i, (heads d₀.knows [] pre)[j]? = some (d.mem (.slot cid j)).toPropDef
    ∧ (d.mem (.slot cid j)).mycanid = cid
  refused : ∀ j < i, d₀.knows (d.name (.slot cid j)) = true → d.next (.slot cid j) = none
  chained : ∀ j < i, d₀.knows (d.name (.slot cid j)) = false →
    ∃ l, PtrChain.IsChain d.next (d.next (.slot cid j)) l
      ∧ (∀ x ∈ l, (∃ k, d₀.ncell ≤ k ∧ k < d.ncell ∧ x = .cell k) ∧ (d.mem x).mycanid = cid)
      ∧ (.slot cid j :: l).map (fun x => (d.mem x).toPropDef)
        = pre.filter (fun e => e.name = d.name (.slot cid j))
  root : ∀ a, a ∈ d.propertyRoot ↔ a ∈ d₀.propertyRoot
    ∨ ∃ j < i, a = .slot cid j ∧ d₀.knows (d.name (.slot cid j)) = false
  tree : SearchTree.IsTree d.name d.propertyRoot
  known : ∀ e ∈ pre, ∃ a ∈ d.propertyRoot, d.name a = e.name
  listed : NamesListed d

section Loop

variable {d₀ d : Dict} {cid : CanId} {pre rest : List PropDef} {i : ℕ}

/-- The entry the loop is at. -/
theorem LoopInv.current {e : PropDef} (h : LoopInv d₀ cid pre (e :: rest) i d) :
    d.mem (.slot cid i) = fresh cid e :=
  h.todo 0 e rfl

/-- What the old tree points to was in use before. -/
theorem untouched_of_mem (h₀ : d₀.WF) (hnew : cid ∉ d₀.canidRoot) {a : Addr}
    (ha : a ∈ d₀.propertyRoot) : Untouched d₀ cid a := by
  obtain ⟨c, hc, i, -, rfl⟩ := h₀.slot a ha
  exact fun h => hnew (h ▸ hc)

/-- The entries of the old tree are what they were. -/
theorem LoopInv.mem_eq (h : LoopInv d₀ cid pre rest i d) (h₀ : d₀.WF)
    (hnew : cid ∉ d₀.canidRoot) {a : Addr} (ha : a ∈ d₀.propertyRoot) :
    d.mem a = d₀.mem a :=
  h.untouched a (untouched_of_mem h₀ hnew ha)

/-- An entry of the old tree belongs to another CAN-ID. -/
theorem LoopInv.mycanid_ne (h : LoopInv d₀ cid pre rest i d) (h₀ : d₀.WF)
    (hnew : cid ∉ d₀.canidRoot) {a : Addr} (ha : a ∈ d₀.propertyRoot) :
    (d.mem a).mycanid ≠ cid := by
  rw [h.mem_eq h₀ hnew ha]
  obtain ⟨c, hc, i, hi, rfl⟩ := h₀.slot a ha
  rw [h₀.mycanid c hc i hi]
  exact fun hcc => hnew (hcc ▸ hc)

/-- The names of the old tree are in the tree. -/
theorem LoopInv.exists_of_knows (h : LoopInv d₀ cid pre rest i d) (h₀ : d₀.WF)
    (hnew : cid ∉ d₀.canidRoot) {n : String} (hn : d₀.knows n = true) :
    ∃ a ∈ d₀.propertyRoot, a ∈ d.propertyRoot ∧ d.name a = n := by
  obtain ⟨a, ha, rfl⟩ := knows_eq_true_iff.mp hn
  refine ⟨a, ha, (h.root a).mpr (Or.inl ha), ?_⟩
  show (d.mem a).name = (d₀.mem a).name
  rw [h.mem_eq h₀ hnew ha]

/-- The entries an entry of a chain shares its name with. -/
theorem name_of_chained {l : List Addr} {j : ℕ}
    (hl : (.slot cid j :: l).map (fun x => (d.mem x).toPropDef)
      = pre.filter (fun e => e.name = d.name (.slot cid j))) :
    ∀ x ∈ Addr.slot cid j :: l, d.name x = d.name (.slot cid j) := by
  intro x hx
  have hmem : (d.mem x).toPropDef ∈ pre.filter (fun e => e.name = d.name (.slot cid j)) :=
    hl ▸ List.mem_map_of_mem hx
  exact of_decide_eq_true (List.mem_filter.mp hmem).2

/-- The entries to come, after one that stays. -/
theorem LoopInv.todo_succ {e : PropDef} (h : LoopInv d₀ cid pre (e :: rest) i d) :
    ∀ j e', rest[j]? = some e' → d.mem (.slot cid (i + 1 + j)) = fresh cid e' := by
  intro j e' hj
  have := h.todo (j + 1) e' hj
  rwa [show i + (j + 1) = i + 1 + j by omega] at this

/-- The array, after an entry that stays. -/
theorem LoopInv.done_succ {e : PropDef} (h : LoopInv d₀ cid pre (e :: rest) i d)
    (hheads : heads d₀.knows [] (pre ++ [e]) = heads d₀.knows [] pre ++ [e]) :
    ∀ j < i + 1, (heads d₀.knows [] (pre ++ [e]))[j]?
        = some (d.mem (.slot cid j)).toPropDef ∧ (d.mem (.slot cid j)).mycanid = cid := by
  intro j hj
  rw [hheads]
  rcases Nat.lt_succ_iff_lt_or_eq.mp hj with hj | rfl
  · rw [List.getElem?_append_left (by rw [h.index]; exact hj)]
    exact h.done j hj
  · rw [List.getElem?_append_right (by rw [h.index]), h.index, Nat.sub_self, h.current]
    exact ⟨rfl, rfl⟩

/-- The name of the entry the loop is at. -/
theorem LoopInv.current_name {e : PropDef} (h : LoopInv d₀ cid pre (e :: rest) i d) :
    d.name (.slot cid i) = e.name := by
  show (d.mem (.slot cid i)).name = e.name
  rw [h.current]
  rfl

/-- A chain whose name is not that of a new entry stays the chain of its
name. -/
theorem filter_concat_of_ne {e : PropDef} {n : String} (hne : e.name ≠ n) :
    (pre ++ [e]).filter (fun p => p.name = n) = pre.filter (fun p => p.name = n) := by
  rw [List.filter_append, List.filter_singleton, decide_eq_false hne]
  exact List.append_nil _

/-- The listing only depends on the names of the tree. -/
theorem NamesListed.congr {d d' : Dict} (h : NamesListed d)
    (hroot : d'.propertyRoot = d.propertyRoot)
    (hlist : d'.supportPropertyList = d.supportPropertyList)
    (hname : ∀ a ∈ d.propertyRoot, d'.name a = d.name a) : NamesListed d' := by
  obtain ⟨names, hnd, hmem, htake⟩ := h
  refine ⟨names, hnd, fun n => (hmem n).trans ?_, hlist.trans htake⟩
  rw [hroot]
  exact exists_congr (fun a => and_congr_right (fun ha => by rw [hname a ha]))

/-- **The names after a new one.** -/
theorem NamesListed.insertProperty {a : Addr} (h : NamesListed d)
    (hf : SearchTree.tfind d.name (d.name a) d.propertyRoot = none) :
    NamesListed (d.insertProperty a) := by
  obtain ⟨names, hnd, hmem, hlist⟩ := h
  have hnew : d.name a ∉ names := fun hn => by
    obtain ⟨v, hv, hva⟩ := (hmem _).mp hn
    exact SearchTree.tfind_eq_none_iff.mp hf v hv hva
  refine ⟨names ++ [d.name a], ?_, fun n => ?_, ?_⟩
  · refine List.nodup_append.mpr ⟨hnd, List.nodup_singleton _, fun x hx y hy hxy => hnew ?_⟩
    rwa [← List.mem_singleton.mp hy, ← hxy]
  · show n ∈ names ++ [d.name a] ↔ ∃ v ∈ (SearchTree.tsearch d.name a d.propertyRoot).2,
      d.name v = n
    simp only [List.mem_append, List.mem_singleton, hmem, SearchTree.mem_tsearch hf]
    constructor
    · rintro (⟨v, hv, rfl⟩ | rfl)
      · exact ⟨v, Or.inr hv, rfl⟩
      · exact ⟨a, Or.inl rfl, rfl⟩
    · rintro ⟨v, rfl | hv, rfl⟩
      · exact Or.inr rfl
      · exact Or.inl ⟨v, hv, rfl⟩
  · have hlen : d.supportPropertyList.length
        = min SUPPORT_PROPERTY_LIMIT names.length := by
      rw [hlist, List.length_take]
    unfold Dict.insertProperty
    dsimp only
    -- a list that is full has the same names as before
    split_ifs with hfull
    · rw [List.take_append_of_le_length (by omega), hlist]
    · rw [List.take_of_length_le (by rw [List.length_append, List.length_singleton]; omega),
        hlist, List.take_of_length_le (by omega)]

/-- The names of the entries dealt with, and one more. -/
theorem LoopInv.known_concat {e : PropDef} {d' : Dict} (h : LoopInv d₀ cid pre (e :: rest) i d)
    (hold : ∀ a ∈ d.propertyRoot, a ∈ d'.propertyRoot ∧ d'.name a = d.name a)
    (hnew : ∃ a ∈ d'.propertyRoot, d'.name a = e.name) :
    ∀ p ∈ pre ++ [e], ∃ a ∈ d'.propertyRoot, d'.name a = p.name := by
  intro p hp
  rcases List.mem_append.mp hp with hp | hp
  · obtain ⟨a, ha, han⟩ := h.known p hp
    exact ⟨a, (hold a ha).1, (hold a ha).2.trans han⟩
  · obtain rfl := List.mem_singleton.mp hp
    exact hnew

/-- The tree points to the same entries as long as the slots below the index keep
their names. -/
theorem LoopInv.root_congr {d' : Dict} (h : LoopInv d₀ cid pre rest i d)
    (hroot : d'.propertyRoot = d.propertyRoot)
    (hname : ∀ j < i, d'.name (.slot cid j) = d.name (.slot cid j)) (a : Addr) :
    a ∈ d'.propertyRoot ↔ a ∈ d₀.propertyRoot
      ∨ ∃ j < i, a = .slot cid j ∧ d₀.knows (d'.name (.slot cid j)) = false := by
  rw [hroot, h.root]
  refine or_congr_right (exists_congr (fun j => and_congr_right (fun hj =>
    and_congr_right (fun _ => ?_))))
  rw [hname j hj]

/-- **A new name**: the entry stays, and the tree has it. -/
theorem LoopInv.insert {e : PropDef} (h : LoopInv d₀ cid pre (e :: rest) i d) (h₀ : d₀.WF)
    (hnew : cid ∉ d₀.canidRoot)
    (hf : SearchTree.tfind d.name (d.name (.slot cid i)) d.propertyRoot = none) :
    LoopInv d₀ cid (pre ++ [e]) rest (i + 1) (d.insertProperty (.slot cid i)) := by
  have hname := h.current_name
  have hnone : ∀ a ∈ d.propertyRoot, d.name a ≠ e.name := by
    rw [← hname]
    exact SearchTree.tfind_eq_none_iff.mp hf
  have hfor : d₀.knows e.name = false := by
    by_contra hk
    obtain ⟨a, -, ha, han⟩ := h.exists_of_knows h₀ hnew (Bool.not_eq_false _ ▸ hk)
    exact hnone a ha han
  have hpre : ∀ p ∈ pre, p.name ≠ e.name := fun p hp hpe => by
    obtain ⟨a, ha, han⟩ := h.known p hp
    exact hnone a ha (han.trans hpe)
  have hheads : heads d₀.knows [] (pre ++ [e]) = heads d₀.knows [] pre ++ [e] := by
    rw [heads_concat, if_pos (Or.inr ⟨List.not_mem_nil, hpre⟩)]
  have hmemroot : ∀ a, a ∈ (d.insertProperty (.slot cid i)).propertyRoot
      ↔ a = .slot cid i ∨ a ∈ d.propertyRoot := fun a => SearchTree.mem_tsearch hf
  -- a slot below `i + 1` is one from before or the one just inserted
  refine ⟨?_, h.ncell_le, h.untouched, h.todo_succ, h.done_succ hheads, fun j hj hk => ?_,
    fun j hj hk => ?_, fun a => ?_, h.tree.tsearch _,
    h.known_concat (fun a ha => ⟨(hmemroot a).mpr (Or.inr ha), rfl⟩)
      ⟨.slot cid i, (hmemroot _).mpr (Or.inl rfl), hname⟩,
    h.listed.insertProperty hf⟩
  · rw [hheads, List.length_append, h.index]
    rfl
  · change d₀.knows (d.name (.slot cid j)) = true at hk
    rcases Nat.lt_succ_iff_lt_or_eq.mp hj with hj | rfl
    · exact h.refused j hj hk
    · rw [hname, hfor] at hk
      exact absurd hk Bool.false_ne_true
  · change d₀.knows (d.name (.slot cid j)) = false at hk
    rcases Nat.lt_succ_iff_lt_or_eq.mp hj with hj | rfl
    · obtain ⟨l, hl, hcells, hmap⟩ := h.chained j hj hk
      have hne : e.name ≠ d.name (.slot cid j) :=
        (hnone _ ((h.root _).mpr (Or.inr ⟨j, hj, rfl, hk⟩))).symm
      exact ⟨l, hl, hcells, hmap.trans (filter_concat_of_ne hne).symm⟩
    · refine ⟨[], ?_, fun x hx => absurd hx List.not_mem_nil, ?_⟩
      · show (d.mem (.slot cid j)).next = none
        rw [h.current]
        rfl
      · show [(d.mem (.slot cid j)).toPropDef]
          = (pre ++ [e]).filter (fun p => p.name = d.name (.slot cid j))
        have hempty : pre.filter (fun p => p.name = e.name) = [] :=
          List.filter_eq_nil_iff.mpr (fun p hp => by simpa using hpre p hp)
        rw [hname, List.filter_append, hempty, h.current]
        simp [fresh]
  · rw [hmemroot, h.root]
    constructor
    · rintro (rfl | ha | ⟨j, hj, rfl, hk⟩)
      · exact Or.inr ⟨i, Nat.lt_succ_self i, rfl, by
          show d₀.knows (d.name (.slot cid i)) = false
          rw [hname]
          exact hfor⟩
      · exact Or.inl ha
      · exact Or.inr ⟨j, Nat.lt_succ_of_lt hj, rfl, hk⟩
    · rintro (ha | ⟨j, hj, rfl, hk⟩)
      · exact Or.inr (Or.inl ha)
      · rcases Nat.lt_succ_iff_lt_or_eq.mp hj with hj | rfl
        · exact Or.inr (Or.inr ⟨j, hj, rfl, hk⟩)
        · exact Or.inl rfl

/-- **A refusal**: the name belongs to another CAN-ID, and the entry stays
where it is. -/
theorem LoopInv.refuse {e : PropDef} {v : Addr} (h : LoopInv d₀ cid pre (e :: rest) i d)
    (hf : SearchTree.tfind d.name (d.name (.slot cid i)) d.propertyRoot = some v)
    (hc : (d.mem (.slot cid i)).mycanid ≠ (d.mem v).mycanid) (h₀ : d₀.WF)
    (hnew : cid ∉ d₀.canidRoot) :
    LoopInv d₀ cid (pre ++ [e]) rest (i + 1) d := by
  have hname := h.current_name
  obtain ⟨hv, hvn⟩ := h.tree.tfind_eq_some_iff.mp hf
  have hv₀ : v ∈ d₀.propertyRoot := by
    rcases (h.root v).mp hv with hv₀ | ⟨j, hj, rfl, -⟩
    · exact hv₀
    · rw [h.current, (h.done j hj).2] at hc
      exact absurd rfl hc
  have hfor : d₀.knows e.name = true := by
    refine knows_eq_true_iff.mpr ⟨v, hv₀, ?_⟩
    rw [← hname, ← hvn]
    exact congrArg (fun p => p.name) (h.mem_eq h₀ hnew hv₀).symm
  have hheads : heads d₀.knows [] (pre ++ [e]) = heads d₀.knows [] pre ++ [e] := by
    rw [heads_concat, if_pos (Or.inl hfor)]
  refine ⟨?_, h.ncell_le, h.untouched, h.todo_succ, h.done_succ hheads, fun j hj hk => ?_,
    fun j hj hk => ?_, fun a => ?_, h.tree,
    h.known_concat (fun a ha => ⟨ha, rfl⟩) ⟨v, hv, hvn.trans hname⟩, h.listed⟩
  · rw [hheads, List.length_append, h.index]
    rfl
  · rcases Nat.lt_succ_iff_lt_or_eq.mp hj with hj | rfl
    · exact h.refused j hj hk
    · show (d.mem (.slot cid j)).next = none
      rw [h.current]
      rfl
  · rcases Nat.lt_succ_iff_lt_or_eq.mp hj with hj | rfl
    · obtain ⟨l, hl, hcells, hmap⟩ := h.chained j hj hk
      have hne : e.name ≠ d.name (.slot cid j) := fun hen => by
        rw [← hen, hfor] at hk
        exact Bool.false_ne_true hk.symm
      exact ⟨l, hl, hcells, hmap.trans (filter_concat_of_ne hne).symm⟩
    · rw [hname, hfor] at hk
      exact absurd hk.symm Bool.false_ne_true
  · rw [h.root]
    refine or_congr_right ⟨fun ⟨j, hj, ha, hk⟩ => ⟨j, Nat.lt_succ_of_lt hj, ha, hk⟩, ?_⟩
    rintro ⟨j, hj, rfl, hk⟩
    rcases Nat.lt_succ_iff_lt_or_eq.mp hj with hj | rfl
    · exact ⟨j, hj, rfl, hk⟩
    · rw [hname, hfor] at hk
      exact absurd hk.symm Bool.false_ne_true

/-- Where the chain of a name that was new runs. -/
theorem LoopInv.chain_eq {j : ℕ} {l : List Addr}
    (hl : PtrChain.IsChain d.next (d.next (.slot cid j)) l)
    (hcells : ∀ x ∈ l, (∃ k, d₀.ncell ≤ k ∧ k < d.ncell ∧ x = .cell k)
      ∧ (d.mem x).mycanid = cid) :
    d.chain (.slot cid j) = .slot cid j :: l :=
  Dict.chain_eq hl (fun x hx => by
    obtain ⟨⟨k, -, hk, rfl⟩, -⟩ := hcells x hx
    exact ⟨k, hk, rfl⟩)

/-- What a chain holds does not change with an entry that is in none of its
addresses. -/
theorem chained_congr {d' : Dict} {j : ℕ} {l : List Addr} {es : List PropDef}
    (hl : PtrChain.IsChain d.next (d.next (.slot cid j)) l)
    (hcells : ∀ x ∈ l, (∃ k, d₀.ncell ≤ k ∧ k < d.ncell ∧ x = .cell k)
      ∧ (d.mem x).mycanid = cid)
    (hmap : (.slot cid j :: l).map (fun x => (d.mem x).toPropDef) = es)
    (hncell : d.ncell ≤ d'.ncell)
    (hsame : ∀ x ∈ Addr.slot cid j :: l, d'.next x = d.next x
      ∧ (d'.mem x).toPropDef = (d.mem x).toPropDef ∧ (d'.mem x).mycanid = (d.mem x).mycanid) :
    ∃ l, PtrChain.IsChain d'.next (d'.next (.slot cid j)) l
      ∧ (∀ x ∈ l, (∃ k, d₀.ncell ≤ k ∧ k < d'.ncell ∧ x = .cell k)
        ∧ (d'.mem x).mycanid = cid)
      ∧ (.slot cid j :: l).map (fun x => (d'.mem x).toPropDef) = es := by
  refine ⟨l, ?_, fun x hx => ?_, ?_⟩
  · rw [(hsame _ List.mem_cons_self).1]
    exact hl.congr (fun x hx => (hsame x (List.mem_cons_of_mem _ hx)).1.symm)
  · obtain ⟨⟨k, hk₁, hk₂, hxk⟩, hmy⟩ := hcells x hx
    exact ⟨⟨k, hk₁, hk₂.trans_le hncell, hxk⟩,
      (hsame x (List.mem_cons_of_mem _ hx)).2.2.trans hmy⟩
  · rw [← hmap]
    exact List.map_congr_left (fun x hx => (hsame x hx).2.1)

/-- **Where a copy goes**: to the chain of the slot `j` of this CAN-ID, behind
the last entry `z` of it. -/
structure CopyAt (d₀ : Dict) (cid : CanId) (pre : List PropDef) (i : ℕ) (d : Dict)
    (e : PropDef) (j : ℕ) (l : List Addr) (z : Addr) : Prop where
  lt : j < i
  new : d₀.knows (d.name (.slot cid j)) = false
  name_eq : d.name (.slot cid j) = e.name
  isChain : PtrChain.IsChain d.next (d.next (.slot cid j)) l
  cells : ∀ x ∈ l, (∃ k, d₀.ncell ≤ k ∧ k < d.ncell ∧ x = .cell k) ∧ (d.mem x).mycanid = cid
  entries : (.slot cid j :: l).map (fun x => (d.mem x).toPropDef)
    = pre.filter (fun p => p.name = d.name (.slot cid j))
  last : ∃ l₁, Addr.slot cid j :: l = l₁ ++ [z]

/-- The entry found under a name of this CAN-ID is a slot below the index. -/
theorem LoopInv.exists_copyAt {e : PropDef} {v : Addr} (h : LoopInv d₀ cid pre (e :: rest) i d)
    (hf : SearchTree.tfind d.name (d.name (.slot cid i)) d.propertyRoot = some v)
    (hc : (d.mem (.slot cid i)).mycanid = (d.mem v).mycanid) (h₀ : d₀.WF)
    (hnew : cid ∉ d₀.canidRoot) :
    ∃ j l z, v = .slot cid j ∧ CopyAt d₀ cid pre i d e j l z := by
  obtain ⟨hv, hvn⟩ := h.tree.tfind_eq_some_iff.mp hf
  rw [h.current_name] at hvn
  rw [h.current] at hc
  rcases (h.root v).mp hv with hv₀ | ⟨j, hj, rfl, hk⟩
  · exact absurd hc.symm (h.mycanid_ne h₀ hnew hv₀)
  · obtain ⟨l, hl, hcells, hmap⟩ := h.chained j hj hk
    exact ⟨j, l, _, rfl, hj, hk, hvn, hl, hcells, hmap, _,
      (List.dropLast_append_getLast (List.cons_ne_nil _ _)).symm⟩

section CopyAt

variable {e : PropDef} {j : ℕ} {l : List Addr} {z : Addr}

theorem CopyAt.last_mem (h : CopyAt d₀ cid pre i d e j l z) : z ∈ Addr.slot cid j :: l := by
  obtain ⟨l₁, hz⟩ := h.last
  rw [hz]
  exact List.mem_append_right _ (List.mem_singleton_self z)

/-- The last entry is the slot itself or a copy made for this CAN-ID. -/
theorem CopyAt.last_cases (h : CopyAt d₀ cid pre i d e j l z) :
    z = .slot cid j ∨ ∃ k, d₀.ncell ≤ k ∧ k < d.ncell ∧ z = .cell k := by
  rcases List.mem_cons.mp h.last_mem with hz | hz
  · exact Or.inl hz
  · exact Or.inr (h.cells z hz).1

/-- The cell of the copy is not in use. -/
theorem CopyAt.cell_notMem (h : CopyAt d₀ cid pre i d e j l z) :
    Addr.cell d.ncell ∉ Addr.slot cid j :: l := fun hx => by
  rcases List.mem_cons.mp hx with hx | hx
  · exact absurd hx Addr.noConfusion
  · obtain ⟨⟨k, -, hk, hkk⟩, -⟩ := h.cells _ hx
    exact absurd (Addr.cell.inj hkk) (Nat.ne_of_gt hk)

theorem CopyAt.last_ne (h : CopyAt d₀ cid pre i d e j l z) : z ≠ .cell d.ncell :=
  fun hz => h.cell_notMem (hz ▸ h.last_mem)

/-- The last entry is no other slot. -/
theorem CopyAt.slot_ne_last (h : CopyAt d₀ cid pre i d e j l z) {j' : ℕ} (hj : j' ≠ j) :
    Addr.slot cid j' ≠ z := by
  rcases h.last_cases with rfl | ⟨k, -, -, rfl⟩
  · exact fun hs => hj (Addr.slot.inj hs).2
  · exact Addr.noConfusion

theorem CopyAt.chain_eq (h : CopyAt d₀ cid pre i d e j l z) :
    d.chain (.slot cid j) = .slot cid j :: l :=
  LoopInv.chain_eq h.isChain h.cells

/-- What the copy leaves in the memory. -/
theorem CopyAt.mem (h : CopyAt d₀ cid pre i d e j l z) (a x : Addr) :
    (d.appendCopy (.slot cid j) a).mem x
      = if x = z then { d.mem z with next := some (.cell d.ncell) }
        else if x = .cell d.ncell then d.mem a else d.mem x := by
  obtain ⟨l₁, hz⟩ := h.last
  exact appendCopy_mem (h.chain_eq.trans hz) h.last_ne x

/-- The copy changes nothing but a link of an entry that was there. -/
theorem CopyAt.of_ne (h : CopyAt d₀ cid pre i d e j l z) (a : Addr) {x : Addr}
    (hx : x ≠ .cell d.ncell) :
    ((d.appendCopy (.slot cid j) a).mem x).toPropDef = (d.mem x).toPropDef
      ∧ ((d.appendCopy (.slot cid j) a).mem x).mycanid = (d.mem x).mycanid := by
  obtain ⟨l₁, hz⟩ := h.last
  exact appendCopy_of_ne (h.chain_eq.trans hz) h.last_ne hx

theorem CopyAt.name_of_ne (h : CopyAt d₀ cid pre i d e j l z) (a : Addr) {x : Addr}
    (hx : x ≠ .cell d.ncell) : (d.appendCopy (.slot cid j) a).name x = d.name x :=
  congrArg (fun p => p.name) (h.of_ne a hx).1

theorem CopyAt.next_of_ne (h : CopyAt d₀ cid pre i d e j l z) (a : Addr) {x : Addr}
    (hx : x ≠ z) (hx' : x ≠ .cell d.ncell) :
    (d.appendCopy (.slot cid j) a).next x = d.next x := by
  obtain ⟨l₁, hz⟩ := h.last
  exact appendCopy_next (h.chain_eq.trans hz) h.last_ne hx hx'

/-- An entry that is copied does not stay in the array. -/
theorem CopyAt.heads_eq (h : CopyAt d₀ cid pre i d e j l z) :
    heads d₀.knows [] (pre ++ [e]) = heads d₀.knows [] pre := by
  rw [heads_concat, if_neg, List.append_nil]
  rintro (hk | ⟨-, hall⟩)
  · rw [← h.name_eq, h.new] at hk
    exact Bool.false_ne_true hk
  · have hp : (d.mem (.slot cid j)).toPropDef
        ∈ pre.filter (fun p => p.name = d.name (.slot cid j)) :=
      h.entries ▸ List.mem_map_of_mem List.mem_cons_self
    exact hall _ (List.mem_filter.mp hp).1 h.name_eq

/-- **The chain that grows** holds the entry as well. -/
theorem CopyAt.grown (h : CopyAt d₀ cid pre i d e j l z)
    (hinv : LoopInv d₀ cid pre (e :: rest) i d) :
    PtrChain.IsChain (d.appendCopy (.slot cid j) (.slot cid i)).next
        ((d.appendCopy (.slot cid j) (.slot cid i)).next (.slot cid j)) (l ++ [.cell d.ncell])
      ∧ (∀ x ∈ l ++ [Addr.cell d.ncell], (∃ k, d₀.ncell ≤ k ∧ k < d.ncell + 1 ∧ x = .cell k)
        ∧ ((d.appendCopy (.slot cid j) (.slot cid i)).mem x).mycanid = cid)
      ∧ (.slot cid j :: (l ++ [.cell d.ncell])).map
          (fun x => ((d.appendCopy (.slot cid j) (.slot cid i)).mem x).toPropDef)
        = (pre ++ [e]).filter (fun p => p.name = d.name (.slot cid j)) := by
  have hcopy : (d.appendCopy (.slot cid j) (.slot cid i)).mem (.cell d.ncell) = fresh cid e := by
    rw [h.mem, if_neg h.last_ne.symm, if_pos rfl, hinv.current]
  refine ⟨isChain_appendCopy h.isChain h.chain_eq h.cell_notMem (by rw [hinv.current]; rfl),
    fun x hx => ?_, ?_⟩
  · rcases List.mem_append.mp hx with hx | hx
    · obtain ⟨⟨k, hk₁, hk₂, rfl⟩, hmy⟩ := h.cells x hx
      refine ⟨⟨k, hk₁, Nat.lt_succ_of_lt hk₂, rfl⟩, ?_⟩
      rw [(h.of_ne _ (fun hkk => h.cell_notMem (hkk ▸ List.mem_cons_of_mem _ hx))).2, hmy]
    · obtain rfl := List.mem_singleton.mp hx
      refine ⟨⟨d.ncell, hinv.ncell_le, Nat.lt_succ_self _, rfl⟩, ?_⟩
      rw [hcopy]
      rfl
  · rw [← List.cons_append, List.map_append, List.filter_append, List.map_singleton, hcopy,
      List.filter_singleton, decide_eq_true h.name_eq.symm, ← h.entries]
    refine congrArg₂ _ (List.map_congr_left (fun x hx => ?_)) rfl
    exact (h.of_ne _ (fun hxc => h.cell_notMem (hxc ▸ hx))).1

/-- **The chain of another name** is where it was: it has neither the cell of
the copy nor the entry that leads there. -/
theorem CopyAt.notMem_of_name_ne (h : CopyAt d₀ cid pre i d e j l z) {j' : ℕ} {l' : List Addr}
    (hne : d.name (.slot cid j') ≠ e.name)
    (hcells : ∀ x ∈ l', (∃ k, d₀.ncell ≤ k ∧ k < d.ncell ∧ x = .cell k)
      ∧ (d.mem x).mycanid = cid)
    (hmap : (.slot cid j' :: l').map (fun x => (d.mem x).toPropDef)
      = pre.filter (fun p => p.name = d.name (.slot cid j'))) :
    ∀ x ∈ Addr.slot cid j' :: l', x ≠ z ∧ x ≠ .cell d.ncell := by
  refine fun x hx => ⟨?_, ?_⟩
  · rintro rfl
    have hz : d.name x = e.name := (name_of_chained h.entries x h.last_mem).trans h.name_eq
    exact hne ((name_of_chained hmap x hx).symm.trans hz)
  · rintro rfl
    rcases List.mem_cons.mp hx with hx | hx
    · exact absurd hx Addr.noConfusion
    · obtain ⟨⟨k, -, hk, hkk⟩, -⟩ := hcells _ hx
      exact absurd (Addr.cell.inj hkk) (Nat.ne_of_gt hk)

/-- The slot whose chain grows is in the tree. -/
theorem CopyAt.first_mem (h : CopyAt d₀ cid pre i d e j l z)
    (hinv : LoopInv d₀ cid pre (e :: rest) i d) : Addr.slot cid j ∈ d.propertyRoot :=
  (hinv.root _).mpr (Or.inr ⟨j, h.lt, rfl, h.new⟩)

/-- The addresses in use before hold neither the copy nor the end of its chain. -/
theorem CopyAt.mem_of_untouched (h : CopyAt d₀ cid pre i d e j l z)
    (hinv : LoopInv d₀ cid pre (e :: rest) i d) (a : Addr) {x : Addr}
    (hx : Untouched d₀ cid x) : (d.appendCopy (.slot cid j) a).mem x = d.mem x := by
  have hne : x ≠ z := by
    rcases h.last_cases with rfl | ⟨k, hk, -, rfl⟩
    · rintro rfl
      exact hx rfl
    · rintro rfl
      exact absurd hx (Nat.not_lt.mpr hk)
  have hne' : x ≠ .cell d.ncell := by
    rintro rfl
    exact absurd hx (Nat.not_lt.mpr hinv.ncell_le)
  rw [h.mem, if_neg hne, if_neg hne']

/-- **The chains after a copy**: that of the name has grown, and the others are what
they were. -/
theorem CopyAt.chained (h : CopyAt d₀ cid pre i d e j l z)
    (hinv : LoopInv d₀ cid pre (e :: rest) i d) {j' : ℕ} (hj : j' < i)
    (hk : d₀.knows (d.name (.slot cid j')) = false) :
    ∃ l', PtrChain.IsChain (d.appendCopy (.slot cid j) (.slot cid i)).next
        ((d.appendCopy (.slot cid j) (.slot cid i)).next (.slot cid j')) l'
      ∧ (∀ x ∈ l', (∃ k, d₀.ncell ≤ k ∧ k < d.ncell + 1 ∧ x = .cell k)
        ∧ ((d.appendCopy (.slot cid j) (.slot cid i)).mem x).mycanid = cid)
      ∧ (.slot cid j' :: l').map
          (fun x => ((d.appendCopy (.slot cid j) (.slot cid i)).mem x).toPropDef)
        = (pre ++ [e]).filter
          (fun p => p.name = (d.appendCopy (.slot cid j) (.slot cid i)).name (.slot cid j')) := by
  rw [h.name_of_ne _ Addr.noConfusion]
  by_cases hjj : j' = j
  · subst hjj
    exact ⟨_, h.grown hinv⟩
  · obtain ⟨l', hl', hcells', hmap'⟩ := hinv.chained j' hj hk
    have hroot : Addr.slot cid j' ∈ d.propertyRoot :=
      (hinv.root _).mpr (Or.inr ⟨j', hj, rfl, hk⟩)
    -- two slots of the tree have different names
    have hne : d.name (.slot cid j') ≠ e.name := fun hen => hjj (Addr.slot.inj
      (hinv.tree.eq_of_key_eq hroot (h.first_mem hinv) (hen.trans h.name_eq.symm))).2
    have hout := h.notMem_of_name_ne hne hcells' hmap'
    rw [filter_concat_of_ne hne.symm]
    exact chained_congr hl' hcells' hmap' (Nat.le_succ _) (fun x hx =>
      ⟨h.next_of_ne _ (hout x hx).1 (hout x hx).2, h.of_ne _ (hout x hx).2⟩)

end CopyAt

/-- The tree points to slots only. -/
theorem LoopInv.root_ne_cell (h : LoopInv d₀ cid pre rest i d) (h₀ : d₀.WF) {a : Addr}
    (ha : a ∈ d.propertyRoot) {k : ℕ} : a ≠ .cell k := by
  rcases (h.root a).mp ha with ha | ⟨j, -, rfl, -⟩
  · obtain ⟨c, -, j, -, rfl⟩ := h₀.slot a ha
    exact Addr.noConfusion
  · exact Addr.noConfusion

/-- **A copy**: the name is one of this CAN-ID, its chain gets a copy of the
entry, and the entry can be overwritten. -/
theorem LoopInv.copy {e : PropDef} {v : Addr} (h : LoopInv d₀ cid pre (e :: rest) i d)
    (hf : SearchTree.tfind d.name (d.name (.slot cid i)) d.propertyRoot = some v)
    (hc : (d.mem (.slot cid i)).mycanid = (d.mem v).mycanid) (h₀ : d₀.WF)
    (hnew : cid ∉ d₀.canidRoot) :
    0 < i ∧ LoopInv d₀ cid (pre ++ [e]) (e :: rest) i (d.appendCopy v (.slot cid i)) := by
  obtain ⟨j, l, z, rfl, hat⟩ := h.exists_copyAt hf hc h₀ hnew
  have hslot : ∀ j', Addr.slot cid j' ≠ .cell d.ncell := fun _ => Addr.noConfusion
  have hname : ∀ a ∈ d.propertyRoot,
      (d.appendCopy (.slot cid j) (.slot cid i)).name a = d.name a :=
    fun a ha => hat.name_of_ne _ (h.root_ne_cell h₀ ha)
  refine ⟨Nat.zero_lt_of_lt hat.lt, ?_, Nat.le_succ_of_le h.ncell_le,
    fun a ha => (hat.mem_of_untouched h _ ha).trans (h.untouched a ha), fun j' e' hj' => ?_,
    fun j' hj' => ?_, fun j' hj' hk => ?_, fun j' hj' hk => hat.chained h hj' ?_,
    h.root_congr rfl (fun j' _ => hat.name_of_ne _ (hslot j')),
    h.tree.congr (fun a ha => (hname a ha).symm),
    h.known_concat (fun a ha => ⟨ha, hname a ha⟩) ⟨_, hat.first_mem h, ?_⟩,
    h.listed.congr rfl rfl hname⟩
  · rw [hat.heads_eq]
    exact h.index
  · have hlt := hat.lt
    rw [hat.mem, if_neg (hat.slot_ne_last (by omega)), if_neg (hslot _)]
    exact h.todo j' e' hj'
  · rw [hat.heads_eq, (hat.of_ne _ (hslot j')).1, (hat.of_ne _ (hslot j')).2]
    exact h.done j' hj'
  · rw [hat.name_of_ne _ (hslot j')] at hk
    have hne : j' ≠ j := by
      rintro rfl
      rw [hat.new] at hk
      exact Bool.false_ne_true hk
    rw [hat.next_of_ne _ (hat.slot_ne_last hne) (hslot j')]
    exact h.refused j' hj' hk
  · rwa [hat.name_of_ne _ (hslot j')] at hk
  · exact (hname _ (hat.first_mem h)).trans hat.name_eq

/-- **The array is only moved above the index**, where nothing points. -/
theorem LoopInv.moveSlots {e : PropDef} (h : LoopInv d₀ cid pre (e :: rest) i d) (h₀ : d₀.WF)
    (hnew : cid ∉ d₀.canidRoot) :
    LoopInv d₀ cid pre rest i (d.moveSlots cid i (i + rest.length + 1)) := by
  have hsame : ∀ a, (∀ j, i ≤ j → a ≠ .slot cid j) →
      (d.moveSlots cid i (i + rest.length + 1)).mem a = d.mem a :=
    fun a ha => moveSlots_mem_of_ne ha
  have hbelow : ∀ j < i, ∀ j', i ≤ j' → Addr.slot cid j ≠ .slot cid j' := fun j hj j' hj' hjj =>
    absurd (Addr.slot.inj hjj).2 (by omega)
  have hroot : ∀ a ∈ d.propertyRoot, ∀ j, i ≤ j → a ≠ .slot cid j := fun a ha => by
    rcases (h.root a).mp ha with ha | ⟨j, hj, rfl, -⟩
    · rintro j - rfl
      exact untouched_of_mem h₀ hnew ha rfl
    · exact hbelow j hj
  have hname : ∀ a, (∀ j, i ≤ j → a ≠ .slot cid j) →
      (d.moveSlots cid i (i + rest.length + 1)).name a = d.name a :=
    fun a ha => congrArg (fun p => p.name) (hsame a ha)
  have hnext : ∀ a, (∀ j, i ≤ j → a ≠ .slot cid j) →
      (d.moveSlots cid i (i + rest.length + 1)).next a = d.next a :=
    fun a ha => congrArg (fun p => p.next) (hsame a ha)
  refine ⟨h.index, h.ncell_le, fun a ha => ?_, fun j e' hj => ?_, fun j hj => ?_,
    fun j hj hk => ?_, fun j hj hk => ?_,
    h.root_congr rfl (fun j hj => hname _ (hbelow j hj)),
    h.tree.congr (fun a ha => (hname a (hroot a ha)).symm), fun p hp => ?_,
    h.listed.congr rfl rfl (fun a ha => hname a (hroot a ha))⟩
  · rw [hsame a (by rintro j - rfl; exact ha rfl)]
    exact h.untouched a ha
  · have hlen : j < rest.length := (List.getElem?_eq_some_iff.mp hj).1
    rw [moveSlots_mem_slot (by omega) (by omega)]
    exact h.todo (j + 1) e' hj
  · rw [hsame _ (hbelow j hj)]
    exact h.done j hj
  · rw [hname _ (hbelow j hj)] at hk
    rw [hnext _ (hbelow j hj)]
    exact h.refused j hj hk
  · rw [hname _ (hbelow j hj)] at hk ⊢
    obtain ⟨l, hl, hcells, hmap⟩ := h.chained j hj hk
    have hchain : ∀ x ∈ Addr.slot cid j :: l, ∀ j', i ≤ j' → x ≠ .slot cid j' := fun x hx => by
      rcases List.mem_cons.mp hx with rfl | hx
      · exact hbelow j hj
      · obtain ⟨⟨k, -, -, rfl⟩, -⟩ := hcells x hx
        exact fun _ _ => Addr.noConfusion
    exact chained_congr hl hcells hmap le_rfl (fun x hx => ⟨hnext x (hchain x hx),
      congrArg CanBit.toPropDef (hsame x (hchain x hx)),
      congrArg CanBit.mycanid (hsame x (hchain x hx))⟩)
  · obtain ⟨a, ha, han⟩ := h.known p hp
    exact ⟨a, ha, (hname a (hroot a ha)).trans han⟩

/-- **A copy or a move at the end of the array** leaves no entry to come. -/
theorem LoopInv.drop_last {e : PropDef} (h : LoopInv d₀ cid pre [e] i d) :
    LoopInv d₀ cid pre [] i d :=
  { h with todo := fun _ _ hj => absurd hj (by simp) }

/-- **The compaction loop ends**, its index never wraps, and it has dealt
with every entry. -/
theorem LoopInv.addLoop (h : LoopInv d₀ cid pre rest i d) (h₀ : d₀.WF)
    (hnew : cid ∉ d₀.canidRoot) {fuel : ℕ} (hfuel : rest.length < fuel) :
    ∃ d' m, addLoop cid fuel d i (i + rest.length) false = some (d', m, false)
      ∧ LoopInv d₀ cid (pre ++ rest) [] m d' := by
  induction rest generalizing d pre i fuel with
  | nil =>
    obtain ⟨fuel, rfl⟩ : ∃ n, fuel = n + 1 := ⟨fuel - 1, by simp at hfuel; omega⟩
    refine ⟨d, i, ?_, by rwa [List.append_nil]⟩
    rw [Dict.addLoop, if_neg (by simp)]
    rfl
  | cons e rest ih =>
    obtain ⟨fuel, rfl⟩ : ∃ n, fuel = n + 1 := ⟨fuel - 1, by simp at hfuel; omega⟩
    have hlt : rest.length < fuel := by simpa using hfuel
    have hsucc : i + (e :: rest).length = i + 1 + rest.length := by
      rw [List.length_cons]
      omega
    have hi : i < i + (e :: rest).length := by
      rw [List.length_cons]
      omega
    have happ : pre ++ e :: rest = pre ++ [e] ++ rest := by
      rw [List.append_assoc, List.singleton_append]
    rw [happ]
    rcases addPropertyDict_cases d (.slot cid i) with
      ⟨hf, ret, hret, heq⟩ | ⟨v, hf, hc, heq⟩ | ⟨v, hf, hc, heq⟩
    · rw [addLoop_of_nonpos hi heq hret, hsucc]
      exact ih (h.insert h₀ hnew hf) hlt
    · rw [addLoop_of_nonpos hi heq (by decide), hsucc]
      exact ih (h.refuse hf hc h₀ hnew) hlt
    · obtain ⟨hpos, hcopy⟩ := h.copy hf hc h₀ hnew
      -- a name of this CAN-ID has a slot before, so the index is not zero
      have hwrap : (false || i == 0) = false := by
        rw [Bool.false_or, beq_eq_false_iff_ne]
        exact Nat.ne_of_gt hpos
      rw [addLoop_of_pos hi heq (by decide), hwrap, List.length_cons, ← Nat.add_assoc,
        Nat.add_sub_cancel]
      split_ifs with hmove
      · exact ih (hcopy.moveSlots h₀ hnew) hlt
      · obtain rfl : rest = [] := List.eq_nil_of_length_eq_zero (by omega)
        exact ih hcopy.drop_last hlt

end Loop

end Dict
