import CanBinder.Loaded

/-!
# The array of a registered CAN-ID

What the compaction of `addCANID_dict` comes to, seen from outside. The array
is cut down to its heads, each entry of the definition is in exactly one
chain, and no name of the dictionary loses its entry, although the array is
moved while the dictionary points into it.

Every chain is the group of the entries of one name, except that an entry
whose name is foreign is a group by itself. That the groups of the heads
make up the whole array (`heads_flatMap_perm`) is a fact about lists; the
invariant of the loop does the rest.
-/

namespace Dict

/-! ## Groups of entries -/

/-- The entries of the array that belong to a head. -/
def group (foreign : String → Bool) (es : List PropDef) (h : PropDef) : List PropDef :=
  if foreign h.name = true then [h] else es.filter (fun e => e.name = h.name)

/-- A head is foreign, or of a name not seen before. -/
theorem of_mem_heads {foreign : String → Bool} {seen : List String} {es : List PropDef}
    {h : PropDef} (hh : h ∈ heads foreign seen es) :
    foreign h.name = true ∨ h.name ∉ seen := by
  induction es generalizing seen with
  | nil => exact absurd hh List.not_mem_nil
  | cons e es ih =>
    rw [heads] at hh
    split_ifs at hh with he
    · rcases List.mem_cons.mp hh with rfl | hh
      · exact he
      · exact (ih hh).imp_right (fun hs hm => hs (List.mem_cons_of_mem _ hm))
    · exact (ih hh).imp_right (fun hs hm => hs (List.mem_cons_of_mem _ hm))

/-- An entry leaves the groups of the other names alone. -/
theorem group_cons_of_ne {foreign : String → Bool} {es : List PropDef} {e h : PropDef}
    (hne : foreign h.name = true ∨ e.name ≠ h.name) :
    group foreign (e :: es) h = group foreign es h := by
  unfold group
  split_ifs with hf
  · rfl
  · rw [List.filter_cons_of_neg]
    simpa using hne.resolve_left hf

/-- An entry makes one more name seen, which only matters to its own
group. -/
theorem filter_seen_cons {foreign : String → Bool} {seen : List String} {n : String}
    (hn : foreign n = true ∨ n ∈ seen) (es : List PropDef) :
    es.filter (fun p => foreign p.name = true ∨ p.name ∉ n :: seen)
      = es.filter (fun p => foreign p.name = true ∨ p.name ∉ seen) := by
  refine List.filter_congr (fun p _ => decide_eq_decide.mpr ?_)
  refine ⟨Or.imp_right (fun hs hm => hs (List.mem_cons_of_mem _ hm)), fun h => ?_⟩
  by_cases hpn : p.name = n
  · rcases hn with hf | hs
    · exact Or.inl (hpn ▸ hf)
    · exact h.imp_right (fun hs' => absurd (hpn ▸ hs) hs')
  · exact h.imp_right (fun hs hm => (List.mem_cons.mp hm).elim hpn hs)

/-- The group of a new name and the entries behind it. -/
theorem filter_group_perm {foreign : String → Bool} {seen : List String} {n : String}
    (hf : foreign n = false) (hs : n ∉ seen) (es : List PropDef) :
    (es.filter (fun p => p.name = n)
        ++ es.filter (fun p => foreign p.name = true ∨ p.name ∉ n :: seen)).Perm
      (es.filter (fun p => foreign p.name = true ∨ p.name ∉ seen)) := by
  have hown : es.filter (fun p => p.name = n)
      = (es.filter (fun p => foreign p.name = true ∨ p.name ∉ seen)).filter
          (fun p => p.name = n) := by
    rw [List.filter_filter]
    refine List.filter_congr (fun p _ => ?_)
    by_cases hpn : p.name = n
    · simp [hpn, hs]
    · simp [hpn]
  have hother : es.filter (fun p => foreign p.name = true ∨ p.name ∉ n :: seen)
      = (es.filter (fun p => foreign p.name = true ∨ p.name ∉ seen)).filter
          (fun p => !decide (p.name = n)) := by
    rw [List.filter_filter]
    refine List.filter_congr (fun p _ => ?_)
    by_cases hpn : p.name = n
    · simp [hpn, hf]
    · simp [hpn]
  rw [hown, hother]
  exact List.filter_append_perm _ _

/-- **The groups of the heads make up the array.** The heads are collected
behind names seen before, so what their groups make up is the entries that
are foreign or of other names. -/
theorem heads_flatMap_perm (foreign : String → Bool) (seen : List String)
    (es : List PropDef) :
    ((heads foreign seen es).flatMap (group foreign es)).Perm
      (es.filter (fun e => foreign e.name = true ∨ e.name ∉ seen)) := by
  induction es generalizing seen with
  | nil => exact List.Perm.refl _
  | cons e es ih =>
    -- the heads behind `e` have the groups they have without it
    have hrest : ((heads foreign (e.name :: seen) es).flatMap (group foreign (e :: es))).Perm
        (es.filter (fun p => foreign p.name = true ∨ p.name ∉ e.name :: seen)) := by
      refine List.Perm.trans (List.Perm.of_eq ?_) (ih (e.name :: seen))
      refine List.flatMap_congr (fun h hh => group_cons_of_ne ?_)
      refine (of_mem_heads hh).imp_right (fun hn hen => hn ?_)
      rw [hen]
      exact List.mem_cons_self
    rw [heads]
    by_cases hf : foreign e.name = true
    · rw [if_pos (Or.inl hf), List.flatMap_cons, List.filter_cons_of_pos (by simp [hf])]
      rw [filter_seen_cons (Or.inl hf)] at hrest
      unfold group at hrest ⊢
      rw [if_pos hf]
      exact hrest.cons e
    · by_cases hs : e.name ∈ seen
      · rw [if_neg (by simp [hf, hs]), List.filter_cons_of_neg (by simp [hf, hs])]
        rwa [filter_seen_cons (Or.inr hs)] at hrest
      · rw [if_pos (Or.inr hs), List.flatMap_cons, List.filter_cons_of_pos (by simp [hs])]
        have hown : group foreign (e :: es) e = e :: es.filter (fun p => p.name = e.name) := by
          unfold group
          rw [if_neg hf, List.filter_cons_of_pos (by simp)]
        rw [hown, List.cons_append]
        refine List.Perm.cons e ?_
        exact (List.Perm.append_left _ hrest).trans
          (filter_group_perm (Bool.not_eq_true _ ▸ hf) hs es)

/-! ## The registered array -/

/-- **What a registration leaves of an array**, in the data `d'` after the
CAN-ID `c` was registered in `d`. -/
structure Compacted (d : Dict) (c : CanidDef) (d' : Dict) : Prop where
  /-- The slots in use hold the heads, in the order of the definition. -/
  slots : (List.range (d'.info c.info.canid).nData).map
      (fun i => (d'.mem (.slot c.info.canid i)).toPropDef) = heads d.knows [] c.property
  /-- From a slot a finite chain runs through the group of its entry, in the
  order of the definition. -/
  chain : ∀ i < (d'.info c.info.canid).nData,
    PtrChain.IsChain d'.next (some (.slot c.info.canid i)) (d'.chain (.slot c.info.canid i))
      ∧ (d'.chain (.slot c.info.canid i)).map (fun x => (d'.mem x).toPropDef)
        = group d.knows c.property (d'.mem (.slot c.info.canid i)).toPropDef
  /-- Every entry of the definition is in one chain, once. -/
  once : (((List.range (d'.info c.info.canid).nData).flatMap
      (fun i => d'.chain (.slot c.info.canid i))).map (fun x => (d'.mem x).toPropDef)).Perm
    c.property
  /-- No object is in two chains. -/
  nodup : ((List.range (d'.info c.info.canid).nData).flatMap
    (fun i => d'.chain (.slot c.info.canid i))).Nodup
  /-- The entries are entries of the CAN-ID. -/
  owner : ∀ i < (d'.info c.info.canid).nData, ∀ x ∈ d'.chain (.slot c.info.canid i),
    (d'.mem x).mycanid = c.info.canid
  /-- The names that were there resolve as they did, to untouched entries. -/
  kept : ∀ n a, d.getPropertyDict n = some a →
    d'.getPropertyDict n = some a ∧ d'.mem a = d.mem a
  /-- A new name resolves to the slot of its first entry. -/
  new : ∀ n, d.knows n = false → (∃ e ∈ c.property, e.name = n) →
    ∃ i < (d'.info c.info.canid).nData, d'.getPropertyDict n = some (.slot c.info.canid i)
      ∧ d'.name (.slot c.info.canid i) = n
  /-- There are no other names, and every entry the dictionary points to
  resolves by the name it bears. -/
  resolves : (∀ n, d'.knows n = true ↔ d.knows n = true ∨ ∃ e ∈ c.property, e.name = n)
    ∧ ∀ a ∈ d'.propertyRoot, d'.getPropertyDict (d'.name a) = some a

section Compacted

variable {d d₁ : Dict} {cid : CanId} {es : List PropDef} {m : ℕ}

/-- **The chain from a slot in use**, when the loop is over. -/
theorem LoopInv.chain_slot (h : LoopInv d cid es [] m d₁) {i : ℕ} (hi : i < m) :
    ∃ l, d₁.chain (.slot cid i) = .slot cid i :: l
      ∧ PtrChain.IsChain d₁.next (some (.slot cid i)) (.slot cid i :: l)
      ∧ (∀ x ∈ l, (∃ k, x = .cell k) ∧ d₁.name x = d₁.name (.slot cid i)
        ∧ .slot cid i ∈ d₁.propertyRoot)
      ∧ (∀ x ∈ Addr.slot cid i :: l, (d₁.mem x).mycanid = cid)
      ∧ (.slot cid i :: l).map (fun x => (d₁.mem x).toPropDef)
        = group d.knows es (d₁.mem (.slot cid i)).toPropDef := by
  have hmy := (h.done i hi).2
  cases hk : d.knows (d₁.name (.slot cid i)) with
  | true =>
    have hl : PtrChain.IsChain d₁.next (d₁.next (.slot cid i)) [] := h.refused i hi hk
    refine ⟨[], Dict.chain_eq hl (fun x hx => absurd hx List.not_mem_nil), ⟨rfl, hl⟩,
      fun x hx => absurd hx List.not_mem_nil, fun x hx => ?_, ?_⟩
    · rw [List.mem_singleton.mp hx, hmy]
    · exact (if_pos hk).symm
  | false =>
    obtain ⟨l, hl, hcells, hmap⟩ := h.chained i hi hk
    refine ⟨l, LoopInv.chain_eq hl hcells, ⟨rfl, hl⟩, fun x hx => ?_, fun x hx => ?_, ?_⟩
    · obtain ⟨⟨k, -, -, rfl⟩, -⟩ := hcells x hx
      exact ⟨⟨k, rfl⟩, name_of_chained hmap _ (List.mem_cons_of_mem _ hx),
        (h.root _).mpr (Or.inr ⟨i, hi, rfl, hk⟩)⟩
    · rcases List.mem_cons.mp hx with rfl | hx
      · exact hmy
      · exact (hcells x hx).2
    · have hneg : ¬d.knows (d₁.mem (.slot cid i)).name = true := fun ht =>
        Bool.false_ne_true (hk.symm.trans ht)
      unfold group
      rw [if_neg hneg]
      exact hmap

/-- The chains of two slots have no object in common. -/
theorem LoopInv.chain_disjoint (h : LoopInv d cid es [] m d₁) {i j : ℕ} (hi : i < m)
    (hj : j < m) (hij : i ≠ j) :
    List.Disjoint (d₁.chain (.slot cid i)) (d₁.chain (.slot cid j)) := by
  obtain ⟨l, hl, -, hcells, -, -⟩ := h.chain_slot hi
  obtain ⟨l', hl', -, hcells', -, -⟩ := h.chain_slot hj
  rw [hl, hl']
  intro x hx hx'
  rcases List.mem_cons.mp hx with rfl | hx
  · rcases List.mem_cons.mp hx' with hx' | hx'
    · exact hij (Addr.slot.inj hx').2
    · obtain ⟨⟨k, hk⟩, -⟩ := hcells' _ hx'
      exact Addr.noConfusion hk
  · obtain ⟨⟨k, rfl⟩, hn, hr⟩ := hcells x hx
    rcases List.mem_cons.mp hx' with hx' | hx'
    · exact Addr.noConfusion hx'
    · -- a copy has the name of both slots, and a name has one slot
      obtain ⟨-, hn', hr'⟩ := hcells' _ hx'
      exact hij (Addr.slot.inj (h.tree.eq_of_key_eq hr hr' (hn.symm.trans hn'))).2

/-- The slots in use hold the heads. -/
theorem LoopInv.slots_eq (h : LoopInv d cid es [] m d₁) :
    (List.range m).map (fun i => (d₁.mem (.slot cid i)).toPropDef) = heads d.knows [] es := by
  refine List.ext_getElem? (fun i => ?_)
  by_cases hi : i < m
  · rw [(h.done i hi).1, List.getElem?_map, List.getElem?_range hi]
    rfl
  · rw [List.getElem?_eq_none (by rw [List.length_map, List.length_range]; omega),
      List.getElem?_eq_none (by rw [h.index]; omega)]

/-- **The names the loop has dealt with.** -/
theorem LoopInv.knows_iff {rest : List PropDef} (h : LoopInv d cid es rest m d₁) (hd : d.WF)
    (hnew : cid ∉ d.canidRoot) (n : String) :
    d₁.knows n = true ↔ d.knows n = true ∨ ∃ e ∈ es, e.name = n := by
  constructor
  · intro hn
    obtain ⟨a, ha, rfl⟩ := knows_eq_true_iff.mp hn
    rcases (h.root a).mp ha with ha | ⟨j, hj, rfl, -⟩
    · refine Or.inl (knows_eq_true_iff.mpr ⟨a, ha, ?_⟩)
      exact congrArg (fun p => p.name) (h.mem_eq hd hnew ha).symm
    · exact Or.inr ⟨_, mem_of_mem_heads (List.mem_of_getElem? (h.done j hj).1), rfl⟩
  · rintro (hn | ⟨e, he, rfl⟩)
    · obtain ⟨a, -, ha, han⟩ := h.exists_of_knows hd hnew hn
      exact knows_eq_true_iff.mpr ⟨a, ha, han⟩
    · exact knows_eq_true_iff.mpr (h.known e he)

/-- **What the invariant says when the loop is over.** -/
theorem LoopInv.compacted {c : CanidDef} (hd : d.WF) (hd₁ : d₁.WF)
    (hnew : c.info.canid ∉ d.canidRoot)
    (h : LoopInv d c.info.canid c.property [] (d₁.info c.info.canid).nData d₁) :
    Compacted d c d₁ where
  slots := h.slots_eq
  chain i hi := by
    obtain ⟨l, hl, hchain, -, -, hmap⟩ := h.chain_slot hi
    rw [hl]
    exact ⟨hchain, hmap⟩
  once := by
    have hgroups : ((List.range (d₁.info c.info.canid).nData).flatMap
        (fun i => d₁.chain (.slot c.info.canid i))).map (fun x => (d₁.mem x).toPropDef)
        = (heads d.knows [] c.property).flatMap (group d.knows c.property) := by
      rw [List.map_flatMap, ← h.slots_eq, List.flatMap_map]
      refine List.flatMap_congr (fun i hi => ?_)
      obtain ⟨l, hl, -, -, -, hmap⟩ := h.chain_slot (List.mem_range.mp hi)
      rw [hl]
      exact hmap
    rw [hgroups]
    refine (heads_flatMap_perm d.knows [] c.property).trans (List.Perm.of_eq ?_)
    exact List.filter_eq_self.mpr (fun e _ => by simp)
  nodup := by
    refine List.nodup_flatMap.mpr ⟨fun i hi => ?_, ?_⟩
    · obtain ⟨l, hl, hchain, -⟩ := h.chain_slot (List.mem_range.mp hi)
      rw [hl]
      exact hchain.nodup
    · refine List.Pairwise.imp_of_mem (fun hi hj hij => ?_) List.nodup_range
      exact h.chain_disjoint (List.mem_range.mp hi) (List.mem_range.mp hj) hij
  owner i hi x hx := by
    obtain ⟨l, hl, -, -, hmy, -⟩ := h.chain_slot hi
    exact hmy x (hl ▸ hx)
  kept n a ha := by
    obtain ⟨ha₀, rfl⟩ := hd.getPropertyDict_eq_some_iff.mp ha
    have heq := h.mem_eq hd hnew ha₀
    refine ⟨hd₁.getPropertyDict_eq_some_iff.mpr ⟨(h.root a).mpr (Or.inl ha₀), ?_⟩, heq⟩
    exact congrArg (fun p => p.name) heq
  new n hn he := by
    obtain ⟨a, ha, rfl⟩ := knows_eq_true_iff.mp ((h.knows_iff hd hnew n).mpr (Or.inr he))
    rcases (h.root a).mp ha with ha₀ | ⟨i, hi, rfl, -⟩
    · have hk : d.knows (d₁.name a) = true :=
        knows_eq_true_iff.mpr ⟨a, ha₀, congrArg (fun p => p.name) (h.mem_eq hd hnew ha₀).symm⟩
      exact absurd (hn.symm.trans hk) Bool.false_ne_true
    · exact ⟨i, hi, hd₁.getPropertyDict_eq_some_iff.mpr ⟨ha, rfl⟩, rfl⟩
  resolves := ⟨h.knows_iff hd hnew, fun _ ha =>
    hd₁.getPropertyDict_eq_some_iff.mpr ⟨ha, rfl⟩⟩

end Compacted

/-- **Registering a new CAN-ID compacts its array.** The loop ends without its
index wrapping, the slots in use hold the heads, every entry of the
definition is in one chain, and every name of the dictionary resolves to an
entry that bears it. -/
theorem Registered.addCANIDDict_compacted {d : Dict} (hd : Registered d) (c : CanidDef)
    (hnew : d.getCANIDDict c.info.canid = none) :
    (∃ d₁ m, addLoop c.info.canid (c.info.nData + 1) (d.install c) 0 c.info.nData false
        = some (d₁, m, false))
      ∧ ∃ d', d.addCANIDDict c = some (d', 0) ∧ Compacted d c d' := by
  have hs := hd.sound
  have hc := getCANIDDict_eq_none_iff.mp hnew
  obtain ⟨d₁, m, hloop, heq, hinv, hinfo, hroot, -⟩ :=
    addCANIDDict_of_notMem hs.wf hs.listed hc
  refine ⟨⟨d₁, m, hloop⟩, _, heq, ?_⟩
  refine LoopInv.compacted hs.wf (hs.wf.register hc hinv hinfo hroot) hc ?_
  rw [setInfo_info_self]
  exact hinv

/-- A CAN-ID whose array has a name twice. -/
def twiceNamed : CanidDef where
  info := { canid := 0x100#16, canrawFrame := ⟨0x100#32, 8#8, fun _ => 0#8⟩,
            kind := .readonly, nData := 3 }
  property := [{ PropDef.cleared with name := "a", propertyKind := .readonly },
    { PropDef.cleared with name := "b", propertyKind := .readonly },
    { PropDef.cleared with name := "a", propertyKind := .readonly, bytePos := 1#8 }]
  nData_eq := rfl
  kind_eq := by decide

theorem Registered.addCANIDDict_compacted_twiceNamed :
    (∃ d₁ m, addLoop 0x100#16 4 (Dict.empty.install twiceNamed) 0 3 false
        = some (d₁, m, false))
      ∧ ∃ d', Dict.empty.addCANIDDict twiceNamed = some (d', 0)
        ∧ Compacted Dict.empty twiceNamed d' :=
  Registered.addCANIDDict_compacted Registered.empty twiceNamed rfl

end Dict
