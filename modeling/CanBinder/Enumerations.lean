import CanBinder.Binding
import CanBinder.Configuration

/-!
# Three ways to ask for the properties

The verb `list` answers with the names in the arrays, `subscribe` with `"*"`
goes through the list of supported properties, and every other request
resolves its name in the dictionary. The three agree on a loaded
configuration just when every name belongs to one CAN-ID and there are no
more names than the list has room for.

A name of two CAN-IDs is refused the second time, but its entry stays in the
array of the second, so `list` has it twice. A name too many is in the tree
before the list turns out to be full, so it resolves and is not listed.
-/

namespace Dict

/-! ## The names of an array -/

/-- Every name of an array has a head. -/
theorem exists_mem_heads {foreign : String → Bool} {seen : List String} {es : List PropDef}
    {e : PropDef} (he : e ∈ es) (hs : e.name ∉ seen) :
    ∃ h ∈ heads foreign seen es, h.name = e.name := by
  induction es generalizing seen with
  | nil => exact absurd he List.not_mem_nil
  | cons p es ih =>
    rw [heads]
    by_cases hp : p.name = e.name
    · rw [if_pos (Or.inr (by rwa [hp]))]
      exact ⟨p, List.mem_cons_self, hp⟩
    · have hes : e ∈ es := (List.mem_cons.mp he).resolve_left (fun h => hp (h ▸ rfl))
      obtain ⟨h, hh, hn⟩ := ih hes (fun hm => (List.mem_cons.mp hm).elim (Ne.symm hp) hs)
      split_ifs
      · exact ⟨h, List.mem_cons_of_mem _ hh, hn⟩
      · exact ⟨h, hh, hn⟩

/-- A foreign entry is a head. -/
theorem mem_heads_of_foreign {foreign : String → Bool} {seen : List String}
    {es : List PropDef} {e : PropDef} (he : e ∈ es) (hf : foreign e.name = true) :
    e ∈ heads foreign seen es := by
  induction es generalizing seen with
  | nil => exact absurd he List.not_mem_nil
  | cons p es ih =>
    rw [heads]
    rcases List.mem_cons.mp he with rfl | he
    · rw [if_pos (Or.inl hf)]
      exact List.mem_cons_self
    · split_ifs
      · exact List.mem_cons_of_mem _ (ih he)
      · exact ih he

/-- Heads that are not foreign have distinct names. -/
theorem nodup_heads {foreign : String → Bool} {seen : List String} {es : List PropDef}
    (hf : ∀ e ∈ es, foreign e.name = false) :
    ((heads foreign seen es).map PropDef.name).Nodup := by
  induction es generalizing seen with
  | nil => exact List.nodup_nil
  | cons p es ih =>
    have hrest : ∀ seen, ((heads foreign seen es).map PropDef.name).Nodup :=
      fun seen => ih (fun e he => hf e (List.mem_cons_of_mem _ he))
    rw [heads]
    split_ifs
    · rw [List.map_cons]
      refine List.nodup_cons.mpr ⟨fun hm => ?_, hrest _⟩
      obtain ⟨h, hh, hn⟩ := List.mem_map.mp hm
      rcases of_mem_heads hh with hfor | hseen
      · rw [hf h (List.mem_cons_of_mem _ (mem_of_mem_heads hh))] at hfor
        exact Bool.false_ne_true hfor
      · exact hseen (hn ▸ List.mem_cons_self)
    · exact hrest _

end Dict

/-! ## Agreement -/

/-- **The three enumerations agree**: they have the same names, and each has
every name once. -/
structure EnumerationsAgree (b : Binder) : Prop where
  list_nodup : b.listNames.Nodup
  support_nodup : b.getSupportPropertiesList.Nodup
  dict_nodup : (b.propertyRoot.map b.name).Nodup
  list_iff_support : ∀ n, n ∈ b.listNames ↔ n ∈ b.getSupportPropertiesList
  support_iff_dict : ∀ n, n ∈ b.getSupportPropertiesList ↔ (b.getPropertyDict n).isSome = true

namespace Dict

variable {cs : List CanidDef} {d : Dict}

/-- The names in the array of a CAN-ID. -/
theorem Configured.listupProperties (h : Configured cs d) {pre post : List CanidDef}
    {c : CanidDef} (hcs : cs = pre ++ c :: post) :
    (Binder.start d).listupProperties c.info.canid
      = (heads (usesName pre) [] c.property).map PropDef.name := by
  rw [← h.slots pre c post hcs, List.map_map]
  rfl

/-- **What `list` answers with.** -/
theorem Configured.mem_listNames (h : Configured cs d) (n : String) :
    n ∈ (Binder.start d).listNames ↔ ∃ c ∈ cs, ∃ e ∈ c.property, e.name = n := by
  unfold Binder.listNames
  rw [List.mem_flatMap]
  constructor
  · rintro ⟨x, hx, hn⟩
    obtain ⟨c, hc, rfl⟩ := (h.canids x).mp hx
    obtain ⟨pre, post, hcs⟩ := List.append_of_mem hc
    rw [h.listupProperties hcs] at hn
    obtain ⟨e, he, rfl⟩ := List.mem_map.mp hn
    exact ⟨c, hc, e, mem_of_mem_heads he, rfl⟩
  · rintro ⟨c, hc, e, he, rfl⟩
    obtain ⟨pre, post, hcs⟩ := List.append_of_mem hc
    refine ⟨c.info.canid, (h.canids _).mpr ⟨c, hc, rfl⟩, ?_⟩
    rw [h.listupProperties hcs]
    exact List.mem_map.mpr (exists_mem_heads he List.not_mem_nil)

/-- Two CAN-IDs of a configuration have different identifiers. -/
theorem Configured.canid_ne (h : Configured cs d) {pre post : List CanidDef} {c c' : CanidDef}
    (hcs : cs = pre ++ c' :: post) (hc : c ∈ pre) : c.info.canid ≠ c'.info.canid := by
  have hnd := h.nodup
  rw [hcs, List.map_append, List.map_cons] at hnd
  exact (List.nodup_append.mp hnd).2.2 _ (List.mem_map_of_mem hc) _ List.mem_cons_self

/-- A name two CAN-IDs use is listed twice. -/
theorem Configured.namesDisjoint_of_nodup (h : Configured cs d)
    (hnd : (Binder.start d).listNames.Nodup) : NamesDisjoint cs := by
  refine List.pairwise_iff_getElem.mpr (fun i j hi hj hij e he e' he' hn => ?_)
  have hcs : cs = cs.take j ++ cs[j] :: cs.drop (j + 1) := by
    rw [List.getElem_cons_drop, List.take_append_drop]
  have hmem : cs[i] ∈ cs.take j := by
    rw [List.mem_take_iff_getElem]
    exact ⟨i, by omega, rfl⟩
  obtain ⟨pre, post, hcs'⟩ := List.append_of_mem (List.getElem_mem hi)
  -- the name is in both arrays
  have h₁ : e'.name ∈ (Binder.start d).listupProperties cs[i].info.canid := by
    rw [h.listupProperties hcs', ← hn]
    exact List.mem_map.mpr (exists_mem_heads he List.not_mem_nil)
  have h₂ : e'.name ∈ (Binder.start d).listupProperties cs[j].info.canid := by
    rw [h.listupProperties hcs]
    refine List.mem_map_of_mem (mem_heads_of_foreign he' ?_)
    exact usesName_eq_true_iff.mpr ⟨cs[i], hmem, e, he, hn⟩
  have hroot : ∀ k (hk : k < cs.length), cs[k].info.canid ∈ (Binder.start d).canidWalker :=
    fun k hk => (h.canids _).mpr ⟨cs[k], List.getElem_mem hk, rfl⟩
  have hdis := (List.nodup_flatMap.mp hnd).2
  have : Std.Symm (Function.onFun List.Disjoint (Binder.start d).listupProperties) :=
    ⟨fun _ _ hxy => List.Disjoint.symm hxy⟩
  exact hdis.forall (hroot i hi) (hroot j hj) (h.canid_ne hcs hmem) h₁ h₂

/-- Names of one CAN-ID each are listed once. -/
theorem Configured.nodup_listNames (h : Configured cs d) (hdis : NamesDisjoint cs) :
    (Binder.start d).listNames.Nodup := by
  have hsplit : ∀ x ∈ (Binder.start d).canidWalker, ∃ pre c post, cs = pre ++ c :: post
      ∧ c.info.canid = x := fun x hx => by
    obtain ⟨c, hc, rfl⟩ := (h.canids x).mp hx
    obtain ⟨pre, post, hcs⟩ := List.append_of_mem hc
    exact ⟨pre, c, post, hcs, rfl⟩
  refine List.nodup_flatMap.mpr ⟨fun x hx => ?_, ?_⟩
  · obtain ⟨pre, c, post, hcs, rfl⟩ := hsplit x hx
    rw [h.listupProperties hcs]
    exact nodup_heads (fun e he => hdis.usesName_eq_false hcs he)
  · have hne : (Binder.start d).canidWalker.Nodup := h.sound.wf.canidTree.nodup
    refine List.Pairwise.imp_of_mem (fun {x y} hx hy hxy n hnx hny => ?_) hne
    obtain ⟨pre, c, post, hcs, rfl⟩ := hsplit x hx
    obtain ⟨pre', c', post', hcs', rfl⟩ := hsplit y hy
    rw [h.listupProperties hcs] at hnx
    rw [h.listupProperties hcs'] at hny
    obtain ⟨e, he, rfl⟩ := List.mem_map.mp hnx
    obtain ⟨e', he', hn⟩ := List.mem_map.mp hny
    have hc : c ∈ cs := by
      rw [hcs]
      exact List.mem_append_right _ List.mem_cons_self
    have hc' : c' ∈ cs := by
      rw [hcs']
      exact List.mem_append_right _ List.mem_cons_self
    have : Std.Symm (fun c c' : CanidDef => ∀ e ∈ c.property, ∀ e' ∈ c'.property,
        e.name ≠ e'.name) := ⟨fun _ _ hxy e he e' he' => (hxy e' he' e he).symm⟩
    exact hdis.forall hc hc' (fun hcc => hxy (by rw [hcc])) e (mem_of_mem_heads he) e'
      (mem_of_mem_heads he') hn.symm

/-- **The list of supported properties has all names** just when it has room
for them. -/
theorem Configured.support_iff (h : Configured cs d) :
    (∀ n, n ∈ d.getSupportPropertiesList ↔ d.knows n = true)
      ↔ (configNames cs).length ≤ SUPPORT_PROPERTY_LIMIT := by
  obtain ⟨names, hnd, hmem, hlist⟩ := h.sound.listed
  have hknows : ∀ n, n ∈ names ↔ d.knows n = true := fun n =>
    (hmem n).trans knows_eq_true_iff.symm
  -- both are the names of the dictionary, each once
  have hperm : names.Perm (configNames cs) := by
    refine (List.perm_ext_iff_of_nodup hnd (List.nodup_dedup _)).mpr (fun n => ?_)
    rw [hknows, h.names]
    exact mem_configNames.symm
  rw [← hperm.length_eq]
  constructor
  · intro hall
    have hsub : names ⊆ names.take SUPPORT_PROPERTY_LIMIT := fun n hn => by
      rw [← hlist]
      exact (hall n).mpr ((hknows n).mp hn)
    have hle := (hnd.subperm hsub).length_le
    rw [List.length_take] at hle
    omega
  · intro hle n
    show n ∈ d.supportPropertyList ↔ _
    rw [hlist, List.take_of_length_le hle, hknows]

/-- **The three enumerations agree just when every name belongs to one CAN-ID
and the list has room for all names.** -/
theorem enumerationsAgree_iff {jobj : Json} {d : Dict} (h : canDefineInit jobj = some d) :
    ∃ cs, configured jobj = some cs ∧ (EnumerationsAgree (Binder.start d)
      ↔ NamesDisjoint cs ∧ (configNames cs).length ≤ SUPPORT_PROPERTY_LIMIT) := by
  obtain ⟨cs, hcs, hconf⟩ := configured_of_canDefineInit h
  refine ⟨cs, hcs, fun hagree => ?_, fun ⟨hdis, hle⟩ => ?_⟩
  · exact ⟨hconf.namesDisjoint_of_nodup hagree.list_nodup,
      hconf.support_iff.mp hagree.support_iff_dict⟩
  · have hsupport := hconf.support_iff.mpr hle
    refine ⟨hconf.nodup_listNames hdis, ?_, hconf.sound.wf.propertyTree.nodup_map, fun n => ?_,
      hsupport⟩
    · exact hconf.sound.listed.nodup
    · rw [hconf.mem_listNames, ← hconf.names]
      exact (hsupport n).symm

theorem enumerationsAgree_iff_sample :
    ∃ d, canDefineInit sampleConfig = some d ∧ EnumerationsAgree (Binder.start d) := by
  obtain ⟨d, hd⟩ := Option.isSome_iff_exists.mp
    (by decide : (canDefineInit sampleConfig).isSome = true)
  obtain ⟨cs, hcs, hiff⟩ := enumerationsAgree_iff hd
  have hnames : (configured sampleConfig).map (fun cs =>
      (decide (NamesDisjoint cs), (configNames cs).length)) = some (true, 2) := by
    decide
  rw [hcs] at hnames
  obtain ⟨hdis, hlen⟩ := Prod.mk.inj (Option.some.inj hnames)
  exact ⟨d, hd, hiff.mpr ⟨of_decide_eq_true hdis, by rw [hlen]; decide⟩⟩

/-- The name of two CAN-IDs is listed twice. -/
theorem not_enumerationsAgree_conflicting :
    ∃ d, canDefineInit conflictingConfig = some d
      ∧ (Binder.start d).listNames = ["speed", "speed"]
      ∧ ¬EnumerationsAgree (Binder.start d) := by
  have hlist : (canDefineInit conflictingConfig).map (fun d => (Binder.start d).listNames)
      = some ["speed", "speed"] := by decide
  obtain ⟨d, hd, hnames⟩ := Option.map_eq_some_iff.mp hlist
  refine ⟨d, hd, hnames, fun h => ?_⟩
  have hnd := h.list_nodup
  rw [hnames] at hnd
  exact absurd hnd (by decide)

end Dict
