import CanBinder.KeyOrder
import CanBinder.MarkedWords
import Mathlib.Data.Finset.Dedup
import Mathlib.Data.List.DropRight

/-!
# The name a zone gives a property

`_getZoneName` turns a list of zones into a suffix of the name. A zone sets a bit,
and `Zone::None` clears those that were set before it, so the list denotes the zones
named after its last `Zone::None` (`denotedZones`). The suffix has one word for
each of them, in a fixed order and with nothing between; as every word begins with
its only capital letter it is cut again in one way, and two lists give the same
suffix exactly if they denote the same zones (`zoneNames_denote`).
-/

/-! ## The zones of a list -/

/-- A zone name the loader recognises. -/
def IsZoneName (n : String) : Prop := n = "Zone::None" ∨ ∃ z ∈ zoneBits, z.1 = n

instance : DecidablePred IsZoneName :=
  fun _ => inferInstanceAs (Decidable (_ ∨ _))

/-- The names after the last `Zone::None`. -/
def afterNone (names : List String) : List String :=
  names.rtakeWhile (fun n => n ≠ "Zone::None")

/-- **The zones a list denotes.** -/
def denotedZones (names : List String) : Finset String := (afterNone names).toFinset

/-- The zones a list names at all, before or after a `Zone::None`. -/
def otherZones (names : List String) : Finset String :=
  (names.filter (fun n => n ≠ "Zone::None")).toFinset

/-- They are those denoted where `Zone::None` is not named. -/
theorem denotedZones_eq_otherZones {names : List String} (h : "Zone::None" ∉ names) :
    denotedZones names = otherZones names := by
  have hne : ∀ n ∈ names, n ≠ "Zone::None" := fun n hn heq => h (heq ▸ hn)
  rw [denotedZones, otherZones, afterNone,
    List.rtakeWhile_eq_self_iff.mpr (fun n hn => decide_eq_true (hne n hn)),
    List.filter_eq_self.mpr (fun n hn => decide_eq_true (hne n hn))]

/-- A list of names, as the configuration gives it. -/
def zoneArray (names : List String) : Json := .array (names.map Json.string)

/-- The bits a list sets. -/
def zoneValue (names : List String) : ℕ := names.foldl zoneStep 0

theorem afterNone_append (names : List String) (n : String) :
    afterNone (names ++ [n]) = if n = "Zone::None" then [] else afterNone names ++ [n] := by
  unfold afterNone
  rw [List.rtakeWhile_concat]
  by_cases hn : n = "Zone::None" <;> simp [hn]

theorem zoneValue_append (names : List String) (n : String) :
    zoneValue (names ++ [n]) = zoneStep (zoneValue names) n :=
  List.foldl_concat ..

/-- The texts of a `ZONE` that can be read; there are none without one. -/
def Json.zoneTexts : Json → Option (List String)
  | .null => some []
  | .array zonelist => zonelist.mapM Json.getString
  | _ => none

theorem zoneTexts_zoneArray (names : List String) :
    (zoneArray names).zoneTexts = some names := by
  induction names with
  | nil => rfl
  | cons n names ih =>
    have hrest : (names.map Json.string).mapM Json.getString = some names := ih
    rw [zoneArray, Json.zoneTexts, List.map_cons, List.mapM_cons, hrest]
    rfl

/-- **The suffix is that of the bits.** -/
theorem getZoneName_of_zoneTexts {v : Json} {names : List String}
    (h : v.zoneTexts = some names) :
    getZoneName v
      = some (if zoneValue names = 0 then none else some (zoneSuffix (zoneValue names))) := by
  cases v with
  | null =>
    cases h
    rfl
  | array zonelist =>
    have hmap : zonelist.mapM Json.getString = some names := h
    rw [getZoneName, hmap]
    rfl
  | _ => cases h

/-! ## One bit for each zone -/

/-- The bits of two zones have nothing in common. -/
theorem zoneBits_and : ∀ z ∈ zoneBits, ∀ z' ∈ zoneBits, z.2 &&& z'.2 ≠ 0 ↔ z.1 = z'.1 := by
  decide

/-- **What one name does to a bit**: its own zone sets it, and `Zone::None` clears
it. -/
theorem zoneStep_and {z : String × ℕ} (hz : z ∈ zoneBits) (zoneVal : ℕ) (n : String) :
    zoneStep zoneVal n &&& z.2 ≠ 0
      ↔ n ≠ "Zone::None" ∧ (n = z.1 ∨ zoneVal &&& z.2 ≠ 0) := by
  unfold zoneStep
  by_cases hn : n = "Zone::None"
  · simp [hn]
  rw [if_neg hn]
  cases hfind : zoneBits.find? (fun x => x.1 = n) with
  | none =>
    -- an unknown name is that of no zone
    have hne : n ≠ z.1 := fun heq => by
      have hall := List.find?_eq_none.mp hfind z hz
      simp [heq] at hall
    simp [hn, hne]
  | some x =>
    have hx : x.1 = n := by simpa using List.find?_some hfind
    have hbit := zoneBits_and x (List.mem_of_find?_eq_some hfind) z hz
    rw [hx] at hbit
    dsimp only
    rw [Nat.and_or_distrib_right, Ne, Nat.or_eq_zero_iff, not_and_or, ← Ne, ← Ne, hbit]
    simp only [ne_eq, hn, not_false_eq_true, true_and]
    exact or_comm

/-- **The bit of a zone is set exactly if the list denotes the zone.** -/
theorem zoneValue_and {z : String × ℕ} (hz : z ∈ zoneBits) (names : List String) :
    zoneValue names &&& z.2 ≠ 0 ↔ z.1 ∈ afterNone names := by
  induction names using List.reverseRecOn with
  | nil => simp [zoneValue, afterNone]
  | append_singleton names n ih =>
    rw [zoneValue_append, zoneStep_and hz, ih, afterNone_append]
    by_cases hn : n = "Zone::None"
    · simp [hn]
    · simp [hn, eq_comm, or_comm]

/-- **No bit is set exactly if no zone is denoted.** -/
theorem zoneValue_eq_zero_iff {names : List String} :
    zoneValue names = 0 ↔ ∀ z ∈ zoneBits, z.1 ∉ afterNone names := by
  constructor
  · intro hzero z hz hmem
    refine (zoneValue_and hz names).mpr hmem ?_
    rw [hzero, Nat.zero_and]
  · intro hnone
    induction names using List.reverseRecOn with
    | nil => rfl
    | append_singleton names n ih =>
      rw [zoneValue_append, zoneStep]
      rw [afterNone_append] at hnone
      by_cases hn : n = "Zone::None"
      · exact if_pos hn
      rw [if_neg hn] at hnone ⊢
      have hnames : zoneValue names = 0 :=
        ih (fun z hz hmem => hnone z hz (List.mem_append_left _ hmem))
      have hfind : zoneBits.find? (fun z => z.1 = n) = none := by
        rw [List.find?_eq_none]
        intro z hz heq
        have hzn : z.1 = n := by simpa using heq
        exact hnone z hz (List.mem_append_right _ (List.mem_singleton.mpr hzn))
      rw [hfind, hnames]

/-- What is denoted is a zone, in a list of zones. -/
theorem exists_zoneBits_of_mem {names : List String} (h : ∀ n ∈ names, IsZoneName n)
    {n : String} (hn : n ∈ afterNone names) : ∃ z ∈ zoneBits, z.1 = n := by
  have hmem : n ∈ names := (List.rtakeWhile_suffix _ _).subset hn
  have hne : n ≠ "Zone::None" := by simpa using List.mem_rtakeWhile_imp hn
  exact (h n hmem).resolve_left hne

/-! ## The words of a suffix -/

/-- Every word begins with its only capital letter. -/
theorem zoneWords_isWord :
    ∀ w ∈ zoneWords, MarkedWords.IsWord Char.isUpper w.2.toList := by
  decide

theorem zoneWords_nodup : (zoneWords.map (fun w => w.2.toList)).Nodup := by
  decide

/-- The words stand for the bits of the zones. -/
theorem exists_zoneWords {z : String × ℕ} (hz : z ∈ zoneBits) : ∃ w ∈ zoneWords, w.1 = z.2 := by
  revert z
  decide

theorem exists_zoneBits {w : ℕ × String} (hw : w ∈ zoneWords) : ∃ z ∈ zoneBits, z.2 = w.1 := by
  revert w
  decide

/-- **A suffix tells which words it has.** -/
theorem zoneSuffix_eq_iff (zoneVal zoneVal' : ℕ) :
    zoneSuffix zoneVal = zoneSuffix zoneVal'
      ↔ ∀ w ∈ zoneWords, zoneVal &&& w.1 ≠ 0 ↔ zoneVal' &&& w.1 ≠ 0 := by
  have hlist : ∀ v, (zoneSuffix v).toList
      = ((zoneWords.filter (fun w => v &&& w.1 ≠ 0)).map (fun w => w.2.toList)).flatten := by
    intro v
    rw [zoneSuffix, String.toList_join, List.flatMap_def, List.map_map]
    rfl
  rw [← String.toList_inj, hlist, hlist,
    MarkedWords.flatten_filter_iff zoneWords_isWord zoneWords_nodup]
  simp only [decide_eq_decide]

/-- Equal sets of zones are equal sets of bits. -/
theorem denotedZones_eq_iff {names names' : List String} (h : ∀ n ∈ names, IsZoneName n)
    (h' : ∀ n ∈ names', IsZoneName n) :
    denotedZones names = denotedZones names'
      ↔ ∀ w ∈ zoneWords, zoneValue names &&& w.1 ≠ 0 ↔ zoneValue names' &&& w.1 ≠ 0 := by
  unfold denotedZones
  rw [Finset.ext_iff]
  simp only [List.mem_toFinset]
  constructor
  · intro hmem w hw
    obtain ⟨z, hz, hzw⟩ := exists_zoneBits hw
    rw [← hzw, zoneValue_and hz, zoneValue_and hz, hmem]
  · intro hbits n
    by_cases hn : ∃ z ∈ zoneBits, z.1 = n
    · obtain ⟨z, hz, rfl⟩ := hn
      obtain ⟨w, hw, hzw⟩ := exists_zoneWords hz
      rw [← zoneValue_and hz, ← zoneValue_and hz, ← hzw, hbits w hw]
    · exact iff_of_false (fun hc => hn (exists_zoneBits_of_mem h hc))
        (fun hc => hn (exists_zoneBits_of_mem h' hc))

/-- Nothing else is denoted by a list of zones. -/
theorem denotedZones_eq_empty_iff {names : List String} (h : ∀ n ∈ names, IsZoneName n) :
    denotedZones names = ∅ ↔ zoneValue names = 0 := by
  rw [zoneValue_eq_zero_iff, denotedZones, List.toFinset_eq_empty_iff,
    List.eq_nil_iff_forall_not_mem]
  constructor
  · exact fun hnone z _ => hnone z.1
  · intro hnone n hn
    obtain ⟨z, hz, rfl⟩ := exists_zoneBits_of_mem h hn
    exact hnone z hz hn

/-- There is no suffix exactly if no zone is denoted. -/
theorem getZoneName_eq_none_iff {names : List String} (h : ∀ n ∈ names, IsZoneName n) :
    getZoneName (zoneArray names) = some none ↔ denotedZones names = ∅ := by
  rw [getZoneName_of_zoneTexts (zoneTexts_zoneArray names), denotedZones_eq_empty_iff h]
  split_ifs with hzero <;> simp [hzero]

/-- **Two lists of zones give the same suffix exactly if they denote the same
zones.** -/
theorem getZoneName_eq_iff {names names' : List String} (h : ∀ n ∈ names, IsZoneName n)
    (h' : ∀ n ∈ names', IsZoneName n) :
    getZoneName (zoneArray names) = getZoneName (zoneArray names')
      ↔ denotedZones names = denotedZones names' := by
  by_cases hempty : denotedZones names = ∅
  · rw [hempty, (getZoneName_eq_none_iff h).mpr hempty, eq_comm, getZoneName_eq_none_iff h',
      eq_comm]
  by_cases hempty' : denotedZones names' = ∅
  · rw [hempty', (getZoneName_eq_none_iff h').mpr hempty', getZoneName_eq_none_iff h]
  rw [denotedZones_eq_empty_iff h] at hempty
  rw [denotedZones_eq_empty_iff h'] at hempty'
  rw [getZoneName_of_zoneTexts (zoneTexts_zoneArray names),
    getZoneName_of_zoneTexts (zoneTexts_zoneArray names'), if_neg hempty, if_neg hempty',
    Option.some_inj, Option.some_inj, zoneSuffix_eq_iff, denotedZones_eq_iff h h']

/-! ## The name of an entry -/

/-- **A name and a suffix can be told apart**, for one name. -/
theorem Member.toPropDef_name_eq_iff {m m' : Member} (kind kind' : CanPropertyKind)
    (h : m.name = m'.name) :
    (m.toPropDef kind).name = (m'.toPropDef kind').name ↔ m.zone = m'.zone := by
  have hlonger : ∀ name zone : String, name ++ "@" ++ zone ≠ name := fun name zone heq => by
    have hlen := congrArg String.length heq
    simp only [String.length_append] at hlen
    have hone : "@".length = 1 := rfl
    omega
  unfold toPropDef
  rw [h]
  cases m.zone with
  | none =>
    cases m'.zone with
    | none => simp
    | some zone' => simpa using (hlonger _ zone').symm
  | some zone =>
    cases m'.zone with
    | none => simpa using hlonger _ zone
    | some zone' => simp

/-- **What zone names denote.** The suffix is a function of the zones named after
the last `Zone::None`, there is none exactly if there is no such zone, and different
sets of them give different suffixes. So two entries of one `PROPERTY` have the same
name exactly if these zones are the same. -/
theorem zoneNames_denote {names names' : List String} (h : ∀ n ∈ names, IsZoneName n)
    (h' : ∀ n ∈ names', IsZoneName n) :
    (getZoneName (zoneArray names) = some none ↔ denotedZones names = ∅)
      ∧ (getZoneName (zoneArray names) = getZoneName (zoneArray names')
        ↔ denotedZones names = denotedZones names')
      ∧ ∀ kind kind' l l' p p', addPropertyMember (.object l) kind = some p →
        addPropertyMember (.object l') kind' = some p' →
          (Json.lookup l "PROPERTY").getString = (Json.lookup l' "PROPERTY").getString →
          (Json.lookup l "ZONE").zoneTexts = some names →
          (Json.lookup l' "ZONE").zoneTexts = some names' →
          (p.name = p'.name ↔ denotedZones names = denotedZones names') := by
  refine ⟨getZoneName_eq_none_iff h, getZoneName_eq_iff h h', ?_⟩
  intro kind kind' l l' p p' hp hp' hname hzones hzones'
  obtain ⟨_, m, heq, hm, rfl⟩ := addPropertyMember_eq_some hp
  cases heq
  obtain ⟨_, m', heq, hm', rfl⟩ := addPropertyMember_eq_some hp'
  cases heq
  obtain ⟨hmname, hmzone, -⟩ := memberLoop_names hm
  obtain ⟨hmname', hmzone', -⟩ := memberLoop_names hm'
  rw [Member.toPropDef_name_eq_iff kind kind' (by rw [hmname, hmname', hname]), hmzone, hmzone',
    ← getZoneName_eq_iff h h', getZoneName_of_zoneTexts hzones, getZoneName_of_zoneTexts hzones',
    getZoneName_of_zoneTexts (zoneTexts_zoneArray names),
    getZoneName_of_zoneTexts (zoneTexts_zoneArray names'), Option.join_some, Option.join_some,
    Option.some_inj]

/-- Neither order nor repetition matters. -/
theorem zoneNames_denote_left_front :
    getZoneName (zoneArray ["Zone::Left", "Zone::Front"])
      = getZoneName (zoneArray ["Zone::Front", "Zone::Left", "Zone::Front"]) :=
  (zoneNames_denote (by decide) (by decide)).2.1.mpr (by decide)

/-- What stands before a `Zone::None` is forgotten, and what stands after it is
not. -/
theorem getZoneName_left_none :
    (∀ n ∈ ["Zone::Left", "Zone::None"], IsZoneName n)
      ∧ (["Zone::Left", "Zone::None"]).Perm ["Zone::None", "Zone::Left"]
      ∧ otherZones ["Zone::Left", "Zone::None"] = otherZones ["Zone::None", "Zone::Left"]
      ∧ getZoneName (zoneArray ["Zone::Left", "Zone::None"]) = some none
      ∧ getZoneName (zoneArray ["Zone::None", "Zone::Left"]) = some (some "Left") := by
  refine ⟨by decide, List.Perm.swap .., by decide, by decide, by decide⟩
