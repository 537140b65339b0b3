import CanBinder.Compaction

/-!
# What a configuration says

The loader reads a configuration into the dictionaries as it goes. What the
file says is simpler: `configured` is the list of CAN-IDs it defines, each
with its entries, in the order of the file. A CAN-ID that was defined before
and one without a `DATA` array are passed over.

`Configured` relates the two: the CAN-IDs registered are those of the list,
each array is compacted behind the names of the CAN-IDs before it, and the
names the dictionary resolves are those the configuration uses. Conditions on
a configuration are stated on the list.
-/

/-- The definition of one CAN-ID in the file. -/
structure ConfigEntry where
  /-- The direction it stands in. -/
  kind : CanPropertyKind
  /-- Its key, cut to sixteen bits. -/
  canid : CanId
  /-- Its value. -/
  obj : Json

/-- The CAN-IDs of a direction. -/
def blockEntries (kind : CanPropertyKind) : List (String × Json) → Option (List ConfigEntry)
  | [] => some []
  | (key, val) :: l =>
    if key = "STANDARD" then
      match val.objectForeach, blockEntries kind l with
      | some defs, some es =>
        some (defs.map (fun m => ⟨kind, BitVec.ofInt 16 (CLib.strtol m.1 16), m.2⟩) ++ es)
      | _, _ => none
    else blockEntries kind l

/-- The CAN-IDs of a file. -/
def configEntries : List (String × Json) → Option (List ConfigEntry)
  | [] => some []
  | (key, val) :: l =>
    if key = "RECEPTION" ∨ key = "TRANSMISSION" then
      match val.objectForeach, configEntries l with
      | some blocks, some es =>
        (blockEntries (if key = "RECEPTION" then .readonly else .send) blocks).map (· ++ es)
      | _, _ => none
    else configEntries l

/-- A CAN-ID of the file is defined once, if it has a `DATA` array. -/
def configuredStep (cs : List CanidDef) (x : ConfigEntry) : Option (List CanidDef) :=
  if ∃ c ∈ cs, c.info.canid = x.canid then some cs
  else
    match x.obj.objectGet "DATA" with
    | .array array =>
      match h : addPropertyMapping array x.kind with
      | none => none
      | some (ps, _) =>
        let c := CanidDef.ofMapping x.canid x.obj x.kind ps (addPropertyMapping_propertyKind h)
        if ∃ c' ∈ cs, c'.info.canid = c.info.canid then some cs else some (cs ++ [c])
    | _ => some cs

theorem configuredStep_of_known {cs : List CanidDef} {x : ConfigEntry}
    (h : ∃ c ∈ cs, c.info.canid = x.canid) : configuredStep cs x = some cs :=
  if_pos h

theorem configuredStep_of_not_array {cs : List CanidDef} {x : ConfigEntry}
    (h : ∀ array, x.obj.objectGet "DATA" ≠ .array array) : configuredStep cs x = some cs := by
  unfold configuredStep
  split_ifs
  · rfl
  · split
    · rename_i array hdata
      exact absurd hdata (h array)
    · rfl

theorem configuredStep_of_array {cs : List CanidDef} {x : ConfigEntry} {array : List Json}
    {ps : List PropDef} {err : ℕ} (h : ¬∃ c ∈ cs, c.info.canid = x.canid)
    (hdata : x.obj.objectGet "DATA" = .array array)
    (hps : addPropertyMapping array x.kind = some (ps, err)) :
    configuredStep cs x
      = some (if ∃ c' ∈ cs, c'.info.canid = (CanidDef.ofMapping x.canid x.obj x.kind ps
          (addPropertyMapping_propertyKind hps)).info.canid then cs
        else cs ++ [CanidDef.ofMapping x.canid x.obj x.kind ps
          (addPropertyMapping_propertyKind hps)]) := by
  unfold configuredStep
  rw [if_neg h, hdata]
  dsimp only
  split
  · rename_i hnone
    exact absurd (hps.symm.trans hnone) (Option.some_ne_none _)
  · rename_i ps' err' hps'
    cases hps.symm.trans hps'
    split_ifs <;> rfl

/-- The CAN-IDs of a list, behind those already defined. -/
def configuredLoop : List ConfigEntry → List CanidDef → Option (List CanidDef)
  | [], cs => some cs
  | x :: xs, cs =>
    match configuredStep cs x with
    | none => none
    | some cs => configuredLoop xs cs

/-- **The CAN-IDs a configuration defines.** -/
def configured (jobj : Json) : Option (List CanidDef) :=
  match jobj.objectForeach with
  | none => none
  | some l =>
    match configEntries l with
    | none => none
    | some xs => configuredLoop xs []

/-- Whether one of the CAN-IDs uses a name. -/
def usesName (cs : List CanidDef) (n : String) : Bool :=
  cs.any (fun c => c.property.any (fun e => e.name = n))

theorem usesName_eq_true_iff {cs : List CanidDef} {n : String} :
    usesName cs n = true ↔ ∃ c ∈ cs, ∃ e ∈ c.property, e.name = n := by
  simp [usesName]

/-- **Every name belongs to one CAN-ID.** -/
def NamesDisjoint (cs : List CanidDef) : Prop :=
  cs.Pairwise (fun c c' => ∀ e ∈ c.property, ∀ e' ∈ c'.property, e.name ≠ e'.name)

instance (cs : List CanidDef) : Decidable (NamesDisjoint cs) :=
  inferInstanceAs (Decidable (cs.Pairwise _))

/-- A name of a CAN-ID is one of no CAN-ID before it. -/
theorem NamesDisjoint.usesName_eq_false {cs pre post : List CanidDef} {c : CanidDef}
    (hdis : NamesDisjoint cs) (hcs : cs = pre ++ c :: post) {e : PropDef} (he : e ∈ c.property) :
    usesName pre e.name = false := by
  rw [← Bool.not_eq_true, usesName_eq_true_iff]
  rintro ⟨c', hc', e', he', hn⟩
  rw [hcs] at hdis
  exact (List.pairwise_append.mp hdis).2.2 c' hc' c List.mem_cons_self e' he' e he hn

/-- The names of a configuration, each once. -/
def configNames (cs : List CanidDef) : List String :=
  (cs.flatMap (fun c => c.property.map PropDef.name)).dedup

theorem mem_configNames {cs : List CanidDef} {n : String} :
    n ∈ configNames cs ↔ ∃ c ∈ cs, ∃ e ∈ c.property, e.name = n := by
  simp [configNames]

/-- Splitting a list at an element, where one was added behind it. -/
theorem append_cons_of_snoc {cs pre post : List CanidDef} {c c' : CanidDef}
    (h : cs ++ [c] = pre ++ c' :: post) :
    (pre = cs ∧ c' = c) ∨ ∃ post', cs = pre ++ c' :: post' := by
  obtain rfl | ⟨post', z, rfl⟩ := List.eq_nil_or_concat post
  · obtain ⟨rfl, hc⟩ := List.append_inj' h rfl
    exact Or.inl ⟨rfl, (List.cons.inj hc).1.symm⟩
  · rw [List.concat_eq_append, ← List.cons_append, ← List.append_assoc] at h
    exact Or.inr ⟨post', (List.append_inj' h rfl).1⟩

/-! ## Configurations as JSON -/

/-- A file with the CAN-IDs to receive and those to send. -/
def configFile (reception transmission : List (String × Json)) : Json :=
  .object [("RECEPTION", .object [("STANDARD", .object reception)]),
    ("TRANSMISSION", .object [("STANDARD", .object transmission)])]

/-- A CAN-ID with a thin-out mode, a cycle and a `DATA` array. -/
def configCanid (mode : String) (cycle : ℤ) (entries : List Json) : Json :=
  .object [("MODE", .string mode), ("CYCLE", .int cycle), ("DATA", .array entries)]

/-- A `DATA` entry. -/
def configData (name type : String) (pos offs len : ℤ) : Json :=
  .object [("PROPERTY", .string name), ("TYPE", .string type), ("POS", .int pos),
    ("OFFS", .int offs), ("LEN", .int len)]

/-- A speed to receive and a lamp to send. -/
def sampleConfig : Json :=
  configFile [("100", configCanid "CAN_THINOUT_CHG" 1000 [configData "speed" "int16_t" 2 0 16])]
    [("200", configCanid "CAN_THINOUT_NON" 0 [configData "lamp" "bool" 1 0 1])]

/-- A property of two entries in one CAN-ID that is thinned out. -/
def chainConfig : Json :=
  configFile [("100", configCanid "CAN_THINOUT_CHG" 1000
    [configData "mode" "int8_t" 1 0 8, configData "mode" "int8_t" 2 0 8])] []

/-- Two CAN-IDs with an entry of one name. -/
def conflictingConfig : Json :=
  configFile [("100", configCanid "CAN_THINOUT_NON" 0 [configData "speed" "int16_t" 2 0 16]),
    ("200", configCanid "CAN_THINOUT_NON" 0 [configData "speed" "int16_t" 2 0 16])] []

namespace Dict

/-- **The data `d` is what the CAN-IDs `cs` come to.** -/
structure Configured (cs : List CanidDef) (d : Dict) : Prop where
  sound : Sound d
  nodup : (cs.map (fun c => c.info.canid)).Nodup
  canids : ∀ x, x ∈ d.canidRoot ↔ ∃ c ∈ cs, c.info.canid = x
  names : ∀ n, d.knows n = true ↔ ∃ c ∈ cs, ∃ e ∈ c.property, e.name = n
  slots : ∀ pre c post, cs = pre ++ c :: post →
    (List.range (d.info c.info.canid).nData).map
        (fun i => (d.mem (.slot c.info.canid i)).toPropDef)
      = heads (usesName pre) [] c.property
  refused : ∀ pre c post, cs = pre ++ c :: post → ∀ i < (d.info c.info.canid).nData,
    .slot c.info.canid i ∉ d.propertyRoot →
      usesName pre (d.name (.slot c.info.canid i)) = true
  info : ∀ c ∈ cs, ∃ m fd, d.info c.info.canid = { c.info with nData := m, timerfd := fd }
  header : ∀ c ∈ cs, ∃ canid obj kind, (kind = .readonly ∨ kind = .send)
    ∧ c.info = { caninfoHeader canid obj kind with nData := c.property.length }

/-- No CAN-IDs, no data. -/
theorem configured_empty : Configured [] Dict.empty where
  sound := sound_empty
  nodup := List.nodup_nil
  canids := fun x => by simp [Dict.empty]
  names := fun n => by simp [knows, getPropertyDict, Dict.empty, SearchTree.tfind]
  slots := fun pre c post h => absurd h (by simp)
  refused := fun pre c post h => absurd h (by simp)
  info := fun c hc => absurd hc List.not_mem_nil
  header := fun c hc => absurd hc List.not_mem_nil

/-- The identifier of no CAN-ID of the list is not registered. -/
theorem Configured.getCANIDDict_none_iff {cs : List CanidDef} {d : Dict}
    (h : Configured cs d) {x : CanId} :
    d.getCANIDDict x = none ↔ ¬∃ c ∈ cs, c.info.canid = x := by
  rw [getCANIDDict_eq_none_iff, h.canids]

/-- The tree with one more identifier. -/
theorem mem_canidRoot_install {d : Dict} {c : CanidDef} (hc : c.info.canid ∉ d.canidRoot)
    {x : CanId} : x ∈ (d.install c).canidRoot ↔ x = c.info.canid ∨ x ∈ d.canidRoot :=
  SearchTree.mem_tsearch (getCANIDDict_eq_none_iff.mpr hc)

/-- **A registration is one more CAN-ID.** -/
theorem Configured.add {cs : List CanidDef} {d : Dict} (h : Configured cs d) {c : CanidDef}
    (hnew : ∀ c' ∈ cs, c'.info.canid ≠ c.info.canid)
    (hheader : ∃ canid obj kind, (kind = .readonly ∨ kind = .send)
      ∧ c.info = { caninfoHeader canid obj kind with nData := c.property.length }) :
    ∃ d', d.addCANIDDict c = some (d', 0) ∧ Configured (cs ++ [c]) d'
      ∧ d'.timers = d.timers := by
  have hc : c.info.canid ∉ d.canidRoot := fun hc => by
    obtain ⟨c', hc', heq⟩ := (h.canids _).mp hc
    exact hnew c' hc' heq
  rcases h.sound.addCANIDDict_cases c with ⟨hmem, -⟩ | ⟨-, d', m, heq, hinv, hinfo, hroot, ht, hs⟩
  · exact absurd hmem hc
  have hother : ∀ c' ∈ cs, d'.info c'.info.canid = d.info c'.info.canid := fun c' hc' => by
    rw [hinfo]
    exact Function.update_of_ne (hnew c' hc') _ _
  have hself : d'.info c.info.canid = { c.info with nData := m } := by
    rw [hinfo]
    exact Function.update_self ..
  -- the names in the dictionary are those of the CAN-IDs before
  have hforeign : d.knows = usesName cs := by
    funext n
    rw [Bool.eq_iff_iff, h.names, usesName_eq_true_iff]
  refine ⟨d', heq, ?_, ht⟩
  exact
  { sound := hs
    nodup := by
      rw [List.map_append]
      refine List.nodup_append.mpr ⟨h.nodup, List.nodup_singleton _, fun x hx y hy => ?_⟩
      obtain ⟨c', hc', rfl⟩ := List.mem_map.mp hx
      rw [List.mem_singleton.mp hy]
      exact hnew c' hc'
    canids := fun x => by
      rw [hroot, mem_canidRoot_install hc, h.canids]
      simp only [List.mem_append, List.mem_singleton, or_and_right, exists_or, exists_eq_left]
      rw [or_comm, eq_comm]
    names := fun n => by
      rw [hinv.knows_iff h.sound.wf hc, h.names]
      simp only [List.mem_append, List.mem_singleton, or_and_right, exists_or, exists_eq_left]
    slots := fun pre c' post hsplit => by
      obtain ⟨rfl, rfl⟩ | ⟨post', hcs⟩ := append_cons_of_snoc hsplit
      · rw [hself, ← hforeign]
        exact hinv.slots_eq
      · have hmem : c' ∈ cs := hcs ▸ List.mem_append_right _ List.mem_cons_self
        rw [hother c' hmem, ← h.slots pre c' post' hcs]
        refine List.map_congr_left (fun i _ => ?_)
        rw [hinv.untouched (.slot c'.info.canid i) (hnew c' hmem)]
    refused := fun pre c' post hsplit i hi hr => by
      obtain ⟨rfl, rfl⟩ | ⟨post', hcs⟩ := append_cons_of_snoc hsplit
      · rw [hself] at hi
        rw [← hforeign, ← Bool.not_eq_false]
        exact fun hk => hr ((hinv.root _).mpr (Or.inr ⟨i, hi, rfl, hk⟩))
      · have hmem : c' ∈ cs := hcs ▸ List.mem_append_right _ List.mem_cons_self
        rw [hother c' hmem] at hi
        have hname : d'.name (.slot c'.info.canid i) = d.name (.slot c'.info.canid i) :=
          congrArg (fun p => p.name) (hinv.untouched (.slot c'.info.canid i) (hnew c' hmem))
        rw [hname]
        exact h.refused pre c' post' hcs i hi (fun hm => hr ((hinv.root _).mpr (Or.inl hm)))
    info := by
      refine List.forall_mem_append.mpr ⟨fun c' hc' => ?_, List.forall_mem_singleton.mpr ?_⟩
      · rw [hother c' hc']
        exact h.info c' hc'
      · rw [hself]
        exact ⟨m, c.info.timerfd, rfl⟩
    header := List.forall_mem_append.mpr ⟨h.header, List.forall_mem_singleton.mpr hheader⟩ }

/-- A slot in use holds an entry of the definition. -/
theorem Configured.toPropDef_mem {cs : List CanidDef} {d : Dict} (h : Configured cs d)
    {pre post : List CanidDef} {c : CanidDef} (hcs : cs = pre ++ c :: post) {i : ℕ}
    (hi : i < (d.info c.info.canid).nData) :
    (d.mem (.slot c.info.canid i)).toPropDef ∈ c.property := by
  have hhead : (d.mem (.slot c.info.canid i)).toPropDef
      ∈ heads (usesName pre) [] c.property := by
    rw [← h.slots pre c post hcs]
    exact List.mem_map.mpr ⟨i, List.mem_range.mpr hi, rfl⟩
  exact mem_of_mem_heads hhead

/-- A registered CAN-ID is one to receive or one to send. -/
theorem Configured.kind {cs : List CanidDef} {d : Dict} (h : Configured cs d) {c : CanId}
    (hc : c ∈ d.canidRoot) :
    (d.info c).kind = .readonly ∨ (d.info c).kind = .send := by
  obtain ⟨x, hx, rfl⟩ := (h.canids c).mp hc
  obtain ⟨m, fd, hinfo⟩ := h.info x hx
  obtain ⟨canid, obj, kind, hkind, hheader⟩ := h.header x hx
  rw [hinfo, hheader]
  exact hkind

/-- A timer is all that changes in a CAN-ID. -/
theorem addSendTimer_info_eq (d : Dict) (c x : CanId) :
    ∃ fd, (d.addSendTimer c).info x = { d.info x with timerfd := fd } := by
  rw [addSendTimer_info]
  split_ifs with hx
  · rw [hx]
    exact ⟨_, rfl⟩
  · exact ⟨(d.info x).timerfd, rfl⟩

theorem addSendTimer_nData (d : Dict) (c x : CanId) :
    ((d.addSendTimer c).info x).nData = (d.info x).nData := by
  obtain ⟨fd, heq⟩ := d.addSendTimer_info_eq c x
  rw [heq]

/-- A timer is created. -/
theorem Configured.addSendTimer {cs : List CanidDef} {d : Dict} (h : Configured cs d)
    (x : CanId) : Configured cs (d.addSendTimer x) where
  sound := h.sound.addSendTimer x
  nodup := h.nodup
  canids := h.canids
  names := h.names
  slots pre c post hsplit := by
    rw [addSendTimer_nData]
    exact h.slots pre c post hsplit
  refused pre c post hsplit i hi := by
    rw [addSendTimer_nData] at hi
    exact h.refused pre c post hsplit i hi
  info c hc := by
    obtain ⟨m, fd, heq⟩ := h.info c hc
    obtain ⟨fd', heq'⟩ := d.addSendTimer_info_eq x c.info.canid
    rw [heq', heq]
    exact ⟨m, fd', rfl⟩
  header := h.header

/-- Where one CAN-ID of the file leads. -/
theorem Configured.step {cs : List CanidDef} {d d' : Dict} {x : ConfigEntry} {e : ℕ}
    (h : Configured cs d) (hkind : x.kind = .readonly ∨ x.kind = .send)
    (hp : parseCaninfo d x.canid x.obj x.kind = some (d', e)) :
    ∃ cs', configuredStep cs x = some cs' ∧ Configured cs' d' := by
  obtain ⟨hknown | hdata, rfl⟩ | ⟨hget, array, ps, err, hdata, hps, d₁, ret, hadd, hd'⟩ :=
    parseCaninfo_cases hp
  · exact ⟨cs, configuredStep_of_known (not_not.mp (mt h.getCANIDDict_none_iff.mpr hknown)), h⟩
  · exact ⟨cs, configuredStep_of_not_array hdata, h⟩
  · refine ⟨_, configuredStep_of_array (h.getCANIDDict_none_iff.mp hget) hdata hps, ?_⟩
    have hheader : (CanidDef.ofMapping x.canid x.obj x.kind ps
        (addPropertyMapping_propertyKind hps)).info
        = { caninfoHeader x.canid x.obj x.kind with nData := ps.length } := rfl
    have hlen : (CanidDef.ofMapping x.canid x.obj x.kind ps
        (addPropertyMapping_propertyKind hps)).property.length = ps.length := rfl
    generalize CanidDef.ofMapping x.canid x.obj x.kind ps
      (addPropertyMapping_propertyKind hps) = c at hadd hheader hlen ⊢
    by_cases hdup : ∃ c' ∈ cs, c'.info.canid = c.info.canid
    · rw [if_pos hdup]
      obtain ⟨-, heq⟩ | ⟨hn, -⟩ := h.sound.addCANIDDict_cases c
      · cases heq.symm.trans hadd
        obtain rfl | ⟨hret, -⟩ := hd'
        · exact h
        · exact absurd hret (by decide)
      · exact absurd ((h.canids _).mpr hdup) hn
    · rw [if_neg hdup]
      have hnew : ∀ c' ∈ cs, c'.info.canid ≠ c.info.canid :=
        fun c' hc' heq => hdup ⟨c', hc', heq⟩
      obtain ⟨d₂, heq, hconf, -⟩ := h.add hnew
        ⟨x.canid, x.obj, x.kind, hkind, by rw [hlen]; exact hheader⟩
      cases heq.symm.trans hadd
      obtain rfl | ⟨-, -, rfl⟩ := hd'
      · exact hconf
      · exact hconf.addSendTimer _

/-! ## The loader -/

/-- The CAN-IDs of a list are defined one list after the other. -/
theorem configuredLoop_append {xs : List ConfigEntry} (ys : List ConfigEntry)
    {cs cs' : List CanidDef} (h : configuredLoop xs cs = some cs') :
    configuredLoop (xs ++ ys) cs = configuredLoop ys cs' := by
  induction xs generalizing cs with
  | nil =>
    cases h
    rfl
  | cons x xs ih =>
    rw [List.cons_append, configuredLoop]
    rw [configuredLoop] at h
    cases hx : configuredStep cs x with
    | none =>
      rw [hx] at h
      cases h
    | some cs₁ =>
      rw [hx] at h
      exact ih h

/-- Where a list of CAN-IDs leads. -/
theorem Configured.canidDef {kind : CanPropertyKind}
    (hkind : kind = .readonly ∨ kind = .send) {l : List (String × Json)} {cs : List CanidDef}
    {d d' : Dict} {err e : ℕ} (h : Configured cs d)
    (hp : parseCanidDef kind l (d, err) = some (d', e)) :
    ∃ cs', configuredLoop
        (l.map (fun m => ⟨kind, BitVec.ofInt 16 (CLib.strtol m.1 16), m.2⟩)) cs = some cs'
      ∧ Configured cs' d' := by
  induction l generalizing cs d err with
  | nil =>
    cases hp
    exact ⟨cs, rfl, h⟩
  | cons m l ih =>
    obtain ⟨key, val⟩ := m
    rw [parseCanidDef] at hp
    split at hp
    · cases hp
    · rename_i d₁ e₁ hx
      obtain ⟨cs₁, hcs₁, h₁⟩ :=
        h.step (x := ⟨kind, BitVec.ofInt 16 (CLib.strtol key 16), val⟩) hkind hx
      obtain ⟨cs', hcs', h'⟩ := ih h₁ hp
      refine ⟨cs', ?_, h'⟩
      rw [List.map_cons, configuredLoop]
      dsimp only
      rw [hcs₁]
      exact hcs'

/-- Where a direction leads. -/
theorem Configured.receptAndTransmission {kind : CanPropertyKind}
    (hkind : kind = .readonly ∨ kind = .send) {l : List (String × Json)} {cs : List CanidDef}
    {d d' : Dict} {err e : ℕ} (h : Configured cs d)
    (hp : parseReceptAndTransmission kind l (d, err) = some (d', e)) :
    ∃ xs cs', blockEntries kind l = some xs ∧ configuredLoop xs cs = some cs'
      ∧ Configured cs' d' := by
  induction l generalizing cs d err with
  | nil =>
    cases hp
    exact ⟨[], cs, rfl, rfl, h⟩
  | cons m l ih =>
    obtain ⟨key, val⟩ := m
    rw [parseReceptAndTransmission] at hp
    by_cases hkey : key = "STANDARD"
    · rw [if_pos hkey] at hp
      cases hdefs : val.objectForeach with
      | none =>
        rw [hdefs] at hp
        cases hp
      | some defs =>
        rw [hdefs] at hp
        dsimp only at hp
        split at hp
        · cases hp
        · rename_i d₁ e₁ hx
          obtain ⟨cs₁, hcs₁, h₁⟩ := h.canidDef hkind hx
          obtain ⟨xs, cs', hxs, hcs', h'⟩ := ih h₁ hp
          refine ⟨_, cs', ?_, (configuredLoop_append xs hcs₁).trans hcs', h'⟩
          rw [blockEntries, if_pos hkey, hdefs, hxs]
    · rw [if_neg hkey] at hp
      rw [blockEntries, if_neg hkey]
      split_ifs at hp
      · exact ih h hp
      · exact ih h hp

/-- Where a file leads. -/
theorem Configured.json {l : List (String × Json)} {cs : List CanidDef} {d d' : Dict}
    {err e : ℕ} (h : Configured cs d) (hp : parseJson l (d, err) = some (d', e)) :
    ∃ xs cs', configEntries l = some xs ∧ configuredLoop xs cs = some cs'
      ∧ Configured cs' d' := by
  induction l generalizing cs d err with
  | nil =>
    cases hp
    exact ⟨[], cs, rfl, rfl, h⟩
  | cons m l ih =>
    obtain ⟨key, val⟩ := m
    rw [parseJson] at hp
    by_cases hkey : key = "RECEPTION" ∨ key = "TRANSMISSION"
    · rw [if_pos hkey] at hp
      cases hblocks : val.objectForeach with
      | none =>
        rw [hblocks] at hp
        cases hp
      | some blocks =>
        rw [hblocks] at hp
        dsimp only at hp
        split at hp
        · cases hp
        · rename_i d₁ e₁ hx
          obtain ⟨xs₁, cs₁, hxs₁, hcs₁, h₁⟩ :=
            h.receptAndTransmission (blockKind_readonly_or_send key) hx
          obtain ⟨xs, cs', hxs, hcs', h'⟩ := ih h₁ hp
          refine ⟨xs₁ ++ xs, cs', ?_, (configuredLoop_append xs hcs₁).trans hcs', h'⟩
          rw [configEntries, if_pos hkey, hblocks, hxs]
          exact congrArg (Option.map (· ++ xs)) hxs₁
    · rw [if_neg hkey] at hp
      rw [configEntries, if_neg hkey]
      exact ih h hp

/-- **A loaded configuration is what the file says.** -/
theorem configured_of_canDefineInit {jobj : Json} {d : Dict}
    (h : canDefineInit jobj = some d) :
    ∃ cs, configured jobj = some cs ∧ Configured cs d := by
  unfold canDefineInit at h
  unfold configured
  cases hl : jobj.objectForeach with
  | none =>
    rw [hl] at h
    cases h
  | some l =>
    rw [hl] at h
    obtain ⟨⟨d', e⟩, heq, rfl⟩ := Option.map_eq_some_iff.mp h
    obtain ⟨xs, cs, hxs, hcs, hd⟩ := configured_empty.json heq
    refine ⟨cs, ?_, hd⟩
    dsimp only
    rw [hxs]
    exact hcs

end Dict
