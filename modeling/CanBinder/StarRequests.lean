import CanBinder.Configuration
import CanBinder.Events

/-!
# Requests for every property

A request for `"*"` is one for every supported property by its name, and
`subscribe_signal` and `subscribe_all` call each other with no argument that gets
smaller. The recursion is that of `fanOut`: it is one pass over the list, each name
handled where it stands, if no name of the list is `"*"` itself; and if one is, the
pass begins anew before it ends, and has no end at any depth (`fanOut_ends_iff`).
Nothing keeps the name out of the list: it is that of an entry whose `PROPERTY` is
`"*"` and that has no zone (`Member.toPropDef_name_eq_star_iff`).
-/

/-! ## One name or all of them -/

section FanOut

variable {σ : Type} (one : σ → String → σ × ℕ) (names : σ → List String)

/-- **A request that fans out**, to a depth: `"*"` is every name of the list, and
any other name is handled on its own. -/
def fanOut : ℕ → σ → String → Option (σ × ℕ)
  | 0, _, _ => none
  | depth + 1, s, name =>
    if name = "*" then Binder.forAll (fanOut depth) (names s) (s, 0) else some (one s name)

/-- One pass over a list: each name is handled once, in order, and the errors are
added up. -/
def visitAll : List String → σ × ℕ → σ × ℕ
  | [], s => s
  | name :: l, (s, err) => visitAll l ((one s name).1, err + (one s name).2)

/-- What a request comes to that does not fan out twice. -/
def visitOnce (s : σ) (name : String) : σ × ℕ :=
  if name = "*" then visitAll one (names s) (s, 0) else one s name

variable {one names}

/-- The requests for names that are handled on their own are one pass. -/
theorem forAll_fanOut {l : List String} (hl : "*" ∉ l) (depth : ℕ) (s : σ × ℕ) :
    Binder.forAll (fanOut one names (depth + 1)) l s = some (visitAll one l s) := by
  induction l generalizing s with
  | nil => rfl
  | cons name l ih =>
    obtain ⟨hname, hrest⟩ := not_or.mp (mt List.mem_cons.mpr hl)
    rw [Binder.forAll, fanOut, if_neg (Ne.symm hname)]
    exact ih hrest _

/-- **A request fans out once** if the list does not have the name for all. -/
theorem fanOut_eq_visitOnce {s : σ} {name : String} (h : name = "*" → "*" ∉ names s)
    (depth : ℕ) : fanOut one names (depth + 2) s name = some (visitOnce one names s name) := by
  rw [fanOut, visitOnce]
  split_ifs with hname
  · exact forAll_fanOut (h hname) depth (s, 0)
  · rfl

variable (hkeep : ∀ s name, names (one s name).1 = names s)

include hkeep

/-- A pass does not come past the name for all, if no request for that comes back. -/
theorem forAll_fanOut_eq_none {depth : ℕ} {s₀ : σ}
    (hstar : ∀ s, names s = names s₀ → fanOut one names depth s "*" = none)
    {l : List String} (hl : "*" ∈ l) {s : σ} (hs : names s = names s₀) (err : ℕ) :
    Binder.forAll (fanOut one names depth) l (s, err) = none := by
  induction l generalizing s err with
  | nil => cases hl
  | cons name l ih =>
    rw [Binder.forAll]
    by_cases hname : name = "*"
    · rw [hname, hstar s hs]
    · have hrest : "*" ∈ l := (List.mem_cons.mp hl).resolve_left (Ne.symm hname)
      cases depth with
      | zero => rfl
      | succ depth =>
        rw [fanOut, if_neg hname]
        exact ih hrest ((hkeep s name).trans hs) _

/-- **A request for all has no end** if the list has the name for all. -/
theorem fanOut_star_eq_none (depth : ℕ) {s : σ} (h : "*" ∈ names s) :
    fanOut one names depth s "*" = none := by
  induction depth generalizing s with
  | zero => rfl
  | succ depth ih =>
    rw [fanOut, if_pos rfl]
    exact forAll_fanOut_eq_none hkeep (fun s' hs' => ih (hs' ▸ h)) h rfl 0

/-- **The recursion ends, after fanning out once, exactly if the list does not have
the name for all.** -/
theorem fanOut_ends_iff {s : σ} {name : String} :
    (∃ n, ∀ depth ≥ n, fanOut one names depth s name = some (visitOnce one names s name))
      ↔ (name = "*" → "*" ∉ names s) := by
  constructor
  · rintro ⟨n, hn⟩ rfl hmem
    have hsome := hn n le_rfl
    rw [fanOut_star_eq_none hkeep n hmem] at hsome
    cases hsome
  · intro h
    refine ⟨2, fun depth hdepth => ?_⟩
    obtain ⟨k, rfl⟩ := Nat.exists_eq_add_of_le' hdepth
    exact fanOut_eq_visitOnce h k

end FanOut

/-! ## The name of a property -/

/-- A name with a zone has an `@`. -/
theorem at_mem_zoneName (name zone : String) : '@' ∈ (name ++ "@" ++ zone).toList := by
  rw [String.toList_append, String.toList_append]
  exact List.mem_append_left _ (List.mem_append_right _ (List.mem_singleton_self _))

/-- **An entry is named like the request for all** if its `PROPERTY` is, and it has
no zone. -/
theorem Member.toPropDef_name_eq_star_iff (m : Member) (kind : CanPropertyKind) :
    (m.toPropDef kind).name = "*" ↔ m.name = some "*" ∧ m.zone = none := by
  cases hzone : m.zone with
  | none => cases hname : m.name <;> simp [toPropDef, hzone, hname]
  | some zone =>
    refine iff_of_false (fun h => ?_) (by simp)
    have hat := at_mem_zoneName (m.name.getD "Unknown") zone
    have hname : m.name.getD "Unknown" ++ "@" ++ zone = "*" := by
      rw [← h, toPropDef, hzone]
    rw [hname] at hat
    exact absurd hat (by decide)

/-- **A file without an entry of that name** lists no such property. -/
theorem Dict.Configured.star_notMem {cs : List CanidDef} {d : Dict} (h : d.Configured cs)
    (hcs : ∀ c ∈ cs, ∀ e ∈ c.property, e.name ≠ "*") : "*" ∉ d.supportPropertyList := by
  intro hmem
  obtain ⟨c, hc, e, he, hname⟩ := (h.names "*").mp
    (Dict.knows_eq_true_iff.mpr (h.sound.listed.exists_of_mem hmem))
  exact hcs c hc e he hname

namespace Binder

/-! ## The requests of the binding -/

theorem subscribeSignal_eq_fanOut (client : Client) (answers : DaemonAnswers) (depth : ℕ) :
    subscribeSignal client answers depth
      = fanOut (subscribeOne client answers) (fun s => s.1.getSupportPropertiesList) depth := by
  induction depth with
  | zero => rfl
  | succ depth ih =>
    funext s name
    rw [subscribeSignal, fanOut, ih]

theorem unsubscribeSignal_eq_fanOut (client : Client) (answers : DaemonAnswers) (depth : ℕ) :
    unsubscribeSignal client answers depth
      = fanOut (unsubscribeOne client answers) (fun b => b.getSupportPropertiesList) depth := by
  induction depth with
  | zero => rfl
  | succ depth ih =>
    funext b name
    rw [unsubscribeSignal, fanOut, ih]

/-- No request changes the list of supported properties. -/
theorem subscribeOne_supportPropertiesList (client : Client) (answers : DaemonAnswers)
    (s : Binder × List (String × Json)) (name : String) :
    (subscribeOne client answers s name).1.1.getSupportPropertiesList
      = s.1.getSupportPropertiesList :=
  congrArg Dict.getSupportPropertiesList (subscribeOne_toDict client answers s name)

theorem unsubscribeOne_supportPropertiesList (client : Client) (answers : DaemonAnswers)
    (b : Binder) (name : String) :
    (unsubscribeOne client answers b name).1.getSupportPropertiesList
      = b.getSupportPropertiesList :=
  congrArg Dict.getSupportPropertiesList (unsubscribeOne_toDict client answers b name)

/-- **Requests end, and visit every property once**: from some depth on both
recursions have come to their result, for `"*"` that of one pass over the supported
properties, none of which is there twice. -/
def RequestsEnd (b : Binder) (client : Client) (answers : DaemonAnswers)
    (apply : List (String × Json)) (name : String) : Prop :=
  b.getSupportPropertiesList.Nodup
    ∧ (∃ n, ∀ depth ≥ n, subscribeSignal client answers depth (b, apply) name
      = some (visitOnce (subscribeOne client answers) (fun s => s.1.getSupportPropertiesList)
          (b, apply) name))
    ∧ ∃ n, ∀ depth ≥ n, unsubscribeSignal client answers depth b name
      = some (visitOnce (unsubscribeOne client answers) (fun b => b.getSupportPropertiesList)
          b name)

/-- **Requests end exactly if no supported property is named like the request for
all**, in every state of every run. -/
theorem requestsEnd_iff {jobj : Json} {d : Dict} (hload : canDefineInit jobj = some d)
    {ins : List Input} {b : Binder} {outs : List Output}
    (hr : run (start d) ins = some (b, outs)) (client : Client) (answers : DaemonAnswers)
    (apply : List (String × Json)) (name : String) :
    b.RequestsEnd client answers apply name ↔ (name = "*" → "*" ∉ d.supportPropertyList) := by
  obtain ⟨cs, -, hconf⟩ := Dict.configured_of_canDefineInit hload
  have hlist : b.getSupportPropertiesList = d.supportPropertyList :=
    (sane_run hconf.sound hr).layout.supportPropertyList
  have hnodup : d.supportPropertyList.Nodup := hconf.sound.listed.nodup
  unfold RequestsEnd
  simp only [subscribeSignal_eq_fanOut, unsubscribeSignal_eq_fanOut]
  rw [fanOut_ends_iff (subscribeOne_supportPropertiesList client answers),
    fanOut_ends_iff (unsubscribeOne_supportPropertiesList client answers), hlist]
  simp [hnodup]

/-- In the sample configuration every request ends. -/
theorem requestsEnd_iff_sample :
    ∃ d, canDefineInit sampleConfig = some d
      ∧ (start d).RequestsEnd 0 {} [] "*" := by
  have hlist : (canDefineInit sampleConfig).map Dict.supportPropertyList
      = some ["speed", "lamp"] := by decide
  obtain ⟨d, hd, hnames⟩ := Option.map_eq_some_iff.mp hlist
  refine ⟨d, hd, (@requestsEnd_iff _ _ hd [] _ _ rfl 0 {} [] "*").mpr (fun _ => ?_)⟩
  rw [hnames]
  decide

/-- A configuration with a property of that name. -/
def starConfig : Json :=
  configFile [("100", configCanid "CAN_THINOUT_NON" 0 [configData "*" "int16_t" 2 0 16])] []

/-- There neither request has an end at any depth. -/
theorem not_requestsEnd_star :
    ∃ d, canDefineInit starConfig = some d
      ∧ (∀ depth, subscribeSignal 0 {} depth (start d, []) "*" = none
        ∧ unsubscribeSignal 0 {} depth (start d) "*" = none)
      ∧ ¬(start d).RequestsEnd 0 {} [] "*" := by
  have hlist : (canDefineInit starConfig).map Dict.supportPropertyList = some ["*"] := by decide
  obtain ⟨d, hd, hnames⟩ := Option.map_eq_some_iff.mp hlist
  have hmem : "*" ∈ (start d).getSupportPropertiesList := by
    show "*" ∈ d.supportPropertyList
    rw [hnames]
    exact List.mem_singleton_self _
  have hsub : ∀ depth, subscribeSignal 0 {} depth (start d, []) "*" = none := fun depth => by
    rw [subscribeSignal_eq_fanOut]
    exact fanOut_star_eq_none (subscribeOne_supportPropertiesList 0 {}) depth hmem
  have hunsub : ∀ depth, unsubscribeSignal 0 {} depth (start d) "*" = none := fun depth => by
    rw [unsubscribeSignal_eq_fanOut]
    exact fanOut_star_eq_none (unsubscribeOne_supportPropertiesList 0 {}) depth hmem
  refine ⟨d, hd, fun depth => ⟨hsub depth, hunsub depth⟩, fun h => ?_⟩
  obtain ⟨n, hn⟩ := h.2.1
  have hsome := hn n le_rfl
  rw [hsub n] at hsome
  cases hsome

end Binder
