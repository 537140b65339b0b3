import CanBinder.Configuration
import CanBinder.Layout

/-!
# The conversion tables of a configuration

`create_convert_tables` allocates an array of strings or one of integers, as the
type asks for that was read so far, and the decoder casts the pointer to the array
by the type the property has in the end. The two types are one because the objects
of `json-c` have each key once (`Json.distinct`): a `TYPE` that follows its
`SET-DATA` finds the type `void`, of which there is no table, and one that stands
before it is the last. So a table of a loaded configuration has the elements it is
read with and the length that is recorded for it
(`Dict.propDefValid_of_canDefineInit`).
-/

namespace Json

mutual

/-- **Every object in a value has each key once**, as the hash tables of `json-c`
do. -/
def distinct : Json → Bool
  | array l => distinctElements l
  | object l => decide (l.map Prod.fst).Nodup && distinctMembers l
  | _ => true

/-- The same for the elements of an array. -/
def distinctElements : List Json → Bool
  | [] => true
  | j :: l => distinct j && distinctElements l

/-- The same for the values of the members of an object. -/
def distinctMembers : List (String × Json) → Bool
  | [] => true
  | (_, j) :: l => distinct j && distinctMembers l

end

/-- The elements of an array. -/
theorem distinct_of_mem_array {l : List Json} (h : (array l).distinct = true) {j : Json}
    (hj : j ∈ l) : j.distinct = true := by
  rw [distinct] at h
  induction l with
  | nil => cases hj
  | cons x l ih =>
    rw [distinctElements, Bool.and_eq_true] at h
    obtain rfl | hj := List.mem_cons.mp hj
    · exact h.1
    · exact ih h.2 hj

/-- The keys of an object. -/
theorem nodup_of_distinct {l : List (String × Json)} (h : (object l).distinct = true) :
    (l.map Prod.fst).Nodup := by
  rw [distinct, Bool.and_eq_true] at h
  exact of_decide_eq_true h.1

/-- The values of the members of an object. -/
theorem distinct_of_mem_object {l : List (String × Json)} (h : (object l).distinct = true)
    {m : String × Json} (hm : m ∈ l) : m.2.distinct = true := by
  rw [distinct, Bool.and_eq_true] at h
  replace h := h.2
  induction l with
  | nil => cases hm
  | cons x l ih =>
    rw [distinctMembers, Bool.and_eq_true] at h
    obtain rfl | hm := List.mem_cons.mp hm
    · exact h.1
    · exact ih hm h.2

/-- What is found under a key. -/
theorem distinct_objectGet {j : Json} (h : j.distinct = true) (key : String) :
    (j.objectGet key).distinct = true := by
  cases j with
  | object l =>
    show (lookup l key).distinct = true
    unfold lookup
    cases hfind : l.reverse.find? (fun m => m.1 = key) with
    | none => rfl
    | some m =>
      exact distinct_of_mem_object h (List.mem_reverse.mp (List.mem_of_find?_eq_some hfind))
  | _ => rfl

/-- What the key loop runs over. -/
theorem distinct_of_objectForeach {j : Json} {l : List (String × Json)}
    (h : j.distinct = true) (hl : j.objectForeach = some l) : (object l).distinct = true := by
  cases j with
  | object l' =>
    cases hl
    exact h
  | _ => cases hl

end Json

/-! ## One table -/

/-- **The table has the elements a type is read with**: pointers to strings for
`string`, and integers for the types that are cast from one. -/
def ConvTable.Matches : ConvTable → VarType → Prop
  | .strings _, t => t = .string
  | .ints _, t =>
    t ∈ [.int8, .int16, .int, .int32, .uint8, .uint16, .uint, .uint32, .bool, .enable1]

/-- There is no table of the type nobody gave. -/
theorem ConvTable.Matches.ne_void {conv : ConvTable} {t : VarType} (h : conv.Matches t) :
    t ≠ .void := by
  rintro rfl
  cases conv with
  | strings l => cases h
  | ints l => simp [ConvTable.Matches] at h

/-- **A table that is built has the elements of its type.** -/
theorem createConvertTables_matches {obj : Json} {t : VarType} {conv : ConvTable}
    (h : createConvertTables obj t = some conv) : conv.Matches t := by
  unfold createConvertTables at h
  split at h
  · cases h
  · rename_i convlist
    cases t with
    | string =>
      obtain ⟨l, -, rfl⟩ := Option.map_eq_some_iff.mp h
      rfl
    | void | int64 | uint64 | array => cases h
    | _ =>
      obtain ⟨l, -, rfl⟩ := Option.map_eq_some_iff.mp h
      simp [ConvTable.Matches]
  · cases h

/-! ## One entry -/

/-- **What one key does to the type and the table**: `TYPE` alone sets the type,
and a table that was not there before is one of the type there is. -/
theorem memberStep_table {kind : CanPropertyKind} {m m' : Member} {k : String} {v : Json}
    (h : memberStep kind m k v = some m') :
    (k ≠ "TYPE" → m'.varType = m.varType)
      ∧ (∀ conv, m'.dataconv = some conv →
        m.dataconv = some conv ∧ m'.nconv = m.nconv
          ∨ conv.Matches m.varType ∧ k ≠ "TYPE" ∧ m'.nconv = conv.length) := by
  rw [memberStep_eq_some h]
  refine ⟨fun hne => if_neg hne, fun conv hconv => ?_⟩
  by_cases hkey : k = "SET-DATA" ∧ kind ≠ .send
  · -- this key builds the table, and no other value of it is kept
    simp only [Member.afterKey, if_pos hkey] at hconv ⊢
    refine Or.inr ⟨createConvertTables_matches hconv, ?_, ?_⟩
    · rw [hkey.1]
      decide
    · rw [hconv]
      rfl
  · simp only [Member.afterKey, if_neg hkey] at hconv
    exact Or.inl ⟨hconv, if_neg hkey⟩

/-- **The local variables, with the keys `rest` to come**: as long as `TYPE` is
among them the type is `void`, and a table is one of the type there is. -/
structure Member.TableInv (m : Member) (rest : List String) : Prop where
  untyped : "TYPE" ∈ rest → m.varType = .void
  table : ∀ conv, m.dataconv = some conv → conv.Matches m.varType ∧ m.nconv = conv.length

/-- One key. -/
theorem Member.TableInv.step {kind : CanPropertyKind} {m m' : Member} {k : String} {v : Json}
    {rest : List String} (h : m.TableInv (k :: rest)) (hnd : (k :: rest).Nodup)
    (hstep : memberStep kind m k v = some m') : m'.TableInv rest := by
  obtain ⟨htype, htable⟩ := memberStep_table hstep
  have hnotin : k ∉ rest := (List.nodup_cons.mp hnd).1
  refine ⟨fun hrest => ?_, fun conv hconv => ?_⟩
  · have hne : k ≠ "TYPE" := fun heq => hnotin (heq ▸ hrest)
    rw [htype hne]
    exact h.untyped (List.mem_cons_of_mem _ hrest)
  · rcases htable conv hconv with ⟨hold, hlen⟩ | ⟨hmatch, hne, hlen⟩
    · obtain ⟨hmatch, hold'⟩ := h.table conv hold
      -- the type was read before this table was built
      have hne : k ≠ "TYPE" := fun heq =>
        hmatch.ne_void (h.untyped (heq ▸ List.mem_cons_self))
      rw [htype hne, hlen]
      exact ⟨hmatch, hold'⟩
    · rw [htype hne]
      exact ⟨hmatch, hlen⟩

/-- The keys of an entry. -/
theorem Member.TableInv.loop {kind : CanPropertyKind} {l : List (String × Json)} {m m' : Member}
    (h : m.TableInv (l.map Prod.fst)) (hnd : (l.map Prod.fst).Nodup)
    (hloop : memberLoop kind l m = some m') : m'.TableInv [] := by
  induction l generalizing m with
  | nil =>
    cases hloop
    exact h
  | cons x l ih =>
    rw [memberLoop] at hloop
    split at hloop
    · cases hloop
    · rename_i m₁ hstep
      exact ih (h.step hnd hstep) (List.nodup_cons.mp hnd).2 hloop

/-- **A definition as the configuration gives one**: the field has at most 32 bits,
and a table has the elements its type is read with and the length that is
recorded for it. -/
structure PropDef.Valid (p : PropDef) : Prop where
  bitLen_le : p.bitLen.toNat ≤ 32
  table : ∀ conv, p.dataconv = some conv → conv.Matches p.varType ∧ p.nconv = conv.length

/-- **Every entry that is read is valid.** -/
theorem addPropertyMember_valid {obj : Json} {kind : CanPropertyKind} {p : PropDef}
    (hobj : obj.distinct = true) (h : addPropertyMember obj kind = some p) : p.Valid := by
  obtain ⟨l, m, rfl, hloop, rfl⟩ := addPropertyMember_eq_some h
  have hstart : ({} : Member).TableInv (l.map Prod.fst) :=
    ⟨fun _ => rfl, fun _ hc => absurd hc (Option.some_ne_none _).symm⟩
  refine ⟨?_, (hstart.loop (Json.nodup_of_distinct hobj) hloop).table⟩
  rw [(addPropertyMember_layout h).2.2]
  exact boundedByte_le (Json.lookup l "LEN") 32#8

/-! ## A file -/

/-- The definitions of the CAN-IDs of a list. -/
theorem configuredLoop_valid {xs : List ConfigEntry} {cs cs' : List CanidDef}
    (h : configuredLoop xs cs = some cs') (hxs : ∀ x ∈ xs, x.obj.distinct = true)
    (hcs : ∀ c ∈ cs, ∀ p ∈ c.property, p.Valid) : ∀ c ∈ cs', ∀ p ∈ c.property, p.Valid := by
  induction xs generalizing cs with
  | nil =>
    cases h
    exact hcs
  | cons x xs ih =>
    rw [configuredLoop] at h
    split at h
    · cases h
    · rename_i cs₁ hstep
      refine ih h (fun y hy => hxs y (List.mem_cons_of_mem _ hy)) ?_
      have hx := hxs x List.mem_cons_self
      unfold configuredStep at hstep
      split_ifs at hstep
      · cases hstep
        exact hcs
      · split at hstep
        · rename_i array hdata
          split at hstep
          · cases hstep
          · rename_i ps err hps
            have hnew : ∀ p ∈ ps, p.Valid := addPropertyMapping_forall hps (fun obj hobj p hp =>
              addPropertyMember_valid
                (Json.distinct_of_mem_array (hdata ▸ Json.distinct_objectGet hx "DATA") hobj) hp)
            dsimp only at hstep
            split_ifs at hstep
            · cases hstep
              exact hcs
            · cases hstep
              intro c hc
              rcases List.mem_append.mp hc with hc | hc
              · exact hcs c hc
              · rw [List.mem_singleton.mp hc]
                exact hnew
        · cases hstep
          exact hcs

/-- The values of the CAN-IDs of a direction. -/
theorem distinct_blockEntries {kind : CanPropertyKind} {l : List (String × Json)}
    {xs : List ConfigEntry} (hl : ∀ m ∈ l, m.2.distinct = true)
    (h : blockEntries kind l = some xs) : ∀ x ∈ xs, x.obj.distinct = true := by
  induction l generalizing xs with
  | nil =>
    cases h
    exact fun x hx => absurd hx List.not_mem_nil
  | cons m l ih =>
    obtain ⟨key, val⟩ := m
    have hrest : ∀ m ∈ l, m.2.distinct = true := fun m hm => hl m (List.mem_cons_of_mem _ hm)
    rw [blockEntries] at h
    split_ifs at h with hkey
    · cases hdefs : val.objectForeach with
      | none =>
        rw [hdefs] at h
        cases h
      | some defs =>
        cases hes : blockEntries kind l with
        | none =>
          rw [hdefs, hes] at h
          cases h
        | some es =>
          rw [hdefs, hes] at h
          cases h
          intro x hx
          rcases List.mem_append.mp hx with hx | hx
          · obtain ⟨m, hm, rfl⟩ := List.mem_map.mp hx
            exact Json.distinct_of_mem_object
              (Json.distinct_of_objectForeach (hl _ List.mem_cons_self) hdefs) hm
          · exact ih hrest hes x hx
    · exact ih hrest h

/-- The values of the CAN-IDs of a file. -/
theorem distinct_configEntries {l : List (String × Json)} {xs : List ConfigEntry}
    (hl : ∀ m ∈ l, m.2.distinct = true) (h : configEntries l = some xs) :
    ∀ x ∈ xs, x.obj.distinct = true := by
  induction l generalizing xs with
  | nil =>
    cases h
    exact fun x hx => absurd hx List.not_mem_nil
  | cons m l ih =>
    obtain ⟨key, val⟩ := m
    have hrest : ∀ m ∈ l, m.2.distinct = true := fun m hm => hl m (List.mem_cons_of_mem _ hm)
    rw [configEntries] at h
    by_cases hkey : key = "RECEPTION" ∨ key = "TRANSMISSION"
    · rw [if_pos hkey] at h
      cases hblocks : val.objectForeach with
      | none =>
        rw [hblocks] at h
        cases h
      | some blocks =>
        cases hes : configEntries l with
        | none =>
          rw [hblocks, hes] at h
          cases h
        | some es =>
          rw [hblocks, hes] at h
          obtain ⟨ys, hys, rfl⟩ := Option.map_eq_some_iff.mp h
          have hobj := Json.distinct_of_objectForeach (hl _ List.mem_cons_self) hblocks
          intro x hx
          rcases List.mem_append.mp hx with hx | hx
          · exact distinct_blockEntries (fun m hm => Json.distinct_of_mem_object hobj hm) hys x hx
          · exact ih hrest hes x hx
    · rw [if_neg hkey] at h
      exact ih hrest h

/-- **Every definition of a configuration is valid.** -/
theorem configured_valid {jobj : Json} {cs : List CanidDef} (hjson : jobj.distinct = true)
    (h : configured jobj = some cs) : ∀ c ∈ cs, ∀ p ∈ c.property, p.Valid := by
  unfold configured at h
  cases hl : jobj.objectForeach with
  | none =>
    rw [hl] at h
    cases h
  | some l =>
    rw [hl] at h
    dsimp only at h
    cases hxs : configEntries l with
    | none =>
      rw [hxs] at h
      cases h
    | some xs =>
      rw [hxs] at h
      have hobj := Json.distinct_of_objectForeach hjson hl
      exact configuredLoop_valid h
        (distinct_configEntries (fun m hm => Json.distinct_of_mem_object hobj hm) hxs)
        (fun c hc => absurd hc List.not_mem_nil)

/-- **Every slot of a loaded configuration holds a valid definition.** -/
theorem Dict.propDefValid_of_canDefineInit {jobj : Json} {d : Dict}
    (hload : canDefineInit jobj = some d) (hjson : jobj.distinct = true) {c : CanId}
    (hc : c ∈ d.canidRoot) {i : ℕ} (hi : i < (d.info c).nData) :
    (d.mem (.slot c i)).Valid := by
  obtain ⟨cs, hcs, hconf⟩ := configured_of_canDefineInit hload
  obtain ⟨x, hx, rfl⟩ := (hconf.canids c).mp hc
  obtain ⟨pre, post, hsplit⟩ := List.append_of_mem hx
  exact configured_valid hjson hcs x hx _ (hconf.toPropDef_mem hsplit hi)
