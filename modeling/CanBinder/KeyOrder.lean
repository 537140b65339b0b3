import CanBinder.ConversionTables

/-!
# The order of the keys of an entry

A JSON object has no order, but `add_propertyMember` reads its keys one at a time,
in the order of the file, and one of them reads what another has left:
`create_convert_tables` builds the table of `SET-DATA` for the type there is at
that moment. A `TYPE` that stands before it is the type of the property; one that
stands after it comes too late, the type is still `void`, and the table is
ignored. `addPropertyMember_object` is the definition of an entry as a function of
what stands under each key and of that one order, and by
`addPropertyMember_perm_iff` two orders of the same keys give the same definition
unless a table is lost in one of them.
-/

/-! ## Looking up a key -/

namespace Json

/-- The value under a key of distinct ones. -/
theorem lookup_of_mem {l : List (String × Json)} (hnd : (l.map Prod.fst).Nodup)
    {key : String} {v : Json} (h : (key, v) ∈ l) : lookup l key = v := by
  unfold lookup
  cases hf : l.reverse.find? (fun m => m.1 = key) with
  | none =>
    have hne := List.find?_eq_none.mp hf (key, v) (List.mem_reverse.mpr h)
    simp at hne
  | some m =>
    have hm : m ∈ l := List.mem_reverse.mp (List.mem_of_find?_eq_some hf)
    have hkey : m.1 = key := by simpa using List.find?_some hf
    rw [List.inj_on_of_nodup_map hnd hm h hkey]

/-- Nothing is found under a key that is not there. -/
theorem lookup_of_notMem {l : List (String × Json)} {key : String}
    (h : key ∉ l.map Prod.fst) : lookup l key = null := by
  have hf : l.reverse.find? (fun m => m.1 = key) = none := by
    rw [List.find?_eq_none]
    intro m hm hkey
    refine h (List.mem_map.mpr ⟨m, List.mem_reverse.mp hm, ?_⟩)
    simpa using hkey
  rw [lookup, hf]

/-- **What stands under a key does not depend on the order.** -/
theorem lookup_perm {l l' : List (String × Json)} (hperm : l.Perm l')
    (hnd : (l.map Prod.fst).Nodup) (key : String) : lookup l key = lookup l' key := by
  have hnd' : (l'.map Prod.fst).Nodup := (hperm.map Prod.fst).nodup_iff.mp hnd
  by_cases hkey : key ∈ l.map Prod.fst
  · obtain ⟨⟨k, v⟩, hm, rfl⟩ := List.mem_map.mp hkey
    rw [lookup_of_mem hnd hm, lookup_of_mem hnd' (hperm.subset hm)]
  · have hkey' : key ∉ l'.map Prod.fst :=
      fun hc => hkey ((hperm.map Prod.fst).symm.subset hc)
    rw [lookup_of_notMem hkey, lookup_of_notMem hkey']

/-- The first member has its own key. -/
theorem lookup_cons_self {l : List (String × Json)} {key : String} {v : Json}
    (h : key ∉ l.map Prod.fst) : lookup ((key, v) :: l) key = v := by
  have hf := lookup_of_notMem h
  unfold lookup at hf ⊢
  rw [find?_reverse_cons]
  cases hl : l.reverse.find? (fun x => x.1 = key) with
  | none => simp
  | some m =>
    have hm : m ∈ l := List.mem_reverse.mp (List.mem_of_find?_eq_some hl)
    have hkey : m.1 = key := by simpa using List.find?_some hl
    exact absurd (List.mem_map.mpr ⟨m, hm, hkey⟩) h

/-- The other keys are looked up in the rest. -/
theorem lookup_cons_of_ne {l : List (String × Json)} {m : String × Json} {key : String}
    (h : m.1 ≠ key) : lookup (m :: l) key = lookup l key := by
  unfold lookup
  rw [find?_reverse_cons, if_neg h, Option.or_none]

end Json

/-! ## The keys that read nothing but their value -/

/-- The type a value names; nothing, or an unknown name, is `void`. -/
def Json.namedType (v : Json) : VarType := (string2vartype v.getString).getD .void

/-- **What one key does to the name, the zone and the type.** -/
theorem memberStep_names {kind : CanPropertyKind} {m m' : Member} {k : String} {v : Json}
    (h : memberStep kind m k v = some m') :
    m'.name = (if k = "PROPERTY" then v.getString else m.name)
      ∧ m'.zone = (if k = "ZONE" then (getZoneName v).join else m.zone)
      ∧ m'.varType = (if k = "TYPE" then v.namedType else m.varType) := by
  rw [memberStep_eq_some h]
  exact ⟨rfl, rfl, rfl⟩

/-- **The names an entry is stored with** are those that stand under their keys. -/
theorem memberLoop_names {kind : CanPropertyKind} {l : List (String × Json)} {m : Member}
    (h : memberLoop kind l {} = some m) :
    m.name = (Json.lookup l "PROPERTY").getString
      ∧ m.zone = (getZoneName (Json.lookup l "ZONE")).join
      ∧ m.varType = (Json.lookup l "TYPE").namedType :=
  ⟨memberLoop_field_lookup (fun _ _ _ _ hs => (memberStep_names hs).1) rfl h,
    memberLoop_field_lookup
      (fun _ _ _ _ hs => (memberStep_names hs).2.1) rfl h,
    memberLoop_field_lookup (fun _ _ _ _ hs => (memberStep_names hs).2.2) rfl h⟩

/-- The zone is readable: there is none, or it is an array of texts. -/
def Json.ZoneReadable (v : Json) : Prop :=
  v = .null ∨ ∃ zonelist, v = .array zonelist ∧ ∀ z ∈ zonelist, z ≠ .null

/-- The texts of an array are there unless an element is `null`. -/
theorem isSome_mapM_getString_iff {l : List Json} :
    (l.mapM Json.getString).isSome ↔ ∀ z ∈ l, z ≠ .null := by
  induction l with
  | nil => simp
  | cons z l ih =>
    rw [List.mapM_cons, List.forall_mem_cons, ← ih]
    cases z <;> cases List.mapM Json.getString l <;> simp [Json.getString]

/-- **The suffix is computed from a readable zone, and only from one.** -/
theorem getZoneName_isSome_iff {v : Json} : (getZoneName v).isSome ↔ v.ZoneReadable := by
  cases v with
  | null => simp [getZoneName, Json.ZoneReadable]
  | array zonelist =>
    have hmap := @isSome_mapM_getString_iff zonelist
    unfold getZoneName
    cases h : zonelist.mapM Json.getString <;> simp_all [Json.ZoneReadable]
  | _ => simp [getZoneName, Json.ZoneReadable]

/-- One key is read unless it is a `ZONE` that cannot be. -/
theorem memberStep_isSome_iff {kind : CanPropertyKind} {m : Member} {k : String} {v : Json} :
    (memberStep kind m k v).isSome ↔ (k = "ZONE" → v.ZoneReadable) := by
  rw [← getZoneName_isSome_iff, memberStep_eq]
  by_cases hkey : k = "ZONE" <;> cases getZoneName v <;> simp [hkey]

/-- **An entry is read to its end unless its zone cannot be.** -/
theorem memberLoop_isSome_iff {kind : CanPropertyKind} {l : List (String × Json)}
    {m : Member} (hnd : (l.map Prod.fst).Nodup) :
    (memberLoop kind l m).isSome ↔ (Json.lookup l "ZONE").ZoneReadable := by
  induction l generalizing m with
  | nil => exact iff_of_true rfl (Or.inl rfl)
  | cons x l ih =>
    obtain ⟨hx, hnd⟩ := List.nodup_cons.mp hnd
    have hstep := @memberStep_isSome_iff kind m x.1 x.2
    rw [memberLoop]
    by_cases hkey : x.1 = "ZONE"
    · have hlookup : Json.lookup (x :: l) "ZONE" = x.2 := by
        rw [← hkey]
        exact Json.lookup_cons_self hx
      -- no other key of the rest is a zone
      have hrest : (Json.lookup l "ZONE").ZoneReadable :=
        Or.inl (Json.lookup_of_notMem (hkey ▸ hx))
      rw [hlookup]
      cases hm : memberStep kind m x.1 x.2 with
      | none => simp_all
      | some m₁ => simp_all
    · rw [Json.lookup_cons_of_ne hkey]
      cases hm : memberStep kind m x.1 x.2 with
      | none => simp_all
      | some m₁ => exact ih hnd

/-! ## The key that reads what another has left -/

/-- `TYPE` stands before `SET-DATA`, or there is no `SET-DATA`. -/
def TypeFirst (l : List (String × Json)) : Prop :=
  (l.map Prod.fst).idxOf "TYPE" < (l.map Prod.fst).idxOf "SET-DATA"

instance (l : List (String × Json)) : Decidable (TypeFirst l) :=
  inferInstanceAs (Decidable (_ < _))

theorem typeFirst_cons_type {l : List (String × Json)} {v : Json} :
    TypeFirst (("TYPE", v) :: l) := by
  simp [TypeFirst]

theorem not_typeFirst_cons_setData {l : List (String × Json)} {v : Json} :
    ¬ TypeFirst (("SET-DATA", v) :: l) := by
  simp [TypeFirst]

theorem typeFirst_cons_of_ne {l : List (String × Json)} {m : String × Json}
    (htype : m.1 ≠ "TYPE") (htable : m.1 ≠ "SET-DATA") : TypeFirst (m :: l) ↔ TypeFirst l := by
  simp [TypeFirst, htype, htable]

/-- **What one key does to the table**: `SET-DATA` alone sets it, to that of the
type there is. -/
theorem memberStep_dataconv {kind : CanPropertyKind} {m m' : Member} {k : String} {v : Json}
    (h : memberStep kind m k v = some m') :
    (m'.dataconv, m'.nconv)
      = if k = "SET-DATA" ∧ kind ≠ .send then
          (createConvertTables v m.varType,
            ((createConvertTables v m.varType).map ConvTable.length).getD m.nconv)
        else (m.dataconv, m.nconv) := by
  rw [memberStep_eq_some h]
  by_cases hkey : k = "SET-DATA" ∧ kind ≠ .send
  · simp only [Member.afterKey, if_pos hkey]
  · simp only [Member.afterKey, if_neg hkey]

/-- Without the key, or in a block that has no tables, none is set. -/
theorem memberLoop_dataconv_of_notMem {kind : CanPropertyKind} {l : List (String × Json)}
    {m m' : Member} (hl : "SET-DATA" ∈ l.map Prod.fst → kind = .send)
    (h : memberLoop kind l m = some m') :
    (m'.dataconv, m'.nconv) = (m.dataconv, m.nconv) := by
  induction l generalizing m with
  | nil =>
    cases h
    rfl
  | cons x l ih =>
    rw [memberLoop] at h
    cases hm : memberStep kind m x.1 x.2 with
    | none =>
      rw [hm] at h
      cases h
    | some m₁ =>
      rw [hm] at h
      rw [ih (fun hc => hl (List.mem_cons_of_mem _ hc)) h, memberStep_dataconv hm, if_neg]
      rintro ⟨hkey, hkind⟩
      refine hkind (hl ?_)
      rw [List.map_cons, hkey]
      exact List.mem_cons_self

/-- The type a table is built for: that of the entry if it stands first. -/
def tableType (l : List (String × Json)) (t : VarType) : VarType :=
  if TypeFirst l then (Json.lookup l "TYPE").namedType else t

/-- **The table an entry is stored with** is built for the type that stands
before it. -/
theorem memberLoop_dataconv {kind : CanPropertyKind} {l : List (String × Json)}
    {m m' : Member} (hnd : (l.map Prod.fst).Nodup) (hkind : kind ≠ .send)
    (hkey : "SET-DATA" ∈ l.map Prod.fst) (h : memberLoop kind l m = some m') :
    (m'.dataconv, m'.nconv)
      = (createConvertTables (Json.lookup l "SET-DATA") (tableType l m.varType),
        ((createConvertTables (Json.lookup l "SET-DATA") (tableType l m.varType)).map
          ConvTable.length).getD m.nconv) := by
  induction l generalizing m with
  | nil => cases hkey
  | cons x l ih =>
    obtain ⟨k, v⟩ := x
    obtain ⟨hx, hnd⟩ := List.nodup_cons.mp hnd
    rw [memberLoop] at h
    cases hm : memberStep kind m k v with
    | none =>
      rw [hm] at h
      cases h
    | some m₁ =>
      rw [hm] at h
      dsimp only at h
      have htable := memberStep_dataconv hm
      by_cases hk : k = "SET-DATA"
      · -- here the table is built, and nothing that follows touches it
        subst hk
        rw [if_pos ⟨rfl, hkind⟩] at htable
        rw [memberLoop_dataconv_of_notMem (fun hc => absurd hc hx) h, htable,
          Json.lookup_cons_self hx, tableType, if_neg not_typeFirst_cons_setData]
      · have hkey' : "SET-DATA" ∈ l.map Prod.fst :=
          (List.mem_cons.mp hkey).resolve_left (Ne.symm hk)
        rw [if_neg (fun hc => hk hc.1)] at htable
        have hnconv : m₁.nconv = m.nconv := congrArg Prod.snd htable
        have htype : tableType l m₁.varType = tableType ((k, v) :: l) m.varType := by
          have hvar := (memberStep_names hm).2.2
          by_cases ht : k = "TYPE"
          · -- the type there is from now on, as no other follows
            subst ht
            have hnot : ¬ TypeFirst l := by
              rw [TypeFirst, List.idxOf_of_notMem hx]
              exact not_lt_of_ge List.idxOf_le_length
            rw [tableType, if_neg hnot, tableType, if_pos typeFirst_cons_type,
              Json.lookup_cons_self hx, hvar, if_pos rfl]
          · rw [if_neg ht] at hvar
            simp only [tableType, typeFirst_cons_of_ne (m := (k, v)) ht hk, hvar,
              Json.lookup_cons_of_ne (m := (k, v)) ht]
        rw [ih hnd hkey' h, Json.lookup_cons_of_ne (m := (k, v)) hk, hnconv, htype]

/-! ## An entry as a whole -/

/-- The table of an entry. -/
def entryTable (kind : CanPropertyKind) (l : List (String × Json)) : Option ConvTable :=
  if kind = .send then none
  else createConvertTables (Json.lookup l "SET-DATA") (tableType l .void)

/-- **An entry as a function of what stands under each of its keys**, and of the
order of two of them. -/
def entryMember (kind : CanPropertyKind) (l : List (String × Json)) : Member where
  bytePos := boundedByte (Json.lookup l "POS") 8#8
  bitPos := boundedByte (Json.lookup l "OFFS") 8#8
  bitLen := boundedByte (Json.lookup l "LEN") 32#8
  varType := (Json.lookup l "TYPE").namedType
  name := (Json.lookup l "PROPERTY").getString
  zone := (getZoneName (Json.lookup l "ZONE")).join
  nconv := ((entryTable kind l).map ConvTable.length).getD 0
  dataconv := entryTable kind l

/-- **The local variables after the last key.** -/
theorem memberLoop_eq {kind : CanPropertyKind} {l : List (String × Json)} {m : Member}
    (hnd : (l.map Prod.fst).Nodup) (h : memberLoop kind l {} = some m) :
    m = entryMember kind l := by
  obtain ⟨hbyte, hbit, hlen⟩ := memberLoop_layout h
  obtain ⟨hname, hzone, htype⟩ := memberLoop_names h
  have htable : (m.dataconv, m.nconv)
      = (entryTable kind l, ((entryTable kind l).map ConvTable.length).getD 0) := by
    by_cases hkind : kind = .send
    · rw [memberLoop_dataconv_of_notMem (fun _ => hkind) h, entryTable, if_pos hkind]
      rfl
    · rw [entryTable, if_neg hkind]
      by_cases hkey : "SET-DATA" ∈ l.map Prod.fst
      · exact memberLoop_dataconv hnd hkind hkey h
      · rw [memberLoop_dataconv_of_notMem (fun hc => absurd hc hkey) h,
          Json.lookup_of_notMem hkey]
        rfl
  have hdataconv : m.dataconv = entryTable kind l := congrArg Prod.fst htable
  have hnconv : m.nconv = ((entryTable kind l).map ConvTable.length).getD 0 :=
    congrArg Prod.snd htable
  cases m
  simp only at hbyte hbit hlen hname hzone htype hdataconv hnconv
  rw [hbyte, hbit, hlen, hname, hzone, htype, hdataconv, hnconv]
  rfl

/-- **The definition of an entry**, in closed form. -/
theorem addPropertyMember_object {kind : CanPropertyKind} {l : List (String × Json)}
    (hnd : (l.map Prod.fst).Nodup) (hzone : (Json.lookup l "ZONE").ZoneReadable) :
    addPropertyMember (.object l) kind = some ((entryMember kind l).toPropDef kind) := by
  have hsome : (memberLoop kind l {}).isSome := (memberLoop_isSome_iff hnd).mpr hzone
  obtain ⟨m, hm⟩ := Option.isSome_iff_exists.mp hsome
  rw [addPropertyMember, Json.objectForeach]
  dsimp only
  rw [hm, memberLoop_eq hnd hm]

/-- An entry whose zone cannot be read. -/
theorem addPropertyMember_object_of_not {kind : CanPropertyKind} {l : List (String × Json)}
    (hnd : (l.map Prod.fst).Nodup) (hzone : ¬ (Json.lookup l "ZONE").ZoneReadable) :
    addPropertyMember (.object l) kind = none := by
  have hnone : memberLoop kind l {} = none :=
    Option.not_isSome_iff_eq_none.mp (fun hc => hzone ((memberLoop_isSome_iff hnd).mp hc))
  rw [addPropertyMember, Json.objectForeach]
  dsimp only
  rw [hnone]

/-! ## Two orders of the same keys -/

/-- **A value is a table of a type**: a non-empty array of strings for `string`,
and one of integers for the types that are read as one. -/
def Json.DescribesTable (v : Json) (t : VarType) : Prop :=
  ∃ l, v = .array l ∧ l ≠ []
    ∧ (t = .string ∧ (∀ j ∈ l, ∃ s, j = .string s)
      ∨ t ∈ [.int8, .int16, .int, .int32, .uint8, .uint16, .uint, .uint32, .bool, .enable1]
        ∧ (∀ j ∈ l, ∃ i, j = .int i))

theorem stringElements_isSome_iff {l : List Json} :
    (stringElements l).isSome ↔ ∀ j ∈ l, ∃ s, j = .string s := by
  induction l with
  | nil => simp [stringElements]
  | cons j l ih =>
    rw [List.forall_mem_cons, ← ih]
    cases j <;> simp [stringElements]

theorem intElements_isSome_iff {l : List Json} :
    (intElements l).isSome ↔ ∀ j ∈ l, ∃ i, j = .int i := by
  induction l with
  | nil => simp [intElements]
  | cons j l ih =>
    rw [List.forall_mem_cons, ← ih]
    cases j <;> simp [intElements]

/-- **A table is built exactly where one is described.** -/
theorem createConvertTables_isSome_iff {v : Json} {t : VarType} :
    (createConvertTables v t).isSome ↔ v.DescribesTable t := by
  cases v with
  | array l =>
    cases l with
    | nil => simp [createConvertTables, Json.DescribesTable]
    | cons j l =>
      cases t <;> simp [createConvertTables, Json.DescribesTable, stringElements_isSome_iff,
        intElements_isSome_iff]
  | _ => simp [createConvertTables, Json.DescribesTable]

/-- There is no table of the type nobody gave. -/
theorem createConvertTables_void (v : Json) : createConvertTables v .void = none := by
  unfold createConvertTables
  split <;> rfl

theorem entryTable_of_typeFirst {kind : CanPropertyKind} {l : List (String × Json)}
    (hkind : kind ≠ .send) (h : TypeFirst l) :
    entryTable kind l
      = createConvertTables (Json.lookup l "SET-DATA") (Json.lookup l "TYPE").namedType := by
  rw [entryTable, if_neg hkind, tableType, if_pos h]

theorem entryTable_of_not_typeFirst {kind : CanPropertyKind} {l : List (String × Json)}
    (h : ¬ TypeFirst l) : entryTable kind l = none := by
  rw [entryTable, tableType, if_neg h, createConvertTables_void, ite_self]

/-- **Two orders give the same table** unless it is lost in one of them. -/
theorem entryTable_perm_iff {kind : CanPropertyKind} {l l' : List (String × Json)}
    (hnd : (l.map Prod.fst).Nodup) (hperm : l.Perm l') :
    entryTable kind l' = entryTable kind l
      ↔ (TypeFirst l' ↔ TypeFirst l) ∨ kind = .send
        ∨ ¬ (Json.lookup l "SET-DATA").DescribesTable (Json.lookup l "TYPE").namedType := by
  by_cases hkind : kind = .send
  · simp [entryTable, hkind]
  have htable : (Json.lookup l "SET-DATA").DescribesTable (Json.lookup l "TYPE").namedType
      ↔ createConvertTables (Json.lookup l "SET-DATA") (Json.lookup l "TYPE").namedType ≠ none := by
    rw [← createConvertTables_isSome_iff, Option.isSome_iff_ne_none]
  have hdata := (Json.lookup_perm hperm hnd "SET-DATA").symm
  have htype := (Json.lookup_perm hperm hnd "TYPE").symm
  by_cases h : TypeFirst l <;> by_cases h' : TypeFirst l'
  · simp [entryTable_of_typeFirst hkind h, entryTable_of_typeFirst hkind h', hdata, htype, h, h']
  · rw [entryTable_of_typeFirst hkind h, entryTable_of_not_typeFirst h', htable]
    simp [h, h', hkind, eq_comm]
  · rw [entryTable_of_not_typeFirst h, entryTable_of_typeFirst hkind h', hdata, htype, htable]
    simp [h, h', hkind]
  · simp [entryTable_of_not_typeFirst h, entryTable_of_not_typeFirst h', h, h']

/-- **The order of the keys of an entry counts in one case only**: its table is
built where `TYPE` stands before `SET-DATA`, and lost where it stands after it. -/
theorem addPropertyMember_perm_iff {kind : CanPropertyKind} {l l' : List (String × Json)}
    (hnd : (l.map Prod.fst).Nodup) (hperm : l.Perm l') :
    addPropertyMember (.object l') kind = addPropertyMember (.object l) kind
      ↔ (TypeFirst l' ↔ TypeFirst l) ∨ kind = .send
        ∨ ¬ (Json.lookup l "SET-DATA").DescribesTable (Json.lookup l "TYPE").namedType
        ∨ ¬ (Json.lookup l "ZONE").ZoneReadable := by
  have hnd' : (l'.map Prod.fst).Nodup := (hperm.map Prod.fst).nodup_iff.mp hnd
  have hlookup := Json.lookup_perm hperm hnd
  by_cases hzone : (Json.lookup l "ZONE").ZoneReadable
  · have hmember : addPropertyMember (.object l') kind = addPropertyMember (.object l) kind
        ↔ entryTable kind l' = entryTable kind l := by
      rw [addPropertyMember_object hnd hzone,
        addPropertyMember_object hnd' (hlookup "ZONE" ▸ hzone), Option.some_inj]
      constructor
      · intro h
        exact congrArg PropDef.dataconv h
      · intro h
        -- everything but the table is the same in every order
        have heq : entryMember kind l' = entryMember kind l := by
          unfold entryMember
          rw [h, hlookup "POS", hlookup "OFFS", hlookup "LEN", hlookup "TYPE",
            hlookup "PROPERTY", hlookup "ZONE"]
        rw [heq]
    rw [hmember, entryTable_perm_iff hnd hperm]
    simp [hzone]
  · rw [addPropertyMember_object_of_not hnd hzone,
      addPropertyMember_object_of_not hnd' (fun hc => hzone (hlookup "ZONE" ▸ hc))]
    simp [hzone]

/-- A `DATA` entry of a property with a table, in the usual order. -/
def tableEntry : List (String × Json) :=
  [("PROPERTY", .string "door"), ("POS", .int 1), ("LEN", .int 2),
    ("TYPE", .string "string"), ("SET-DATA", .array [.string "open", .string "closed"])]

/-- Any order of its keys with `TYPE` before `SET-DATA` keeps the table. -/
theorem addPropertyMember_perm_iff_tableEntry :
    addPropertyMember (.object (tableEntry.drop 3 ++ tableEntry.take 3)) .readonly
      = addPropertyMember (.object tableEntry) .readonly :=
  (addPropertyMember_perm_iff (by decide)
    (@List.perm_append_comm _ (tableEntry.take 3) (tableEntry.drop 3))).mpr
    (Or.inl (by decide))

/-- The other way round it is lost. -/
theorem addPropertyMember_reverse_tableEntry :
    (tableEntry.map Prod.fst).Nodup ∧ tableEntry.Perm tableEntry.reverse
      ∧ (addPropertyMember (.object tableEntry) .readonly).map PropDef.dataconv
        = some (some (.strings ["open", "closed"]))
      ∧ (addPropertyMember (.object tableEntry.reverse) .readonly).map PropDef.dataconv
        = some none
      ∧ addPropertyMember (.object tableEntry.reverse) .readonly
        ≠ addPropertyMember (.object tableEntry) .readonly := by
  refine ⟨by decide, (List.reverse_perm tableEntry).symm, by decide, by decide, by decide⟩
