import CanBinder.CanidSearch
import CanBinder.Json

/-!
# Reading the configuration

The loader of `can_json.c`. A configuration is a JSON object with a
`RECEPTION` and a `TRANSMISSION` block, each with a `STANDARD` block whose
keys are CAN-IDs in hexadecimal; a CAN-ID has its mode, cycle and DLC and an
array of `DATA` entries, and each entry becomes a property.

What the loader finds wrong it mostly reports and passes over, so the result
of a step is the data it leaves and the number of errors. `none` is a read
through a null pointer: an entry that is no object, a `ZONE` that is no
array.
-/

/-! ## Zones -/

/-- The zones, with the bit each sets. -/
def zoneBits : List (String × ℕ) :=
  [("Zone::Front", 1), ("Zone::Middle", 1 <<< 1), ("Zone::Right", 1 <<< 2),
    ("Zone::Left", 1 <<< 3), ("Zone::Rear", 1 <<< 4), ("Zone::Center", 1 <<< 5),
    ("Zone::LeftSide", 1 <<< 6), ("Zone::RightSide", 1 <<< 7),
    ("Zone::FrontSide", 1 <<< 8), ("Zone::BackSide", 1 <<< 9),
    ("Zone::Driver", 1 <<< 11), ("Zone::Passenger", 1 <<< 10)]

/-- The words of the suffix, in the order in which they are appended. -/
def zoneWords : List (ℕ × String) :=
  [(1, "Front"), (1 <<< 1, "Middle"), (1 <<< 2, "Right"), (1 <<< 3, "Left"),
    (1 <<< 4, "Rear"), (1 <<< 5, "Center"), (1 <<< 6, "Leftside"),
    (1 <<< 7, "Rightside"), (1 <<< 8, "Frontside"), (1 <<< 9, "Backside"),
    (1 <<< 11, "Driver"), (1 <<< 10, "Passenger")]

/-- The effect of one zone name on `zone_val`; an unknown name is reported
and passed over. -/
def zoneStep (zoneVal : ℕ) (zname : String) : ℕ :=
  if zname = "Zone::None" then 0
  else
    match zoneBits.find? (fun z => z.1 = zname) with
    | some z => zoneVal ||| z.2
    | none => zoneVal

/-- The suffix of a set of zones. -/
def zoneSuffix (zoneVal : ℕ) : String :=
  String.join ((zoneWords.filter (fun w => zoneVal &&& w.1 ≠ 0)).map Prod.snd)

/-- **`_getZoneName`**: the suffix of a list of zones, if it names any. A
`null` list has none. -/
def getZoneName : Json → Option (Option String)
  | .null => some none
  | .array zonelist =>
    match zonelist.mapM Json.getString with
    | none => none
    | some names =>
      let zoneVal := names.foldl zoneStep 0
      some (if zoneVal = 0 then none else some (zoneSuffix zoneVal))
  | _ => none

/-! ## Conversion tables -/

/-- The texts of an array of strings; `none` if an element is no string. -/
def stringElements : List Json → Option (List String)
  | [] => some []
  | .string s :: l => (stringElements l).map (s :: ·)
  | _ :: _ => none

/-- The numbers of an array of integers; `none` if an element is no
integer. -/
def intElements : List Json → Option (List (BitVec 32))
  | [] => some []
  | .int i :: l => (intElements l).map (BitVec.ofInt 32 (Json.getInt (.int i)) :: ·)
  | _ :: _ => none

/-- **`create_convert_tables`**: the table of a `SET-DATA` array, of the kind
the type asks for. -/
def createConvertTables (obj : Json) (varType : VarType) : Option ConvTable :=
  match obj with
  | .array [] => none
  | .array convlist =>
    match varType with
    | .string => (stringElements convlist).map ConvTable.strings
    | .int8 | .int16 | .int | .int32 | .uint8 | .uint16 | .uint | .uint32
    | .bool | .enable1 => (intElements convlist).map ConvTable.ints
    | .void | .int64 | .uint64 | .array => none
  | _ => none

/-! ## Properties -/

/-- The local variables of `add_propertyMember`. -/
structure Member where
  /-- `byte_pos`, zero until `POS` is read. -/
  bytePos : BitVec 8 := 0#8
  /-- `bit_pos`. -/
  bitPos : BitVec 8 := 0#8
  /-- `bit_len`. -/
  bitLen : BitVec 8 := 0#8
  /-- `var_type`. -/
  varType : VarType := .void
  /-- `name`. -/
  name : Option String := none
  /-- `zone`. -/
  zone : Option String := none
  /-- `nconv`. -/
  nconv : ℕ := 0
  /-- `dataconv`. -/
  dataconv : Option ConvTable := none

/-- A small number of an entry: cast to `unsigned char`, and reset to zero
where the cast value is above the bound. -/
def boundedByte (val : Json) (max : BitVec 8) : BitVec 8 :=
  let b := BitVec.ofInt 8 val.getInt
  if max < b then 0#8 else b

/-- The body of the key loop of `add_propertyMember`. -/
def memberStep (kind : CanPropertyKind) (m : Member) (key : String) (val : Json) :
    Option Member :=
  if key = "POS" then some { m with bytePos := boundedByte val 8#8 }
  else if key = "OFFS" then some { m with bitPos := boundedByte val 8#8 }
  else if key = "LEN" then some { m with bitLen := boundedByte val 32#8 }
  else if key = "PROPERTY" then some { m with name := val.getString }
  else if key = "ZONE" then
    match getZoneName val with
    | none => none
    | some zone => some { m with zone := zone }
  else if key = "TYPE" then
    some { m with varType := (string2vartype val.getString).getD .void }
  else if key = "SET-DATA" then
    if kind ≠ .send then
      match createConvertTables val m.varType with
      | some t => some { m with dataconv := some t, nconv := t.length }
      | none => some { m with dataconv := none }
    else some m
  else some m

/-- The key loop of `add_propertyMember`. -/
def memberLoop (kind : CanPropertyKind) : List (String × Json) → Member → Option Member
  | [], m => some m
  | (key, val) :: l, m =>
    match memberStep kind m key val with
    | none => none
    | some m => memberLoop kind l m

/-- The definition the local variables are stored as. -/
def Member.toPropDef (m : Member) (kind : CanPropertyKind) : PropDef where
  name :=
    match m.zone with
    | none => m.name.getD "Unknown"
    | some zone => m.name.getD "Unknown" ++ "@" ++ zone
  propertyKind := kind
  bytePos := m.bytePos
  bitPos := m.bitPos
  bitLen := m.bitLen
  varType := m.varType
  dataconv := m.dataconv
  nconv := m.nconv

/-- **`add_propertyMember`**: the definition of one `DATA` entry. -/
def addPropertyMember (obj : Json) (kind : CanPropertyKind) : Option PropDef :=
  match obj.objectForeach with
  | none => none
  | some l =>
    match memberLoop kind l {} with
    | none => none
    | some m => some (m.toPropDef kind)

/-- **`add_propertyMapping`**: the definitions of a `DATA` array, in order;
an empty one counts as an error. -/
def addPropertyMapping (array : List Json) (kind : CanPropertyKind) :
    Option (List PropDef × ℕ) :=
  match array.mapM (fun obj => addPropertyMember obj kind) with
  | none => none
  | some ps => some (ps, if ps.length < 1 then 1 else 0)

/-- The local variables after a key that is read: it sets its own, and no other. -/
def Member.afterKey (m : Member) (kind : CanPropertyKind) (key : String) (val : Json) :
    Member where
  bytePos := if key = "POS" then boundedByte val 8#8 else m.bytePos
  bitPos := if key = "OFFS" then boundedByte val 8#8 else m.bitPos
  bitLen := if key = "LEN" then boundedByte val 32#8 else m.bitLen
  varType := if key = "TYPE" then (string2vartype val.getString).getD .void else m.varType
  name := if key = "PROPERTY" then val.getString else m.name
  zone := if key = "ZONE" then (getZoneName val).join else m.zone
  nconv :=
    if key = "SET-DATA" ∧ kind ≠ .send then
      ((createConvertTables val m.varType).map ConvTable.length).getD m.nconv
    else m.nconv
  dataconv :=
    if key = "SET-DATA" ∧ kind ≠ .send then createConvertTables val m.varType
    else m.dataconv

/-- **What one key does**, variable by variable. A `ZONE` that cannot be read ends
the loop. -/
theorem memberStep_eq (kind : CanPropertyKind) (m : Member) (key : String) (val : Json) :
    memberStep kind m key val
      = if key = "ZONE" ∧ getZoneName val = none then none
        else some (m.afterKey kind key val) := by
  unfold memberStep
  by_cases hpos : key = "POS"
  · subst hpos
    rfl
  by_cases hoffs : key = "OFFS"
  · subst hoffs
    rfl
  by_cases hlen : key = "LEN"
  · subst hlen
    rfl
  by_cases hname : key = "PROPERTY"
  · subst hname
    rfl
  by_cases hzone : key = "ZONE"
  · subst hzone
    cases hz : getZoneName val <;> simp [Member.afterKey, hz]
  by_cases htype : key = "TYPE"
  · subst htype
    rfl
  by_cases htable : key = "SET-DATA"
  · subst htable
    by_cases hkind : kind = .send
    · simp [Member.afterKey, hkind]
    -- a table that cannot be built leaves the length of the one before
    · cases hc : createConvertTables val m.varType <;> simp [Member.afterKey, hkind, hc]
  · simp only [Member.afterKey, hpos, hoffs, hlen, hname, hzone, htype, htable, if_false,
      false_and]

theorem memberStep_eq_some {kind : CanPropertyKind} {m m' : Member} {key : String}
    {val : Json} (h : memberStep kind m key val = some m') : m' = m.afterKey kind key val := by
  rw [memberStep_eq] at h
  split at h
  · cases h
  · exact (Option.some.inj h).symm

/-- An entry that is read is an object, and its definition is what the key loop
leaves. -/
theorem addPropertyMember_eq_some {obj : Json} {kind : CanPropertyKind} {p : PropDef}
    (h : addPropertyMember obj kind = some p) :
    ∃ l m, obj = .object l ∧ memberLoop kind l {} = some m ∧ m.toPropDef kind = p := by
  cases obj with
  | object l =>
    rw [addPropertyMember, Json.objectForeach] at h
    dsimp only at h
    split at h
    · cases h
    · rename_i m hm
      exact ⟨l, m, rfl, hm, Option.some.inj h⟩
  | _ => cases h

theorem addPropertyMember_propertyKind {obj : Json} {kind : CanPropertyKind}
    {p : PropDef} (h : addPropertyMember obj kind = some p) :
    p.propertyKind = kind := by
  obtain ⟨l, m, -, -, rfl⟩ := addPropertyMember_eq_some h
  rfl

/-- What holds of the definition read from each element of a `DATA` array holds
of every definition. -/
theorem addPropertyMapping_forall {array : List Json} {kind : CanPropertyKind}
    {ps : List PropDef} {e : ℕ} {P : PropDef → Prop}
    (h : addPropertyMapping array kind = some (ps, e))
    (hread : ∀ obj ∈ array, ∀ p, addPropertyMember obj kind = some p → P p) : ∀ p ∈ ps, P p := by
  unfold addPropertyMapping at h
  split at h
  · cases h
  · rename_i ps' hm
    cases h
    induction array generalizing ps with
    | nil =>
      cases hm
      exact fun p hp => absurd hp List.not_mem_nil
    | cons obj array ih =>
      rw [List.mapM_cons] at hm
      cases ho : addPropertyMember obj kind with
      | none => simp [ho] at hm
      | some q =>
        cases hr : List.mapM (fun obj => addPropertyMember obj kind) array with
        | none => simp [ho, hr] at hm
        | some qs =>
          simp only [ho, hr, Option.pure_def, Option.bind_eq_bind, Option.bind_some,
            Option.some.injEq] at hm
          subst hm
          intro p hp
          rcases List.mem_cons.mp hp with rfl | hp'
          · exact hread obj List.mem_cons_self _ ho
          · exact ih (fun o ho' => hread o (List.mem_cons_of_mem _ ho')) hr p hp'

theorem addPropertyMapping_propertyKind {array : List Json}
    {kind : CanPropertyKind} {ps : List PropDef} {e : ℕ}
    (h : addPropertyMapping array kind = some (ps, e)) :
    ∀ p ∈ ps, p.propertyKind = kind :=
  addPropertyMapping_forall h (fun _ _ _ hp => addPropertyMember_propertyKind hp)

/-! ## CAN-IDs -/

/-- What `parse_caninfo` stores before it reads `DATA`: the identifier masked
to eleven bits, the frame with the identifier as it was given, the mode, and
the cycle, which only counts in the mode that notifies changes. -/
def caninfoHeader (canid : CanId) (obj : Json) (kind : CanPropertyKind) : CanidInfo :=
  let mode :=
    match (obj.objectGet "MODE").getString with
    | some s => if s = "CAN_THINOUT_CHG" then ThinoutMode.chg else .non
    | none => .non
  { canid := canid &&& CAN_SFF_MASK.setWidth 16
    kind := kind
    canrawFrame := ⟨canid.setWidth 32, 8#8, fun _ => 0#8⟩
    mode := mode
    cycle :=
      match obj.objectGet "CYCLE" with
      | .null => 0#32
      | j =>
        let cycle := BitVec.ofInt 32 j.getInt
        match mode with
        | .chg => if cycle = 0#32 then 0xffffffff#32 else cycle
        | .non => 0#32
    dlc :=
      match obj.objectGet "DLC" with
      | .null => 0#8
      | j => BitVec.ofInt 8 j.getInt }

/-- Masking an identifier of eleven bits changes nothing. -/
theorem and_sff_of_le {c : CanId} (h : c.toNat ≤ 0x7ff) :
    c &&& CAN_SFF_MASK.setWidth 16 = c := by
  have hmask : c.toNat &&& 2047 = c.toNat % 2048 := Nat.and_two_pow_sub_one_eq_mod c.toNat 11
  refine BitVec.eq_of_toNat_eq ?_
  simp only [CAN_SFF_MASK, BitVec.toNat_and, BitVec.toNat_setWidth, BitVec.toNat_ofNat,
    Nat.reduceMod, Nat.reducePow, hmask]
  omega

/-- The CAN-ID of a header and the definitions of its `DATA` array. -/
def CanidDef.ofMapping (canid : CanId) (obj : Json) (kind : CanPropertyKind)
    (ps : List PropDef) (h : ∀ p ∈ ps, p.propertyKind = kind) : CanidDef where
  info := { caninfoHeader canid obj kind with nData := ps.length }
  property := ps
  nData_eq := rfl
  kind_eq := h

/-- `updateSendTimer`: arm the timer of a descriptor. `timerfd_settime`
refuses a descriptor that is no timer. -/
def Dict.updateSendTimer (d : Dict) (c : CanId) : Option ℕ :=
  let fd := (d.info c).timerfd
  if fd ∈ d.timers then some fd else none

/-- **`addSendTimer`**: create a timer for a CAN-ID to send. The kernel gives
out a descriptor that is not in use; zero is the standard input. -/
def Dict.addSendTimer (d : Dict) (c : CanId) : Dict :=
  let fd := d.timers.length + 1
  { d.setInfo c { d.info c with timerfd := fd } with timers := d.timers ++ [fd] }

/-- **`parse_caninfo`**: define one CAN-ID, unless there is one of that
identifier. -/
def parseCaninfo (d : Dict) (canid : CanId) (obj : Json) (kind : CanPropertyKind) :
    Option (Dict × ℕ) :=
  match d.getCANIDDict canid with
  | some _ => some (d, 1)
  | none =>
    match obj.objectGet "DATA" with
    | .array array =>
      match h : addPropertyMapping array kind with
      | none => none
      | some (ps, err) =>
        -- errors among the entries are counted and do not stop the registration
        let c := CanidDef.ofMapping canid obj kind ps (addPropertyMapping_propertyKind h)
        match d.addCANIDDict c with
        | none => none
        | some (d, ret) =>
          if ret ≠ 0 then some (d, err + 1)
          else if err = 0 ∧ kind = .send then some (d.addSendTimer c.info.canid, err)
          else some (d, err)
    | _ => some (d, 1)

/-- **`parse_canid_def`**: the CAN-IDs of a block, each under the identifier
its key reads as, cut to sixteen bits. A key that reads as no positive number
is reported and goes on like any other. -/
def parseCanidDef (kind : CanPropertyKind) : List (String × Json) → Dict × ℕ →
    Option (Dict × ℕ)
  | [], s => some s
  | (key, val) :: l, (d, err) =>
    let canid := CLib.strtol key 16
    match parseCaninfo d (BitVec.ofInt 16 canid) val kind with
    | none => none
    | some (d, _) => parseCanidDef kind l (d, if canid ≤ 0 then err + 1 else err)

/-- **`parse_recept_and_transmission`**: the blocks of a direction. Extended
frames are not supported. -/
def parseReceptAndTransmission (kind : CanPropertyKind) :
    List (String × Json) → Dict × ℕ → Option (Dict × ℕ)
  | [], s => some s
  | (key, val) :: l, (d, err) =>
    if key = "STANDARD" then
      match val.objectForeach with
      | none => none
      | some defs =>
        match parseCanidDef kind defs (d, 0) with
        | none => none
        | some (d, e) => parseReceptAndTransmission kind l (d, err + e)
    else if key = "EXTENDED" then parseReceptAndTransmission kind l (d, err)
    else parseReceptAndTransmission kind l (d, err + 1)

/-- **`parse_json`**: the two directions of a configuration. -/
def parseJson : List (String × Json) → Dict × ℕ → Option (Dict × ℕ)
  | [], s => some s
  | (key, val) :: l, (d, err) =>
    if key = "RECEPTION" ∨ key = "TRANSMISSION" then
      match val.objectForeach with
      | none => none
      | some blocks =>
        let kind := if key = "RECEPTION" then CanPropertyKind.readonly else .send
        match parseReceptAndTransmission kind blocks (d, 0) with
        | none => none
        | some (d, e) => parseJson l (d, err + e)
    else parseJson l (d, err + 1)

/-- **`can_define_init`** on the parsed file: the errors found are counted
and not acted on. -/
def canDefineInit (jobj : Json) : Option Dict :=
  match jobj.objectForeach with
  | none => none
  | some l => (parseJson l (Dict.empty, 0)).map Prod.fst

/-! ## Reporting a value -/

/-- The value object of `property2json`; a type that has none gives the null
pointer. -/
def valueObject (p : CanBit) : Option Json :=
  match p.varType with
  | .void | .int8 | .int16 | .int | .int32 | .int64 | .uint8 | .uint16 | .uint
  | .uint32 | .enable1 => some (.int (propertyValueInt p))
  | .string =>
    some (.string (match p.curValue.string with | some s => s.text | none => "null"))
  | .bool => some (.bool (p.curValue.val8 ≠ 0#8))
  | .array => some (.array (p.curValue.arrayValues.map (fun v => .int v.toInt)))
  | .uint64 => none

/-- The recursion of `property2json`, under a bound on its depth: an entry
with another entry applied reports as that one does. -/
def Dict.property2jsonAux (d : Dict) : ℕ → Addr → Option Json
  | 0, _ => none
  | depth + 1, a =>
    match (d.mem a).applyinfo with
    | some b =>
      if b ≠ a then d.property2jsonAux depth b
      else (valueObject (d.mem a)).map (fun v => .object [("value", v)])
    | none => (valueObject (d.mem a)).map (fun v => .object [("value", v)])

/-- **`property2json`**: what an entry reports. A chain of applied entries
longer than the entries there are would have no end. -/
def Dict.property2json (d : Dict) (a : Addr) : Option Json :=
  d.property2jsonAux (d.ncell + 2) a
