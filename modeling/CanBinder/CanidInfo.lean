import CanBinder.BitField
import Mathlib.Data.Fin.VecNotation
import Mathlib.Data.Fintype.Pi

/-!
# Properties, frames and the field codec

The data of `canid_info.h` and the functions of `canid_info.c`. A CAN-ID
owns a frame and an array of properties, and a property (`CanBit`) is a
field of that frame: the byte and bit it ends at, its length, and the type
its value is stored with. `canframe2property` decodes a frame into a
property, `property2canframe` writes a value into the frame, and both store
the value through `updatePropertyValue`.

A property is kept as its definition, which is fixed when the configuration
is read (`PropDef`), and what changes later: the links `next` and
`applyinfo`, the time of the last update and the current value.
-/

/-- `jcanid_t`, an `unsigned short`. -/
abbrev CanId := BitVec 16

/-- `CAN_SFF_MASK`: the eleven bits of a standard identifier. -/
def CAN_SFF_MASK : BitVec 32 := 0x7FF#32

/-- `CAN_EFF_FLAG`: an extended frame. -/
def CAN_EFF_FLAG : BitVec 32 := 0x80000000#32

/-- `CAN_RTR_FLAG`: a remote transmission request. -/
def CAN_RTR_FLAG : BitVec 32 := 0x40000000#32

/-- `CAN_ERR_FLAG`: an error frame. -/
def CAN_ERR_FLAG : BitVec 32 := 0x20000000#32

/-- `enum can_property_kind_t`. -/
inductive CanPropertyKind
  | none
  | readonly
  | send
deriving DecidableEq

/-- `enum var_type_t`. -/
inductive VarType
  | void
  | int8
  | int16
  | int
  | int32
  | int64
  | uint8
  | uint16
  | uint
  | uint32
  | uint64
  | string
  | bool
  | array
  | enable1
deriving DecidableEq

/-- `vartype_strings`, in the order of the enumeration. -/
def vartypeStrings : List (VarType × String) :=
  [(.void, "void"), (.int8, "int8_t"), (.int16, "int16_t"), (.int, "int"),
    (.int32, "int32_t"), (.int64, "int64_t"), (.uint8, "uint8_t"),
    (.uint16, "uint16_t"), (.uint, "uint"), (.uint32, "uint32_t"),
    (.uint64, "uint64_t"), (.string, "string"), (.bool, "bool"),
    (.array, "LIST"), (.enable1, "ENABLE-1")]

/-- `string2vartype`; `none` is the result `-1`. -/
def string2vartype (varname : Option String) : Option VarType :=
  match varname with
  | none => none
  | some s => (vartypeStrings.find? (fun e => e.2 = s)).map Prod.fst

/-! ## Values -/

/-- A `char *` into a conversion table: the string with the number of its
entry, since two entries are two allocations even where their texts are
equal. -/
structure CharPtr where
  /-- The entry of the table. -/
  entry : ℕ
  /-- The text there. -/
  text : String
deriving DecidableEq

/-- **`union data_content_t`.** The scalar members are the low bits of one
little-endian word. The string and the array lie over that word too, but a
property has one type all its life and never reads one of them after
writing another. -/
structure DataContent where
  /-- The first four bytes. -/
  word : BitVec 32 := 0#32
  /-- The string member, null at first. -/
  string : Option CharPtr := none
  /-- The entries of the array member. -/
  arrayValues : List (BitVec 32) := []
deriving DecidableEq

namespace DataContent

/-- What `memset(…, 0, …)` leaves. -/
def zero : DataContent := {}

/-- The member `int8_val` or `uint8_val` or `bool_val`. -/
def val8 (c : DataContent) : BitVec 8 := c.word.setWidth 8

/-- The member `int16_val` or `uint16_val`. -/
def val16 (c : DataContent) : BitVec 16 := c.word.setWidth 16

/-- Store into the first byte. -/
def setVal8 (c : DataContent) (v : BitVec 8) : DataContent :=
  { c with word := (c.word.extractLsb' 8 24 ++ v : BitVec (24 + 8)) }

/-- Store into the first two bytes. -/
def setVal16 (c : DataContent) (v : BitVec 16) : DataContent :=
  { c with word := (c.word.extractLsb' 16 16 ++ v : BitVec (16 + 16)) }

/-- Store into the first four bytes. -/
def setVal32 (c : DataContent) (v : BitVec 32) : DataContent := { c with word := v }

@[simp] theorem val8_setVal8 (c : DataContent) (v : BitVec 8) :
    (c.setVal8 v).val8 = v := by
  refine BitVec.eq_of_getLsbD_eq (fun i hi => ?_)
  rw [val8, setVal8, BitVec.getLsbD_setWidth, BitVec.getLsbD_append]
  simp [hi]

@[simp] theorem val16_setVal16 (c : DataContent) (v : BitVec 16) :
    (c.setVal16 v).val16 = v := by
  refine BitVec.eq_of_getLsbD_eq (fun i hi => ?_)
  rw [val16, setVal16, BitVec.getLsbD_setWidth, BitVec.getLsbD_append]
  simp [hi]

@[simp] theorem word_setVal32 (c : DataContent) (v : BitVec 32) :
    (c.setVal32 v).word = v := rfl

end DataContent

/-- **A conversion table** built from `SET-DATA`: an array of strings for a
string property, of `int` otherwise. -/
inductive ConvTable
  | strings (l : List String)
  | ints (l : List (BitVec 32))
deriving DecidableEq

namespace ConvTable

/-- The number of entries. -/
def length : ConvTable → ℕ
  | strings l => l.length
  | ints l => l.length

/-- `((int *)dataconv)[x]`. -/
def intAt (t : ConvTable) (x : ℕ) : BitVec 32 :=
  match t with
  | ints l => l.getD x 0#32
  | strings _ => 0#32

/-- `((char **)dataconv)[x]`. -/
def stringAt (t : ConvTable) (x : ℕ) : CharPtr :=
  match t with
  | strings l => ⟨x, l.getD x ""⟩
  | ints _ => ⟨x, ""⟩

end ConvTable

/-! ## Properties and frames -/

/-- `struct timeval`. -/
structure Timeval where
  /-- Seconds. -/
  tvSec : ℤ
  /-- Microseconds. -/
  tvUsec : ℤ
deriving DecidableEq

/-- The address of a `struct can_bit_t`: a slot of the array of a CAN-ID, or
a copy allocated for a chain. -/
inductive Addr
  | slot (canid : CanId) (i : ℕ)
  | cell (k : ℕ)
deriving DecidableEq

/-- **The definition of a property**: the fields of `struct can_bit_t` that
are fixed once the configuration is read. -/
structure PropDef where
  /-- The name in the dictionary. -/
  name : String
  /-- Whether the property was defined in the reception or the transmission
  block. -/
  propertyKind : CanPropertyKind
  /-- The byte, counted from one, whose low end is the field's byte. -/
  bytePos : BitVec 8
  /-- The bit of that byte at which the field ends. -/
  bitPos : BitVec 8
  /-- The number of bits. -/
  bitLen : BitVec 8
  /-- The type of the value. -/
  varType : VarType
  /-- The conversion table, if there is one. -/
  dataconv : Option ConvTable
  /-- The recorded length of the table. -/
  nconv : ℕ
deriving DecidableEq

/-- **`struct can_bit_t`.** -/
structure CanBit extends PropDef where
  /-- The CAN-ID the property belongs to. -/
  mycanid : CanId
  /-- The next entry of the same property. -/
  next : Option Addr := none
  /-- The entry whose value the property reports. -/
  applyinfo : Option Addr := none
  /-- When the property was last notified. -/
  updatetime : Timeval := ⟨0, 0⟩
  /-- The current value. -/
  curValue : DataContent := DataContent.zero
deriving DecidableEq

/-- The eight data bytes of a frame. -/
abbrev Payload := Fin 8 → BitVec 8

/-- **`struct can_frame`.** -/
structure CanFrame where
  /-- The identifier with its flags. -/
  canId : BitVec 32
  /-- The number of data bytes. -/
  canDlc : BitVec 8
  /-- The data bytes. -/
  data : Payload
deriving DecidableEq

/-- The thin-out modes. -/
inductive ThinoutMode
  | non
  | chg
deriving DecidableEq

/-- **`struct canid_info_t`**, its array of properties aside. -/
structure CanidInfo where
  /-- The identifier under which the CAN-ID is registered. -/
  canid : CanId
  /-- The configured DLC. -/
  dlc : BitVec 8 := 0#8
  /-- The thin-out mode. -/
  mode : ThinoutMode := .non
  /-- The thin-out cycle in milliseconds. -/
  cycle : BitVec 32 := 0#32
  /-- The frame last received, or the frame to send. -/
  canrawFrame : CanFrame
  /-- The descriptor of the send timer, zero while there is none. -/
  timerfd : ℕ := 0
  /-- The block the CAN-ID was defined in. -/
  kind : CanPropertyKind
  /-- The number of slots in use. -/
  nData : ℕ := 0
deriving DecidableEq

/-! ## The frame as a word -/

/-- A `uint64_t` over eight bytes, the first byte lowest. -/
def value64 (b : Payload) : BitVec 64 :=
  b 7 ++ b 6 ++ b 5 ++ b 4 ++ b 3 ++ b 2 ++ b 1 ++ b 0

/-- The eight bytes of a `uint64_t`, the lowest first. -/
def bytes64 (v : BitVec 64) : Payload := fun i => v.extractLsb' (8 * i) 8

/-- **`canvalue2host`**: the payload read as a big-endian word. -/
def canvalue2host (data : Payload) : BitVec 64 :=
  value64 ![data 7, data 6, data 5, data 4, data 3, data 2, data 1, data 0]

/-- **`host2canvalue`**: the word written as a big-endian payload. -/
def host2canvalue (v : BitVec 64) : Payload :=
  let b := bytes64 v
  ![b 7, b 6, b 5, b 4, b 3, b 2, b 1, b 0]

/-! ## Storing a value -/

/-- `update_stat_t`. -/
inductive UpdateStat
  | error
  | noUpdated
  | updated
deriving DecidableEq

/-- One branch of the type switch: store where the value differs, and report
the change unless it is suppressed. -/
def CanBit.assign (p : CanBit) (differs : Bool) (value : DataContent)
    (reported : Bool) : UpdateStat × CanBit :=
  if differs then
    (if reported then .updated else .noUpdated, { p with curValue := value })
  else (.noUpdated, p)

/-- **`_updatePropertyValue`**: store a raw value through the table, if there
is one, and the type. The comparison of `uint8_t` is made with the value
cast to `int8_t`, as is that of `uint16_t` entries with the entry cast to
`int16_t`; that of `bool` entries is made with the entry itself. -/
def updatePropertyValue (p : CanBit) (v : BitVec 32) : UpdateStat × CanBit :=
  let x := v.toNat
  let c := p.curValue
  if p.dataconv.isSome ∧ p.nconv ≤ x then (.error, p)
  else
    match p.varType, p.dataconv with
    | .int8, none =>
      p.assign (c.val8 ≠ v.setWidth 8) (c.setVal8 (v.setWidth 8)) true
    | .int8, some conv =>
      p.assign (c.val8 ≠ (conv.intAt x).setWidth 8)
        (c.setVal8 ((conv.intAt x).setWidth 8)) true
    | .int16, none =>
      p.assign (c.val16 ≠ v.setWidth 16) (c.setVal16 (v.setWidth 16)) true
    | .int16, some conv =>
      p.assign (c.val16 ≠ (conv.intAt x).setWidth 16)
        (c.setVal16 ((conv.intAt x).setWidth 16)) true
    | .void, none | .int, none | .int32, none =>
      p.assign (c.word ≠ v) (c.setVal32 v) true
    | .void, some conv | .int, some conv | .int32, some conv =>
      p.assign (c.word ≠ conv.intAt x) (c.setVal32 (conv.intAt x)) true
    | .uint8, none =>
      p.assign ((c.val8.toNat : ℤ) ≠ (v.setWidth 8).toInt)
        (c.setVal8 (v.setWidth 8)) true
    | .uint8, some conv =>
      p.assign ((c.val8.toNat : ℤ) ≠ ((conv.intAt x).setWidth 8).toInt)
        (c.setVal8 ((conv.intAt x).setWidth 8)) true
    | .uint16, none =>
      p.assign (c.val16 ≠ v.setWidth 16) (c.setVal16 (v.setWidth 16)) true
    | .uint16, some conv =>
      p.assign ((c.val16.toNat : ℤ) ≠ ((conv.intAt x).setWidth 16).toInt)
        (c.setVal16 ((conv.intAt x).setWidth 16)) true
    | .uint, none | .uint32, none =>
      p.assign (c.word ≠ v) (c.setVal32 v) true
    | .uint, some conv | .uint32, some conv =>
      p.assign (c.word ≠ conv.intAt x) (c.setVal32 (conv.intAt x)) true
    | .bool, none =>
      p.assign (c.val8 ≠ if v = 0#32 then 0#8 else 1#8)
        (c.setVal8 (if v = 0#32 then 0#8 else 1#8)) true
    | .bool, some conv =>
      p.assign ((c.val8.toNat : ℤ) ≠ (conv.intAt x).toInt)
        (c.setVal8 (if conv.intAt x = 0#32 then 0#8 else 1#8)) true
    | .string, some conv =>
      p.assign (c.string ≠ some (conv.stringAt x))
        { c with string := some (conv.stringAt x) }
        ((conv.stringAt x).text ≠ "NOTSET")
    | .string, none => (.error, p)
    | .enable1, some conv =>
      p.assign (c.word ≠ conv.intAt x) (c.setVal32 (conv.intAt x)) (v ≠ 0#32)
    | .enable1, none => (.error, p)
    | .array, _ | .uint64, _ | .int64, _ => (.noUpdated, p)

/-- `bit_shift`: how far the field lies above the low end of the frame. It is 64 or
more without a `POS` and for a `POS` of 1 with an `OFFS` of 8, and then what the
shifts by it give is undefined in C: here they give zero. -/
def PropDef.bitShift (p : PropDef) : ℤ := (8 - (p.bytePos.toNat : ℤ)) * 8 + p.bitPos.toNat

/-- `can_mask64`: `(1ULL << bit_len) - 1`. -/
def PropDef.canMask64 (p : PropDef) : BitVec 64 := (1#64 <<< p.bitLen.toNat) - 1#64

/-- **`property2canframe`**: store a value into the property and its low bits
into the field of the frame. A value the property cannot take leaves both
alone. Where C leaves the shift undefined (`PropDef.bitShift`) the frame is left
alone, too. -/
def property2canframe (p : CanBit) (data : Payload) (value : BitVec 32) :
    UpdateStat × CanBit × Payload :=
  match updatePropertyValue p value with
  | (.error, q) => (.error, q, data)
  | (update, q) =>
    let shift := p.bitShift.toNat
    let canV64 := (value.setWidth 64 &&& p.canMask64) <<< shift
    let canCurvalue := canvalue2host data &&& ~~~(p.canMask64 <<< shift)
    (update, q, host2canvalue (canCurvalue ||| canV64))

/-- The field of a frame, as `canframe2property` extracts it. Where C leaves the
shift undefined (`PropDef.bitShift`) it is zero. -/
def PropDef.field (p : PropDef) (canV64 : BitVec 64) : BitVec 64 :=
  (canV64 >>> p.bitShift.toNat) &&& p.canMask64

/-- **`canframe2property`**: decode the field of a frame into the
property. -/
def canframe2property (canV64 : BitVec 64) (p : CanBit) : UpdateStat × CanBit :=
  updatePropertyValue p ((p.field canV64).setWidth 32)

/-- **`propertyValue_int`**: the stored value as an `int`, and `-1` for the
types that hold none. -/
def propertyValueInt (p : CanBit) : ℤ :=
  let c := p.curValue
  match p.varType with
  | .int8 => c.val8.toInt
  | .int16 => c.val16.toInt
  | .void | .int | .int32 => c.word.toInt
  | .uint8 => c.val8.toNat
  | .uint16 => c.val16.toNat
  | .uint | .uint32 => c.word.toInt
  | .bool => c.val8.toNat
  | .enable1 => c.word.toInt
  | .string | .array | .uint64 | .int64 => -1
