import CanBinder.CanidInfo
import CanBinder.PtrChain
import CanBinder.SearchTree
import Mathlib.Data.String.Basic

/-!
# The dictionaries

The two search trees of `canid_search.c`, over the memory their pointers
point into. One tree holds the registered CAN-IDs, the other one entry of
every property name, and a list of at most `SUPPORT_PROPERTY_LIMIT` names is
kept beside them.

A CAN-ID is registered with its array of properties (`addCANIDDict`). An
entry of the array whose name is new goes into the property tree
(`addPropertyDict`); one whose name the tree has under the same CAN-ID is
copied to the end of that name's chain and taken out of the array, by moving
the entries after it down; one whose name belongs to another CAN-ID is
rejected. The trees hold pointers into the array while it is compacted, so
the array is modelled by its addresses, `Addr.slot`, and not by a list.

A CAN-ID is named by the identifier it is registered under: the tree keeps
the two apart nowhere.
-/

/-- `SUPPORT_PROPERTY_LIMIT`. -/
def SUPPORT_PROPERTY_LIMIT : ℕ := 512

/-- The definition of an array slot that was only cleared. -/
def PropDef.cleared : PropDef :=
  ⟨"", .none, 0#8, 0#8, 0#8, .void, none, 0⟩

/-- **The loaded data**: the objects in memory, the two trees, the list of
supported properties, and the timers created for the CAN-IDs to send. -/
structure Dict where
  /-- The `struct can_bit_t` at an address. -/
  mem : Addr → CanBit
  /-- The `struct canid_info_t` of a CAN-ID. -/
  info : CanId → CanidInfo
  /-- `canid_root`. -/
  canidRoot : List CanId
  /-- `property_root`. -/
  propertyRoot : List Addr
  /-- `support_property_list`, its first `nProperties` entries. -/
  supportPropertyList : List String
  /-- How many chain copies were allocated. -/
  ncell : ℕ
  /-- The timer descriptors the kernel gave out. -/
  timers : List ℕ

/-- **A CAN-ID as the configuration defines it**: its data and its array of
properties, of the length the data records and of the kind of the block it
was defined in. -/
structure CanidDef where
  /-- The data of the CAN-ID. -/
  info : CanidInfo
  /-- The array of properties. -/
  property : List PropDef
  /-- `nData` is the length of the array. -/
  nData_eq : info.nData = property.length
  /-- Every property is of the CAN-ID's kind. -/
  kind_eq : ∀ p ∈ property, p.propertyKind = info.kind

namespace Dict

/-- The data before anything is loaded. -/
def empty : Dict where
  mem _ := { PropDef.cleared with mycanid := 0#16 }
  info c := { canid := c, canrawFrame := ⟨0#32, 0#8, fun _ => 0#8⟩, kind := .none }
  canidRoot := []
  propertyRoot := []
  supportPropertyList := []
  ncell := 0
  timers := []

/-- Where an entry's chain goes on. -/
def next (d : Dict) (a : Addr) : Option Addr := (d.mem a).next

/-- The name of an entry, the key of the property tree. -/
def name (d : Dict) (a : Addr) : String := (d.mem a).name

/-- Overwrite the object at an address. -/
def setBit (d : Dict) (a : Addr) (p : CanBit) : Dict :=
  { d with mem := Function.update d.mem a p }

/-- Overwrite the data of a CAN-ID. -/
def setInfo (d : Dict) (c : CanId) (i : CanidInfo) : Dict :=
  { d with info := Function.update d.info c i }

@[simp] theorem setBit_mem_self (d : Dict) (a : Addr) (p : CanBit) :
    (d.setBit a p).mem a = p := Function.update_self ..

theorem setBit_mem_of_ne (d : Dict) {a x : Addr} (h : x ≠ a) (p : CanBit) :
    (d.setBit a p).mem x = d.mem x := Function.update_of_ne h _ _

@[simp] theorem setInfo_info_self (d : Dict) (c : CanId) (i : CanidInfo) :
    (d.setInfo c i).info c = i := Function.update_self ..

theorem setInfo_info_of_ne (d : Dict) {c x : CanId} (h : x ≠ c) (i : CanidInfo) :
    (d.setInfo c i).info x = d.info x := Function.update_of_ne h _ _

@[simp] theorem setInfo_mem (d : Dict) (c : CanId) (i : CanidInfo) :
    (d.setInfo c i).mem = d.mem := rfl

/-- The entries a loop `for (p = a; p != NULL; p = p->next)` visits. No
chain is longer than the copies that were allocated and its first entry. -/
def chain (d : Dict) (a : Addr) : List Addr :=
  PtrChain.walk d.next (d.ncell + 1) (some a)

/-- **`getCANID_dict`.** -/
def getCANIDDict (d : Dict) (canid : CanId) : Option CanId :=
  SearchTree.tfind BitVec.toNat canid.toNat d.canidRoot

/-- **`getProperty_dict`.** -/
def getPropertyDict (d : Dict) (propertyName : String) : Option Addr :=
  SearchTree.tfind d.name propertyName d.propertyRoot

/-- `canid_walker`: the CAN-IDs in the order of the walk. -/
def canidWalker (d : Dict) : List CanId := SearchTree.twalk d.canidRoot

/-- `getSupportPropertiesList`. -/
def getSupportPropertiesList (d : Dict) : List String := d.supportPropertyList

/-! ## Registration -/

/-- **`addProperty_dict`**: the result is `0` for a new name, `1` for an
entry that was copied to the chain of its name, and `-1` for one that was
refused – because the name belongs to another CAN-ID, or because the list of
names is full, in which case the tree has the entry all the same. -/
def addPropertyDict (d : Dict) (a : Addr) : Dict × ℤ :=
  match SearchTree.tfind d.name (d.name a) d.propertyRoot with
  | none =>
    -- the limit is checked when the tree has the entry already
    let d := { d with propertyRoot := (SearchTree.tsearch d.name a d.propertyRoot).2 }
    if SUPPORT_PROPERTY_LIMIT ≤ d.supportPropertyList.length then (d, -1)
    else ({ d with supportPropertyList := d.supportPropertyList ++ [d.name a] }, 0)
  | some v =>
    if (d.mem a).mycanid ≠ (d.mem v).mycanid then (d, -1)
    else
      let cpEntry := Addr.cell d.ncell
      let last := (d.chain v).getLastD v
      let d := { d.setBit cpEntry (d.mem a) with ncell := d.ncell + 1 }
      (d.setBit last { d.mem last with next := some cpEntry }, 1)

/-- The `memmove` of the compaction: the slots after `i` move down by one,
up to `maxEntry`. -/
def moveSlots (d : Dict) (c : CanId) (i maxEntry : ℕ) : Dict :=
  { d with
    mem := fun a =>
      match a with
      | .slot c' j =>
        if c' = c ∧ i ≤ j ∧ j + 1 < maxEntry then d.mem (.slot c (j + 1)) else d.mem a
      | .cell _ => d.mem a }

/-- **The compaction loop of `addCANID_dict`**, under a bound on its
iterations. An entry that was copied to a chain is overwritten by the ones
after it, and `--i; … ++i` comes to the same index again. The last component
records whether `--i` was ever applied to zero. -/
def addLoop (c : CanId) : ℕ → Dict → ℕ → ℕ → Bool → Option (Dict × ℕ × Bool)
  | 0, _, _, _, _ => none
  | fuel + 1, d, i, maxEntry, wrapped =>
    if i < maxEntry then
      match d.addPropertyDict (.slot c i) with
      | (d, ret) =>
        if 0 < ret then
          let d := if i < maxEntry - 1 then d.moveSlots c i maxEntry else d
          addLoop c fuel d i (maxEntry - 1) (wrapped || i == 0)
        else addLoop c fuel d (i + 1) maxEntry wrapped
    else some (d, maxEntry, wrapped)

/-- The `struct can_bit_t` a definition is stored as: nothing is linked and
no value has been seen. -/
def fresh (c : CanId) (p : PropDef) : CanBit := { p with mycanid := c }

/-- The data with the object of a new CAN-ID in memory, and the CAN-ID in its
tree. -/
def install (d : Dict) (c : CanidDef) : Dict :=
  { d with
    canidRoot := (SearchTree.tsearch BitVec.toNat c.info.canid d.canidRoot).2
    info := Function.update d.info c.info.canid c.info
    mem := fun a =>
      match a with
      | .slot c' i =>
        if c' = c.info.canid then fresh c' (c.property.getD i PropDef.cleared) else d.mem a
      | .cell _ => d.mem a }

/-- **`addCANID_dict`**: register a CAN-ID and its properties. The loop makes
one iteration for every entry of the array and one to stop, so it is bounded
by their number. -/
def addCANIDDict (d : Dict) (c : CanidDef) : Option (Dict × ℤ) :=
  match d.getCANIDDict c.info.canid with
  | some _ => some (d, -1)
  | none =>
    match addLoop c.info.canid (c.info.nData + 1) (d.install c) 0 c.info.nData false with
    | none => none
    | some (d, maxEntry, _) =>
      let i := d.info c.info.canid
      some (d.setInfo c.info.canid { i with nData := maxEntry }, 0)

end Dict
