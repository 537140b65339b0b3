import CanBinder.BindEvent

/-!
# Frames received and sent

The functions of `can_signal_event.c`. A received frame is looked up by its
identifier and decoded into every property of its CAN-ID (`parseFrame`). A
property with several entries is decoded as a whole
(`Dict.updateProperty`): its values are reset, every entry is decoded, and
the last one that came out active is the one applied. Clients are notified
of a change, and of an unchanged value once the thin-out cycle is over.

A value to send is written into the frame of its CAN-ID and the frame is
handed to the socket (`canSignalSend`), as it is again at every tick of the
CAN-ID's timer (`onTimerEvent`).
-/

/-- **`elaps_ms`**: the milliseconds between two times, as an `unsigned
int`. -/
def elapsMs (old new : Timeval) : BitVec 32 :=
  let elapsSec := new.tvSec - old.tvSec
  let result := elapsSec * 1000 + (new.tvUsec.tdiv 1000 - old.tvUsec.tdiv 1000)
  BitVec.ofInt 32 result

namespace Dict

/-- The reset of the values of a chain. -/
def resetChain : List Addr → Dict → Dict
  | [], d => d
  | n :: entries, d =>
    resetChain entries (d.setBit n { d.mem n with curValue := DataContent.zero })

/-- **The decode loop of `update_iviproperty`**: the entry marked last and the
number of updates counted, or `none` where an entry cannot be decoded. Only a
property of a single entry is stamped here. -/
def decodeChain (multi : Bool) (elaps cycle : BitVec 32) (canV64 : BitVec 64)
    (timestamp : Timeval) : List Addr → Dict → Option Addr → ℕ →
      Dict × Option (Option Addr × ℕ)
  | [], d, mark, update => (d, some (mark, update))
  | p :: entries, d, mark, update =>
    match canframe2property canV64 (d.mem p) with
    | (.updated, q) =>
      let q := if multi then q else { q with updatetime := timestamp }
      decodeChain multi elaps cycle canV64 timestamp entries (d.setBit p q) (some p)
        (update + 1)
    | (.noUpdated, q) =>
      if multi = false ∧ cycle ≤ elaps then
        decodeChain multi elaps cycle canV64 timestamp entries
          (d.setBit p { q with updatetime := timestamp }) mark (update + 1)
      else
        decodeChain multi elaps cycle canV64 timestamp entries (d.setBit p q) mark update
    -- the entries before were decoded, and those after stay reset
    | (.error, q) => (d.setBit p q, none)

/-- Stamp an entry with the time of a frame. -/
def stamp (d : Dict) (a : Addr) (timestamp : Timeval) : Dict :=
  d.setBit a { d.mem a with updatetime := timestamp }

/-- What `update_iviproperty` does with the entry the decode loop marked, for
a property of several entries: the data and the number of updates. -/
def applyMark (d : Dict) (a : Addr) (elaps cycle : BitVec 32) (preApValue : DataContent)
    (timestamp : Timeval) (mark : Option Addr) (update : ℕ) : Dict × ℕ :=
  match mark with
  | none =>
    -- no entry is active, and the one applied before stays applied
    if cycle ≤ elaps then (d.stamp a timestamp, update + 1) else (d, update)
  | some m =>
    if (d.mem a).applyinfo ≠ some m then
      let d := d.setBit a { d.mem a with applyinfo := some m }
      ((d.stamp a timestamp).stamp m timestamp, update + 1)
    else if (d.mem m).curValue ≠ preApValue ∨ cycle ≤ elaps then
      (d.stamp a timestamp, update + 1)
    else (d, 0)

/-- **`update_iviproperty`** up to the notification: the data after a frame,
and the number of updates that decides whether to notify, or `none` for the
error return. -/
def updateProperty (d : Dict) (canV64 : BitVec 64) (a : Addr) (timestamp : Timeval) :
    Dict × Option ℕ :=
  let thinoutCycle := (d.info (d.mem a).mycanid).cycle
  let entries := d.chain a
  let multi := (d.mem a).next.isSome
  -- the entry applied is one of the chain, and its value is about to be reset
  let preApValue :=
    match (d.mem a).applyinfo with
    | some b => (d.mem b).curValue
    | none => DataContent.zero
  let d := if multi then resetChain entries d else d
  let elaps := elapsMs (d.mem a).updatetime timestamp
  match decodeChain multi elaps thinoutCycle canV64 timestamp entries d none 0 with
  | (d, none) => (d, none)
  | (d, some (mark, update)) =>
    if multi then
      let (d, update) := d.applyMark a elaps thinoutCycle preApValue timestamp mark update
      (d, some update)
    else (d, some update)

end Dict

namespace Binder

/-! ## Receiving -/

/-- **`update_iviproperty`**: decode a frame into a property, and notify if
anything was updated. The result is `1` for an entry that cannot be
decoded. -/
def updateIviproperty (b : Binder) (canV64 : BitVec 64) (propertyInfo : Addr)
    (timestamp : Timeval) : Binder × List Output × ℤ :=
  match b.toDict.updateProperty canV64 propertyInfo timestamp with
  | (d, none) => ({ b with toDict := d }, [], 1)
  | (d, some update) =>
    let b := { b with toDict := d }
    if update ≠ 0 then
      let (b, out) := b.notifyPropertyChanged propertyInfo
      (b, out, 0)
    else (b, [], 0)

/-- **`parse_candata`**: decode a frame into the slots of an array, one after
the other; an entry that cannot be decoded stops nothing. -/
def parseCandata (canV64 : BitVec 64) (c : CanId) (timestamp : Timeval) :
    List ℕ → Binder → Binder × List Output
  | [], b => (b, [])
  | i :: slots, b =>
    let (b, out, _) := b.updateIviproperty canV64 (.slot c i) timestamp
    let (b, out') := parseCandata canV64 c timestamp slots b
    (b, out ++ out')

/-- **`parse_frame`**: take a received frame. It is kept in the CAN-ID it is
for before the CAN-ID's kind is looked at. -/
def parseFrame (b : Binder) (frame : CanFrame) (timestamp : Timeval) :
    Binder × List Output × ℤ :=
  let targetcanid := (frame.canId &&& CAN_SFF_MASK).setWidth 16
  if 8#8 < frame.canDlc then (b, [], 1)
  else
    match b.getCANIDDict targetcanid with
    | none => (b, [], 1)
    | some c =>
      let b := { b with toDict := b.setInfo c { b.info c with canrawFrame := frame } }
      if (b.info c).kind = .send then (b, [], 0)
      else
        let canV64 := canvalue2host frame.data
        let (b, out) := parseCandata canV64 c timestamp (List.range (b.info c).nData) b
        (b, out, 0)

/-! ## Sending -/

/-- **`socketcan_send`**: hand a frame to the socket, if it is open. `sent` is
whether the kernel takes it. -/
def socketcanSend (b : Binder) (frame : CanFrame) (sent : Bool) : List Output × ℤ :=
  if b.canSendfd = false then ([], -1) else ([.send frame], if sent then 0 else -1)

/-- **`can_signal_send`**: write a value into the frame of a property and send
it, unless the property cannot take the value. -/
def canSignalSend (b : Binder) (prop : Addr) (v : BitVec 32) (sent : Bool) :
    Binder × List Output :=
  let c := (b.mem prop).mycanid
  let frame := (b.info c).canrawFrame
  match property2canframe (b.mem prop) frame.data v with
  | (ret, p, data) =>
    let d := b.setBit prop p
    let d := d.setInfo c { d.info c with canrawFrame := { frame with data := data } }
    let b := { b with toDict := d }
    if ret ≠ .error then (b, (b.socketcanSend (b.info c).canrawFrame sent).1) else (b, [])

/-- `updateSendTimer`: arm the timer of a CAN-ID again. -/
def updateSendTimer (b : Binder) (c : CanId) : List Output :=
  match b.toDict.updateSendTimer c with
  | some fd => [.settime fd]
  | none => []

/-- **`on_timerEvent`**: send the frame of a CAN-ID again. It is called for
the CAN-IDs that have a timer. -/
def onTimerEvent (b : Binder) (c : CanId) (sent : Bool) : List Output :=
  if (b.info c).timerfd ∈ b.timers then (b.socketcanSend (b.info c).canrawFrame sent).1
  else []

end Binder
