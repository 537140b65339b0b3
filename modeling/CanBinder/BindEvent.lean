import CanBinder.CanJson

/-!
# Events and the receive filter

The registry of events of `bind_event.c`, together with what it talks to: the
daemon, which keeps the clients of every event, and the CAN socket, which
keeps the receive filter. An event is made for a property at its first
subscription, and dropped when a notification finds it without clients.

`Binder` is the whole state of the running binding. Its outputs are what
other parties see: notifications, replies, frames handed to the socket, and
timers armed.
-/

/-- A client of the daemon. -/
abbrev Client := ℕ

/-- `struct afb_event`: whether its interface is set, and the daemon's name
for it. -/
structure AfbEvent where
  /-- `itf` is not null. -/
  itf : Bool
  /-- The daemon's handle. -/
  closure : ℕ
deriving DecidableEq

/-- **`struct bind_event_t`.** -/
structure BindEvent where
  /-- The name of the event, which is that of its property. -/
  name : String
  /-- The event of the daemon. -/
  event : AfbEvent
  /-- The entry of the property the event is about. -/
  rawInfo : Addr
deriving DecidableEq

/-- `struct can_filter`. -/
structure CanFilter where
  /-- `can_id`. -/
  canId : BitVec 32
  /-- `can_mask`. -/
  canMask : BitVec 32
deriving DecidableEq

/-- Whether the kernel hands a frame of this identifier to the socket. -/
def CanFilter.accepts (f : CanFilter) (canId : BitVec 32) : Bool :=
  canId &&& f.canMask = f.canId &&& f.canMask

/-- **The state of the running binding.** -/
structure Binder extends Dict where
  /-- `bind_event_root`. -/
  bindEventRoot : List BindEvent
  /-- The daemon's clients of an event. -/
  clients : ℕ → List Client
  /-- The next handle the daemon gives out. -/
  nextEvent : ℕ
  /-- The receive filter of the socket. -/
  filter : List CanFilter
  /-- `can_sendfd` is open. -/
  canSendfd : Bool

/-- What the binding does that others can see. -/
inductive Output
  /-- `afb_event_push` to the clients of an event. -/
  | push (name : String) (value : Option Json) (clients : List Client)
  /-- `afb_event_drop`. -/
  | drop (name : String)
  /-- A frame handed to the socket. -/
  | send (frame : CanFrame)
  /-- `timerfd_settime` on a timer. -/
  | settime (fd : ℕ)
  /-- `afb_req_success`. -/
  | success (client : Client) (answer : Option Json)
  /-- `afb_req_fail`. -/
  | fail (client : Client) (status : String)

/-- The daemon's answers during one request, by the name of the event. -/
structure DaemonAnswers where
  /-- `afb_daemon_make_event` gives an event. -/
  makeEvent : String → Bool := fun _ => true
  /-- `afb_req_subscribe` returns zero. -/
  reqSubscribe : String → Bool := fun _ => true
  /-- `afb_req_unsubscribe` returns zero. -/
  reqUnsubscribe : String → Bool := fun _ => true

namespace Binder

/-- The binding right after `socketcan_open`: no events, and a filter that
lets nothing through but identifier `0x7FF`. -/
def start (d : Dict) : Binder where
  toDict := d
  bindEventRoot := []
  clients _ := []
  nextEvent := 0
  filter := [⟨CAN_SFF_MASK, CAN_SFF_MASK⟩]
  canSendfd := true

/-! ## Events -/

/-- **`get_event`.** -/
def getEvent (b : Binder) (name : String) : Option BindEvent :=
  SearchTree.tfind BindEvent.name name b.bindEventRoot

/-- **`register_event`**: make the event of a property and register it. A new
event has no clients. -/
def registerEvent (b : Binder) (answers : DaemonAnswers) (name : String) :
    Option (Binder × BindEvent) :=
  match b.getPropertyDict name with
  | none => none
  | some propertyInfo =>
    let event : AfbEvent := ⟨answers.makeEvent (b.name propertyInfo), b.nextEvent⟩
    if event.itf = false then none
    else
      let evt : BindEvent := ⟨b.name propertyInfo, event, propertyInfo⟩
      some ({ b with
        bindEventRoot := (SearchTree.tsearch BindEvent.name evt b.bindEventRoot).2
        clients := Function.update b.clients b.nextEvent []
        nextEvent := b.nextEvent + 1 }, evt)

/-- **`remove_event`**: drop an event and forget it. -/
def removeEvent (b : Binder) (name : String) : Binder × List Output :=
  match b.getEvent name with
  | none => (b, [])
  | some dnode =>
    ({ b with
      bindEventRoot := SearchTree.tdelete BindEvent.name name b.bindEventRoot
      clients := Function.update b.clients dnode.event.closure [] }, [.drop dnode.name])

/-- **`notify_property_changed`**: push the value of an entry under its name,
and drop the event if nobody received it. -/
def notifyPropertyChanged (b : Binder) (propertyInfo : Addr) : Binder × List Output :=
  match b.getEvent (b.name propertyInfo) with
  | none => (b, [])
  | some event =>
    if event.event.itf then
      let recved := b.clients event.event.closure
      let out := Output.push event.name (b.property2json propertyInfo) recved
      if recved.length < 1 then
        let (b, dropped) := b.removeEvent (b.name propertyInfo)
        (b, out :: dropped)
      else (b, [out])
    else (b, [])

/-! ## The receive filter -/

/-- `SUPPORT_CANID_MAX`. -/
def SUPPORT_CANID_MAX : ℕ := 512

/-- `_addSubscribedCanid`: note the CAN-ID of an event once. -/
def addSubscribedCanid (b : Binder) (canids : List (BitVec 32)) (entry : BindEvent) :
    List (BitVec 32) :=
  let canid := (b.info (b.mem entry.rawInfo).mycanid).canid.setWidth 32
  if canid ∈ canids then canids
  else if SUPPORT_CANID_MAX ≤ canids.length then canids
  else canids ++ [canid]

/-- **`getSubscribedCanids`.** -/
def getSubscribedCanids (b : Binder) : List (BitVec 32) :=
  (SearchTree.twalk b.bindEventRoot).foldl b.addSubscribedCanid []

/-- **`socketcan_update_filter`**: an empty list leaves the filter as it
is. -/
def socketcanUpdateFilter (b : Binder) (canidList : List (BitVec 32)) : Binder :=
  if canidList.length ≤ 0 then b
  else { b with filter := canidList.map (fun c => ⟨c, CAN_SFF_MASK⟩) }

end Binder
