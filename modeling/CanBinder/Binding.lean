import CanBinder.CanSignalEvent
import CanBinder.Machine

/-!
# The verbs of the binding

The verbs of `af-canivi-binding.c`, and the binding as a machine: it is given
requests of clients, frames from the bus and ticks of its timers, one at a
time, and answers each with a new state and its outputs (`Binder.step`). An
input that is not answered is one the process does not come back from, by
reading through a null pointer or by a recursion without end.

Subscribing to `"*"` subscribes to every supported property by its name, and
a name can select the `"*"` branch again. The depth of that mutual recursion
is a parameter of `subscribeSignal` and `unsubscribeSignal`.
-/

/-- What happens to the binding. -/
inductive Input
  /-- A frame read from the socket, with its time. -/
  | frame (frame : CanFrame) (timestamp : Timeval)
  /-- A timer event of a CAN-ID; `sent` is whether the kernel takes the
  frame. -/
  | timer (c : CanId) (sent : Bool)
  /-- The verb `get`. -/
  | get (client : Client) (event : Option String)
  /-- The verb `set`. -/
  | set (client : Client) (event value : Option String) (sent : Bool)
  /-- The verb `list`. -/
  | list (client : Client)
  /-- The verb `subscribe`. -/
  | subscribe (client : Client) (event : Option String) (answers : DaemonAnswers)
  /-- The verb `unsubscribe`, with its JSON arguments. -/
  | unsubscribe (client : Client) (args : Option Json) (answers : DaemonAnswers)

namespace Binder

/-! ## Reading and writing values -/

/-- **The verb `get`.** -/
def get (b : Binder) (client : Client) (event : Option String) : List Output :=
  match event with
  | none => [.fail client "request error"]
  | some propName =>
    match b.getPropertyDict propName with
    | none => [.fail client "Unknown property"]
    | some prop =>
      match b.property2json prop with
      | some (.object l) =>
        [.success client (some (.object (Json.objectAdd l "name" (.string propName))))]
      | some j => [.success client (some j)]
      | none => [.fail client "Unsupported property"]

/-- **The verb `set`**: whatever becomes of the value, the timer of the CAN-ID
is armed again and the request succeeds. -/
def set (b : Binder) (client : Client) (event value : Option String) (sent : Bool) :
    Binder × List Output :=
  match event with
  | none => (b, [.fail client "request error"])
  | some propName =>
    match value with
    | none => (b, [.fail client "request error"])
    | some valueStr =>
      let v := CLib.strtol valueStr 0
      match b.getPropertyDict propName with
      | none => (b, [.fail client "Unknown property"])
      | some prop =>
        let (b, out) := b.canSignalSend prop (BitVec.ofInt 32 v) sent
        (b, out ++ b.updateSendTimer (b.mem prop).mycanid ++ [.success client none])

/-- `_listup_properties`: the names in the array of a CAN-ID. -/
def listupProperties (b : Binder) (c : CanId) : List String :=
  (List.range (b.info c).nData).map (fun i => b.name (.slot c i))

/-- The names the verb `list` answers with. -/
def listNames (b : Binder) : List String :=
  b.canidWalker.flatMap b.listupProperties

/-- **The verb `list`.** The source keeps the array in the static `tmplists`, and
puts it at the next `list`, when the daemon has long taken it for the answer:
what C does then is undefined. Here there is no such array, and a second `list`
answers as the first. -/
def list (b : Binder) (client : Client) : List Output :=
  [.success client (some (.array (b.listNames.map Json.string)))]

/-! ## Subscriptions -/

/-- `afb_req_subscribe`: add the client to an event. -/
def afbReqSubscribe (b : Binder) (client : Client) (event : AfbEvent) : Binder :=
  { b with
    clients := Function.update b.clients event.closure
      (if client ∈ b.clients event.closure then b.clients event.closure
        else b.clients event.closure ++ [client]) }

/-- `afb_req_unsubscribe`: remove the client from an event. -/
def afbReqUnsubscribe (b : Binder) (client : Client) (event : AfbEvent) : Binder :=
  { b with
    clients := Function.update b.clients event.closure
      ((b.clients event.closure).filter (fun c => c ≠ client)) }

/-- A loop over names that adds up the errors, as `subscribe_all` and
`unsubscribe_all` run one. -/
def forAll {σ : Type} (signal : σ → String → Option (σ × ℕ)) :
    List String → σ × ℕ → Option (σ × ℕ)
  | [], s => some s
  | name :: names, (s, err) =>
    match signal s name with
    | none => none
    | some (s, e) => forAll signal names (s, err + e)

/-- `subscribe_signal` for one named property: its event is made if there is
none, and the reply gets its value. -/
def subscribeOne (client : Client) (answers : DaemonAnswers)
    (s : Binder × List (String × Json)) (name : String) :
    (Binder × List (String × Json)) × ℕ :=
  let (b, apply) := s
  let found :=
    match b.getEvent name with
    | some event => some (b, event)
    | none => b.registerEvent answers name
  match found with
  | none => (s, 1)
  | some (b, event) =>
    if answers.reqSubscribe name = false then ((b, apply), 1)
    else
      let b := b.afbReqSubscribe client event.event
      ((b, Json.objectAdd apply event.name ((b.property2json event.rawInfo).getD .null)), 0)

/-- **`subscribe_signal`** and `subscribe_all`, to a depth. -/
def subscribeSignal (client : Client) (answers : DaemonAnswers) :
    ℕ → Binder × List (String × Json) → String →
      Option ((Binder × List (String × Json)) × ℕ)
  | 0, _, _ => none
  | depth + 1, s, name =>
    if name = "*" then
      forAll (subscribeSignal client answers depth) s.1.getSupportPropertiesList (s, 0)
    else some (subscribeOne client answers s name)

/-- `unsubscribe_signal` for one named property. -/
def unsubscribeOne (client : Client) (answers : DaemonAnswers) (b : Binder)
    (name : String) : Binder × ℕ :=
  match b.getEvent name with
  | none => (b, 1)
  | some event =>
    if answers.reqUnsubscribe name = false then (b, 1)
    else (b.afbReqUnsubscribe client event.event, 0)

/-- **`unsubscribe_signal`** and `unsubscribe_all`, to a depth. -/
def unsubscribeSignal (client : Client) (answers : DaemonAnswers) :
    ℕ → Binder → String → Option (Binder × ℕ)
  | 0, _, _ => none
  | depth + 1, b, name =>
    if name = "*" then
      forAll (unsubscribeSignal client answers depth) b.getSupportPropertiesList (b, 0)
    else some (unsubscribeOne client answers b name)

/-- The depth at which the recursion of the subscriptions is cut off: one
call for `"*"`, and one for each name it stands for. -/
def callDepth : ℕ := 2

/-- **The verb `subscribe`**: the receive filter is computed anew whether or
not the request succeeds. -/
def subscribe (b : Binder) (client : Client) (event : Option String)
    (answers : DaemonAnswers) : Option (Binder × List Output) :=
  match event with
  | none => some (b, [.fail client "error"])
  | some event =>
    match subscribeSignal client answers callDepth (b, []) event with
    | none => none
    | some ((b, apply), err) =>
      let b := b.socketcanUpdateFilter b.getSubscribedCanids
      if err = 0 then some (b, [.success client (some (.object apply))])
      else some (b, [.fail client "error"])

/-- The names an `unsubscribe` request gives: all of them without an `event`
member. A `null` among them is read as a string. -/
def unsubscribeNames (args : Option Json) : Option (List String) :=
  match args with
  | some (.object l) =>
    if l.any (fun m => m.1 = "event") then
      match Json.lookup l "event" with
      | .array names => names.mapM Json.getString
      | val => val.getString.map (fun s => [s])
    else some ["*"]
  | _ => some ["*"]

/-- **The verb `unsubscribe`.** -/
def unsubscribe (b : Binder) (client : Client) (args : Option Json)
    (answers : DaemonAnswers) : Option (Binder × List Output) :=
  match unsubscribeNames args with
  | none => none
  | some names =>
    match forAll (unsubscribeSignal client answers callDepth) names (b, 0) with
    | none => none
    | some (b, err) =>
      some (b, [if err = 0 then .success client none else .fail client "error"])

/-! ## The machine -/

/-- **One input.** -/
def step (b : Binder) : Input → Option (Binder × List Output)
  | .frame frame timestamp =>
    let (b, out, _) := b.parseFrame frame timestamp
    some (b, out)
  | .timer c sent => some (b, b.onTimerEvent c sent)
  | .get client event => some (b, b.get client event)
  | .set client event value sent => some (b.set client event value sent)
  | .list client => some (b, b.list client)
  | .subscribe client event answers => b.subscribe client event answers
  | .unsubscribe client args answers => b.unsubscribe client args answers

/-- A run of the binding. -/
abbrev run : Binder → List Input → Option (Binder × List Output) :=
  Machine.run step

end Binder
