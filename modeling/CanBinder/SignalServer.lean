import CanBinder.AppliedEntries
import CanBinder.Sending

/-!
# A server of signals

What the binding is for, said without its pointers, trees and handles. A
channel has a frame and a list of signals. A signal is a list of entries, one
of which it shows; a frame on its channel is decoded into all of them. A
server resolves names to signals and keeps an audience for some of them: a
signal that is due is shown to the audience of its name, and an audience
nobody is left in is closed by that.

`Server.step` answers the same inputs as the binding with the same outputs.
That the binding does as the server does, in every run, is another module's
matter.
-/

/-- **An entry of a signal**: a definition and a value. -/
structure Entry extends PropDef where
  /-- The current value. -/
  curValue : DataContent
deriving DecidableEq

namespace Entry

/-- The entry as an object of its own. -/
def bit (e : Entry) : CanBit := { e.toPropDef with mycanid := 0#16, curValue := e.curValue }

/-- The entry with another value. -/
def store (e : Entry) (c : DataContent) : Entry := { e with curValue := c }

/-- **A frame and a list of entries**: each gets the value it has in the frame,
up to the first that cannot take it. That one and those after it are left
without a value. -/
def receive (canV64 : BitVec 64) : List Entry → List Entry
  | [] => []
  | e :: l =>
    if e.unreadable canV64 then (e :: l).map (fun x => x.store DataContent.zero)
    else e.store (e.decoded canV64).2 :: receive canV64 l

theorem length_receive (canV64 : BitVec 64) (l : List Entry) :
    (receive canV64 l).length = l.length := by
  induction l with
  | nil => rfl
  | cons e l ih =>
    rw [receive]
    split_ifs
    · rw [List.length_map]
    · rw [List.length_cons, List.length_cons, ih]

theorem receive_ne_nil {canV64 : BitVec 64} {l : List Entry} (h : l ≠ []) :
    receive canV64 l ≠ [] := fun hnil =>
  h (List.length_eq_zero_iff.mp (by rw [← length_receive canV64 l, hnil]; rfl))

end Entry

/-- The place of the last element of a list with a property. -/
def lastIdx {α : Type} (q : α → Bool) : List α → Option ℕ
  | [] => none
  | x :: l =>
    match lastIdx q l with
    | some i => some (i + 1)
    | none => if q x then some 0 else none

/-- **A signal**: its entries, the one it shows, and when it was last shown. -/
@[ext] structure Signal where
  /-- The entries, in the order of their definition. -/
  entries : List Entry
  /-- There is an entry. -/
  nonempty : entries ≠ []
  /-- The place of the entry it shows, if one was ever active. -/
  applied : Option ℕ
  /-- When it was last shown. -/
  updatetime : Timeval

namespace Signal

/-- The first entry. -/
def head (s : Signal) : Entry := s.entries.head s.nonempty

/-- The name of a signal is that of its entries. -/
def name (s : Signal) : String := s.head.name

/-- The entry a signal shows. -/
def shown (s : Signal) : Entry := s.entries.getD (s.applied.getD 0) s.head

/-- **What a signal reports.** -/
def value (s : Signal) : Option Json := Dict.report s.shown.bit

/-- The signal with a value in its first entry. -/
def setHead (s : Signal) (c : DataContent) : Signal :=
  { s with entries := s.head.store c :: s.entries.tail, nonempty := List.cons_ne_nil _ _ }

/-- The cycle of the channel is over since the signal was last shown. -/
def due (s : Signal) (cycle : BitVec 32) (timestamp : Timeval) : Bool :=
  cycle ≤ elapsMs s.updatetime timestamp

/-- A frame and a signal of one entry, which is decoded over its old value. -/
def receiveOne (cycle : BitVec 32) (canV64 : BitVec 64) (timestamp : Timeval) (s : Signal) :
    Signal × Bool :=
  match s.head.decode s.head.curValue (s.head.raw canV64) with
  | (.error, c) => (s.setHead c, false)
  | (.updated, c) => ({ s.setHead c with updatetime := timestamp }, true)
  | (.noUpdated, c) =>
    if s.due cycle timestamp then ({ s.setHead c with updatetime := timestamp }, true)
    else (s.setHead c, false)

/-- The frame makes another entry the one to show, or gives that one another
value. -/
def changed (canV64 : BitVec 64) (s : Signal) : Bool :=
  match lastIdx (fun e => e.active canV64) s.entries with
  | none => false
  | some i =>
    s.applied ≠ some i
      || (Entry.receive canV64 s.entries)[i]?.map Entry.curValue
          ≠ s.entries[i]?.map Entry.curValue

/-- A frame and a signal of several entries. The last active one is shown, and
none of them if one could not take its value. -/
def receiveChain (cycle : BitVec 32) (canV64 : BitVec 64) (timestamp : Timeval) (s : Signal) :
    Signal × Bool :=
  let s' := { s with
    entries := Entry.receive canV64 s.entries, nonempty := Entry.receive_ne_nil s.nonempty }
  if s.entries.any (fun e => e.unreadable canV64) then (s', false)
  else
    let s' := { s' with applied := (lastIdx (fun e => e.active canV64) s.entries).or s.applied }
    if s.changed canV64 || s.due cycle timestamp then ({ s' with updatetime := timestamp }, true)
    else (s', false)

/-- **A frame and a signal**: the signal after the frame, and whether it is to
be shown. -/
def receive (cycle : BitVec 32) (canV64 : BitVec 64) (timestamp : Timeval) (s : Signal) :
    Signal × Bool :=
  if s.entries.length = 1 then s.receiveOne cycle canV64 timestamp
  else s.receiveChain cycle canV64 timestamp

end Signal

/-- The names that are listened to, each with its clients in the order in which
they came. -/
abbrev Audience := String → Option (List Client)

namespace Audience

/-- **Show a value**: to those who listen. A name nobody is left to listen to
is closed. -/
def publish (aud : Audience) (name : String) (value : Option Json) : Audience × List Output :=
  match aud name with
  | none => (aud, [])
  | some [] => (Function.update aud name none, [.push name value [], .drop name])
  | some (c :: cl) => (aud, [.push name value (c :: cl)])

/-- A client joins a name, once. -/
def join (aud : Audience) (client : Client) (name : String) : Audience :=
  Function.update aud name
    ((aud name).map (fun cl => if client ∈ cl then cl else cl ++ [client]))

/-- A client leaves a name. -/
def leave (aud : Audience) (client : Client) (name : String) : Audience :=
  Function.update aud name ((aud name).map (fun cl => cl.filter (fun c => c ≠ client)))

end Audience

/-- A frame and the signals of a channel, each in its turn. -/
def receiveSignals (cycle : BitVec 32) (canV64 : BitVec 64) (timestamp : Timeval) :
    List Signal → Audience → List Signal × Audience × List Output
  | [], aud => ([], aud, [])
  | s :: l, aud =>
    let r := s.receive cycle canV64 timestamp
    let p := if r.2 then aud.publish r.1.name r.1.value else (aud, [])
    let rest := receiveSignals cycle canV64 timestamp l p.1
    (r.1 :: rest.1, rest.2.1, p.2 ++ rest.2.2)

/-- **A channel**: what is known of a CAN-ID, and its signals. -/
structure Channel where
  /-- Whether it is received or sent. -/
  kind : CanPropertyKind
  /-- How often an unchanged value is shown. -/
  cycle : BitVec 32
  /-- The frame last received, or the one to send. -/
  frame : CanFrame
  /-- The timer on which the frame is sent. -/
  timer : Option ℕ
  /-- The signals. -/
  signals : List Signal

/-- **The server.** -/
structure Server where
  /-- The channels there are, in order. -/
  canids : List CanId
  /-- The channel of a CAN-ID. -/
  channels : CanId → Channel
  /-- The signal of a name: its channel, and its place there. -/
  resolve : String → Option (CanId × ℕ)
  /-- The names that `"*"` stands for. -/
  supported : List String
  /-- Who listens to what. -/
  audience : Audience
  /-- The bus is open for sending. -/
  canSendfd : Bool

namespace Server

/-- The channel and the signal of a name. -/
def lookup (s : Server) (name : String) : Option (CanId × ℕ × Signal) :=
  (s.resolve name).bind (fun p => ((s.channels p.1).signals[p.2]?).map (fun g => (p.1, p.2, g)))

/-- The value of a name. -/
def valueOf (s : Server) (name : String) : Option Json :=
  (s.lookup name).bind (fun p => p.2.2.value)

/-- The server with another channel. -/
def setChannel (s : Server) (c : CanId) (ch : Channel) : Server :=
  { s with channels := Function.update s.channels c ch }

@[simp] theorem setChannel_setChannel (s : Server) (c : CanId) (ch ch' : Channel) :
    (s.setChannel c ch).setChannel c ch' = s.setChannel c ch' := by
  unfold setChannel
  dsimp only
  rw [Function.update_idem]

/-- A frame for a channel that is received. -/
def receive (s : Server) (c : CanId) (frame : CanFrame) (timestamp : Timeval) :
    Server × List Output :=
  let ch := s.channels c
  let r := receiveSignals ch.cycle (canvalue2host frame.data) timestamp ch.signals s.audience
  ({ s.setChannel c { ch with frame := frame, signals := r.1 } with audience := r.2.1 }, r.2.2)

/-- **A frame from the bus.** -/
def frame (s : Server) (frame : CanFrame) (timestamp : Timeval) : Server × List Output :=
  let c := (frame.canId &&& CAN_SFF_MASK).setWidth 16
  if 8#8 < frame.canDlc then (s, [])
  else if c ∈ s.canids then
    if (s.channels c).kind = .send then
      (s.setChannel c { s.channels c with frame := frame }, [])
    else s.receive c frame timestamp
  else (s, [])

theorem frame_of_not_isFor {s : Server} {f : CanFrame} (h : ¬∃ c ∈ s.canids, Binder.IsFor c f)
    (timestamp : Timeval) : s.frame f timestamp = (s, []) := by
  unfold frame
  dsimp only
  split_ifs with hdlc hc
  · rfl
  · exact absurd ⟨_, hc, hdlc, rfl⟩ h
  · exact absurd ⟨_, hc, hdlc, rfl⟩ h
  · rfl

theorem frame_of_send {s : Server} {f : CanFrame} {c : CanId} (hc : c ∈ s.canids)
    (hfor : Binder.IsFor c f) (hkind : (s.channels c).kind = .send) (timestamp : Timeval) :
    s.frame f timestamp = (s.setChannel c { s.channels c with frame := f }, []) := by
  obtain ⟨hdlc, rfl⟩ := hfor
  unfold frame
  dsimp only
  rw [if_neg hdlc, if_pos hc, if_pos hkind]

theorem frame_of_receive {s : Server} {f : CanFrame} {c : CanId} (hc : c ∈ s.canids)
    (hfor : Binder.IsFor c f) (hkind : (s.channels c).kind ≠ .send) (timestamp : Timeval) :
    s.frame f timestamp = s.receive c f timestamp := by
  obtain ⟨hdlc, rfl⟩ := hfor
  unfold frame
  dsimp only
  rw [if_neg hdlc, if_pos hc, if_neg hkind]

/-- The frame of a channel goes to the bus. -/
def send (s : Server) (frame : CanFrame) : List Output :=
  if s.canSendfd then [.send frame] else []

/-- A tick of the timer of a channel. -/
def timer (s : Server) (c : CanId) : List Output :=
  if (s.channels c).timer.isSome then s.send (s.channels c).frame else []

/-- **The verb `get`.** -/
def get (s : Server) (client : Client) (event : Option String) : List Output :=
  match event with
  | none => [.fail client "request error"]
  | some name =>
    match s.lookup name with
    | none => [.fail client "Unknown property"]
    | some (_, _, g) =>
      match g.value with
      | some (.object l) =>
        [.success client (some (.object (Json.objectAdd l "name" (.string name))))]
      | some j => [.success client (some j)]
      | none => [.fail client "Unsupported property"]

/-- A value for a signal: into its first entry and into the frame of its
channel, which is sent. -/
def assign (s : Server) (c : CanId) (i : ℕ) (g : Signal) (v : BitVec 32) :
    Server × List Output :=
  if g.head.rejects v then (s, [])
  else
    let ch := s.channels c
    let f := { ch.frame with data := Binder.writeFrame g.head.toPropDef ch.frame.data v }
    let g' := g.setHead (g.head.decode g.head.curValue v).2
    (s.setChannel c { ch with frame := f, signals := ch.signals.set i g' }, s.send f)

/-- **The verb `set`.** -/
def set (s : Server) (client : Client) (event value : Option String) : Server × List Output :=
  match event with
  | none => (s, [.fail client "request error"])
  | some name =>
    match value with
    | none => (s, [.fail client "request error"])
    | some text =>
      match s.lookup name with
      | none => (s, [.fail client "Unknown property"])
      | some (c, i, g) =>
        let r := s.assign c i g (BitVec.ofInt 32 (CLib.strtol text 0))
        (r.1, r.2 ++ (s.channels c).timer.toList.map Output.settime ++ [.success client none])

/-- **The verb `list`.** -/
def list (s : Server) (client : Client) : List Output :=
  [.success client (some (.array
    ((s.canids.flatMap (fun c => (s.channels c).signals.map Signal.name)).map Json.string)))]

/-- The server with a name that is listened to: one that is not yet is opened,
to nobody. -/
def opened (s : Server) (answers : DaemonAnswers) (name : String) : Option Server :=
  if (s.audience name).isSome then some s
  else if (s.lookup name).isSome ∧ answers.makeEvent name = true then
    some { s with audience := Function.update s.audience name (some []) }
  else none

/-- One named subscription. A name that was opened for it stays open if the
client is refused. -/
def subscribeOne (client : Client) (answers : DaemonAnswers)
    (t : Server × List (String × Json)) (name : String) :
    (Server × List (String × Json)) × ℕ :=
  match t.1.opened answers name with
  | none => (t, 1)
  | some s =>
    if answers.reqSubscribe name = false then ((s, t.2), 1)
    else
      (({ s with audience := s.audience.join client name },
        Json.objectAdd t.2 name ((s.valueOf name).getD .null)), 0)

/-- A subscription to a name, or to all of them. -/
def subscribeSignal (client : Client) (answers : DaemonAnswers) :
    ℕ → Server × List (String × Json) → String → Option ((Server × List (String × Json)) × ℕ)
  | 0, _, _ => none
  | depth + 1, t, name =>
    if name = "*" then
      Binder.forAll (subscribeSignal client answers depth) t.1.supported (t, 0)
    else some (subscribeOne client answers t name)

/-- **The verb `subscribe`.** -/
def subscribe (s : Server) (client : Client) (event : Option String)
    (answers : DaemonAnswers) : Option (Server × List Output) :=
  match event with
  | none => some (s, [.fail client "error"])
  | some event =>
    (subscribeSignal client answers Binder.callDepth (s, []) event).map (fun r =>
      (r.1.1, [if r.2 = 0 then .success client (some (.object r.1.2)) else .fail client "error"]))

/-- One name to leave. -/
def unsubscribeOne (client : Client) (answers : DaemonAnswers) (s : Server) (name : String) :
    Server × ℕ :=
  if (s.audience name).isSome ∧ answers.reqUnsubscribe name = true then
    ({ s with audience := s.audience.leave client name }, 0)
  else (s, 1)

/-- A name to leave, or all of them. -/
def unsubscribeSignal (client : Client) (answers : DaemonAnswers) :
    ℕ → Server → String → Option (Server × ℕ)
  | 0, _, _ => none
  | depth + 1, s, name =>
    if name = "*" then
      Binder.forAll (unsubscribeSignal client answers depth) s.supported (s, 0)
    else some (unsubscribeOne client answers s name)

/-- **The verb `unsubscribe`.** -/
def unsubscribe (s : Server) (client : Client) (args : Option Json)
    (answers : DaemonAnswers) : Option (Server × List Output) :=
  (Binder.unsubscribeNames args).bind (fun names =>
    (Binder.forAll (unsubscribeSignal client answers Binder.callDepth) names (s, 0)).map (fun r =>
      (r.1, [if r.2 = 0 then .success client none else .fail client "error"])))

/-- **One input.** -/
def step (s : Server) : Input → Option (Server × List Output)
  | .frame f timestamp => some (s.frame f timestamp)
  | .timer c _ => some (s, s.timer c)
  | .get client event => some (s, s.get client event)
  | .set client event value _ => some (s.set client event value)
  | .list client => some (s, s.list client)
  | .subscribe client event answers => s.subscribe client event answers
  | .unsubscribe client args answers => s.unsubscribe client args answers

/-- **A run of the server.** -/
abbrev run : Server → List Input → Option (Server × List Output) :=
  Machine.run step

end Server
