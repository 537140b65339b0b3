import CanBinder.Binding

/-!
# Reading from the socket

The way of a frame from the kernel to `parse_frame`: `socketcan_read` of
`socketcan_raw.c`, the loop of `can_signal_read` and the callback `on_event`.

The kernel keeps the frames that pass the receive filter in a queue, each with
the time it came (`Host`). When the socket is readable the daemon calls
`on_event`, which reads at most six of them, and fewer if a read fails: the
queue may be empty for as long as the socket waits, a frame may be incomplete,
or there may be an error of the kernel's.
-/

/-- What `errno` says, as far as it is looked at: `EAGAIN` and `EWOULDBLOCK`
are one number on Linux. -/
inductive Errno
  | eagain
  | other
deriving DecidableEq

/-- `SO_TIMESTAMP`. -/
def SO_TIMESTAMP : ℤ := 29

/-- `CAN_MTU`, the size of a `struct can_frame`. -/
def CAN_MTU : ℤ := 16

/-- `EPOLLIN`. -/
def EPOLLIN : BitVec 32 := 1#32

/-- A control message, its data read as a time. -/
structure Cmsg where
  /-- `cmsg_type`. -/
  cmsgType : ℤ
  /-- `CMSG_DATA`. -/
  data : Timeval
deriving DecidableEq

/-- What the kernel hands out for one frame. -/
structure Datagram where
  /-- How many bytes there are. -/
  nbyte : ℤ
  /-- The bytes, as a frame. -/
  frame : CanFrame
  /-- The control messages. -/
  cmsgs : List Cmsg
deriving DecidableEq

/-- **The result of `recvmsg`**: what it returns, `errno`, and what it filled
in. -/
structure RecvMsg extends Datagram where
  /-- `errno` after the call. -/
  errno : Errno
deriving DecidableEq

/-- A frame of zeros. -/
def CanFrame.cleared : CanFrame := ⟨0#32, 0#8, fun _ => 0#8⟩

/-- `recvmsg` on a queue of the kernel's. A fault is an error it returns for
another reason than an empty queue. -/
def recvmsg (fault : Option Errno) (queue : List Datagram) : RecvMsg × List Datagram :=
  match fault with
  | some errno => (⟨⟨-1, CanFrame.cleared, []⟩, errno⟩, queue)
  | none =>
    match queue with
    | [] => (⟨⟨-1, CanFrame.cleared, []⟩, .eagain⟩, [])
    | dg :: queue => (⟨dg, .other⟩, queue)

/-- **`socketcan_read`**: the frame, its time, and what is returned. The time
is left as it was where no control message has one. -/
def socketcanRead (msg : RecvMsg) (tm : Timeval) : CanFrame × Timeval × ℤ :=
  if msg.nbyte ≤ 0 then
    if msg.errno = .eagain then (msg.frame, tm, 1) else (msg.frame, tm, -1)
  else if msg.nbyte < CAN_MTU then (msg.frame, tm, -1)
  else
    match msg.cmsgs.find? (fun cmsg => cmsg.cmsgType = SO_TIMESTAMP) with
    | some cmsg => (msg.frame, cmsg.data, 0)
    | none => (msg.frame, tm, 0)

/-- **The binding and the queue of its socket.** -/
structure Host extends Binder where
  /-- The frames that were received and not yet read. -/
  queue : List Datagram

namespace Host

/-- **The loop of `can_signal_read`**, under a bound on its iterations. The
last iteration is the one after which `read_max` is greater than five. -/
def readLoop (faults : ℕ → Option Errno) :
    ℕ → ℕ → Host → Timeval → Option (Host × List Output)
  | 0, _, _, _ => none
  | fuel + 1, readMax, h, tstamp =>
    let (msg, queue) := recvmsg (faults readMax) h.queue
    let (frame, tstamp, err) := socketcanRead msg tstamp
    let h := { h with queue := queue }
    if err = 0 then
      let (b, out, _) := h.parseFrame frame tstamp
      let h := { h with toBinder := b }
      if 5 < readMax + 1 then some (h, out)
      else
        match readLoop faults fuel (readMax + 1) h tstamp with
        | none => none
        | some (h, out') => some (h, out ++ out')
    else some (h, [])

/-- **`can_signal_read`**. The time is that of the stack before the first frame
that has one. It returns zero, whatever is read. -/
def canSignalRead (h : Host) (tstamp : Timeval) (faults : ℕ → Option Errno) :
    Option (Host × List Output × ℤ) :=
  (readLoop faults 6 0 h tstamp).map (fun r => (r.1, r.2, 0))

/-- **`on_event`**: what it leaves and what it returns. -/
def onEvent (h : Host) (revents : BitVec 32) (tstamp : Timeval) (faults : ℕ → Option Errno) :
    Option (Host × List Output × ℤ) :=
  if revents &&& EPOLLIN ≠ 0#32 then
    (canSignalRead h tstamp faults).map (fun r =>
      if r.2.2 ≠ 0 then (r.1, r.2.1, -1) else r)
  else some (h, [], 0)

/-- The receive filter lets a frame through. -/
def admits (h : Host) (dg : Datagram) : Bool :=
  h.filter.any (fun f => f.accepts dg.frame.canId)

end Host

/-- What is no frame: the timers and the verbs. -/
def Input.isFrame : Input → Bool
  | .frame _ _ => true
  | _ => false

/-- **What happens to the host.** -/
inductive HostEvent
  /-- A frame comes in on the bus. -/
  | arrive (dg : Datagram)
  /-- The event loop calls `on_event`. -/
  | ready (revents : BitVec 32) (tstamp : Timeval) (faults : ℕ → Option Errno)
  /-- It calls something else. -/
  | call (input : { i : Input // i.isFrame = false })

namespace Host

/-- **One event.** -/
def step (h : Host) : HostEvent → Option (Host × List Output)
  | .arrive dg => some (if h.admits dg then { h with queue := h.queue ++ [dg] } else h, [])
  | .ready revents tstamp faults => (h.onEvent revents tstamp faults).map (fun r => (r.1, r.2.1))
  | .call input =>
    (h.toBinder.step input.1).map (fun r => ({ h with toBinder := r.1 }, r.2))

/-- **A run of the host.** -/
abbrev run : Host → List HostEvent → Option (Host × List Output) :=
  Machine.run step

end Host
