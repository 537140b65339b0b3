import CanBinder.ReceiveFilter
import CanBinder.Simulation
import CanBinder.SocketcanRaw

/-!
# Every frame is an event

The binding takes frames as they are read, up to six at a time, and between
them the timers and the verbs. A run of the host is a run of the binding in
which every frame is an input of its own (`Host.run_frames`): the datagrams that
were read are the first of those that the filter let through, in the order in
which they came, and the rest is still in the queue. Of those that were read the
complete ones are the inputs, each once and with the time at which it came; the
short ones are gone. So what is proved of the runs of the binding holds of the
host. It is assumed that the kernel gives every datagram the time at which it
came.

Where all datagrams are complete and no read fails, nothing stays in the queue
for long: a frame behind `p` others is read once the event loop was there
`p / 6 + 1` times (`Host.run_drains`). And what comes in for an event is let into
the queue at all, since the filter covers the events.
-/

namespace Datagram

/-- The frame is all there. -/
def complete (dg : Datagram) : Bool := CAN_MTU ≤ dg.nbyte

/-- The time at which it came. -/
def time (dg : Datagram) : Option Timeval :=
  (dg.cmsgs.find? (fun cmsg => cmsg.cmsgType = SO_TIMESTAMP)).map Cmsg.data

/-- The frame as an input, which it is if it has a time. -/
def input (dg : Datagram) : Input := .frame dg.frame (dg.time.getD ⟨0, 0⟩)

end Datagram

/-- The inputs that the complete ones of some datagrams are. -/
def frameInputs (l : List Datagram) : List Input :=
  (l.filter Datagram.complete).map Datagram.input

theorem frameInputs_append (l l' : List Datagram) :
    frameInputs (l ++ l') = frameInputs l ++ frameInputs l' := by
  unfold frameInputs
  rw [List.filter_append, List.map_append]

theorem frameInputs_singleton {dg : Datagram} (hdg : dg.complete = true)
    (htime : dg.time.isSome) (tm : Timeval) :
    frameInputs [dg] = [.frame dg.frame (dg.time.getD tm)] := by
  obtain ⟨time, ht⟩ := Option.isSome_iff_exists.mp htime
  simp [frameInputs, Datagram.input, hdg, ht]

theorem neg_one_lt_mtu : (-1 : ℤ) < CAN_MTU := by decide

/-- **A complete frame is read**, with its time. -/
theorem socketcanRead_of_complete {dg : Datagram} (h : dg.complete = true) (errno : Errno)
    (tm : Timeval) : socketcanRead ⟨dg, errno⟩ tm = (dg.frame, dg.time.getD tm, 0) := by
  have hmtu : CAN_MTU ≤ dg.nbyte := of_decide_eq_true h
  have hpos : ¬dg.nbyte ≤ 0 := not_le.mpr (lt_of_lt_of_le (by decide) hmtu)
  unfold socketcanRead Datagram.time
  dsimp only
  rw [if_neg hpos, if_neg (not_lt.mpr hmtu)]
  cases dg.cmsgs.find? (fun cmsg => cmsg.cmsgType = SO_TIMESTAMP) <;> rfl

/-- **An incomplete one is not**, and an error is none. -/
theorem socketcanRead_of_short {msg : RecvMsg} (h : msg.nbyte < CAN_MTU) (tm : Timeval) :
    (socketcanRead msg tm).2.2 ≠ 0 := by
  unfold socketcanRead
  split_ifs
  · exact one_ne_zero
  · exact neg_ne_zero.mpr one_ne_zero
  · exact neg_ne_zero.mpr one_ne_zero

namespace Host

/-! ## The loop -/

/-- One iteration of the loop that reads a frame. -/
theorem readLoop_of_complete {faults : ℕ → Option Errno} {readMax : ℕ} {h : Host}
    {dg : Datagram} {queue : List Datagram} (hfault : faults readMax = none)
    (hq : h.queue = dg :: queue) (hdg : dg.complete = true) (fuel : ℕ) (tstamp : Timeval) :
    readLoop faults (fuel + 1) readMax h tstamp =
      let r := h.parseFrame dg.frame (dg.time.getD tstamp)
      let h' : Host := { toBinder := r.1, queue := queue }
      if 5 < readMax + 1 then some (h', r.2.1)
      else (readLoop faults fuel (readMax + 1) h' (dg.time.getD tstamp)).map
        (fun p => (p.1, r.2.1 ++ p.2)) := by
  have hmsg : recvmsg (faults readMax) h.queue = (⟨dg, .other⟩, queue) := by
    rw [hfault, hq]
    rfl
  rw [readLoop, hmsg]
  dsimp only
  rw [socketcanRead_of_complete hdg]
  dsimp only
  rw [if_pos rfl]
  split_ifs
  · rfl
  · cases readLoop faults fuel (readMax + 1) _ (dg.time.getD tstamp) <;> rfl

/-- One iteration that does not: what cannot be read is gone, and the loop
ends. -/
theorem readLoop_of_not_read {faults : ℕ → Option Errno} {readMax : ℕ} {h : Host}
    (hread : faults readMax = none → ∀ dg ∈ h.queue.head?, dg.complete = false) (fuel : ℕ)
    (tstamp : Timeval) :
    ∃ read queue, h.queue = read ++ queue ∧ frameInputs read = []
      ∧ readLoop faults (fuel + 1) readMax h tstamp = some ({ h with queue := queue }, []) := by
  have hend : ∀ msg queue, recvmsg (faults readMax) h.queue = (msg, queue) →
      msg.nbyte < CAN_MTU →
        readLoop faults (fuel + 1) readMax h tstamp = some ({ h with queue := queue }, []) :=
    fun msg queue hmsg hshort => by
      rw [readLoop, hmsg]
      dsimp only
      rw [if_neg (socketcanRead_of_short hshort tstamp)]
  cases hfault : faults readMax with
  | some errno =>
    have hmsg : recvmsg (faults readMax) h.queue
        = (⟨⟨-1, CanFrame.cleared, []⟩, errno⟩, h.queue) := by
      rw [hfault]
      rfl
    exact ⟨[], h.queue, rfl, rfl, hend _ _ hmsg neg_one_lt_mtu⟩
  | none =>
    cases hq : h.queue with
    | nil =>
      have hmsg : recvmsg (faults readMax) h.queue
          = (⟨⟨-1, CanFrame.cleared, []⟩, .eagain⟩, []) := by
        rw [hfault, hq]
        rfl
      exact ⟨[], [], rfl, rfl, hend _ _ hmsg neg_one_lt_mtu⟩
    | cons dg queue =>
      have hshort : dg.complete = false := hread hfault dg (by rw [hq]; rfl)
      have hmsg : recvmsg (faults readMax) h.queue = (⟨dg, .other⟩, queue) := by
        rw [hfault, hq]
        rfl
      refine ⟨[dg], queue, rfl, ?_, hend _ _ hmsg (not_le.mp (of_decide_eq_false hshort))⟩
      unfold frameInputs
      rw [List.filter_cons_of_neg (by rw [hshort]; exact Bool.false_ne_true)]
      rfl

/-- Whether an iteration reads a frame. -/
theorem read_or_not (faults : ℕ → Option Errno) (readMax : ℕ) (h : Host) :
    (faults readMax = none ∧ ∃ dg queue, h.queue = dg :: queue ∧ dg.complete = true)
      ∨ (faults readMax = none → ∀ dg ∈ h.queue.head?, dg.complete = false) := by
  cases hq : h.queue with
  | nil => exact Or.inr (fun _ dg hdg => absurd hdg (Option.not_mem_none dg))
  | cons dg queue =>
    cases hdg : dg.complete with
    | true =>
      by_cases hfault : faults readMax = none
      · exact Or.inl ⟨hfault, dg, queue, rfl, hdg⟩
      · exact Or.inr (fun hnone => absurd hnone hfault)
    | false =>
      refine Or.inr (fun _ dg' hdg' => ?_)
      rw [List.head?_cons, Option.mem_some_iff] at hdg'
      rwa [← hdg']

/-- **The loop hands the first frames of the queue to the binding**, one after
the other, as far as they are complete. -/
theorem readLoop_frames (faults : ℕ → Option Errno) {fuel readMax : ℕ}
    (hfuel : readMax + fuel = 6) (hpos : 0 < fuel) {h : Host}
    (htime : ∀ dg ∈ h.queue, dg.time.isSome) (tstamp : Timeval) :
    ∃ h' out read, readLoop faults fuel readMax h tstamp = some (h', out)
      ∧ h.queue = read ++ h'.queue
      ∧ Binder.run h.toBinder (frameInputs read) = some (h'.toBinder, out) := by
  induction fuel generalizing readMax h tstamp with
  | zero => exact absurd hpos (Nat.lt_irrefl 0)
  | succ fuel ih =>
    rcases read_or_not faults readMax h with ⟨hfault, dg, queue, hq, hdg⟩ | hread
    · rw [readLoop_of_complete hfault hq hdg]
      dsimp only
      have htime' : ∀ dg' ∈ queue, dg'.time.isSome := fun dg' hdg' =>
        htime dg' (by rw [hq]; exact List.mem_cons_of_mem dg hdg')
      have hone : Binder.run h.toBinder (frameInputs [dg])
          = some ((h.parseFrame dg.frame (dg.time.getD tstamp)).1,
            (h.parseFrame dg.frame (dg.time.getD tstamp)).2.1) := by
        rw [frameInputs_singleton hdg (htime dg (by rw [hq]; exact List.mem_cons_self)) tstamp]
        exact Machine.run_cons_eq_some.mpr ⟨_, _, _, rfl, rfl, (List.append_nil _).symm⟩
      split_ifs with hlast
      · exact ⟨_, _, [dg], rfl, hq, hone⟩
      · have hfuel' : readMax + 1 + fuel = 6 := by omega
        obtain ⟨h', out, read, heq, hqueue, hrun⟩ := ih hfuel' (by omega)
          (h := ⟨(h.parseFrame dg.frame (dg.time.getD tstamp)).1, queue⟩) htime'
          (dg.time.getD tstamp)
        refine ⟨h', _, dg :: read, by rw [heq]; rfl, hq.trans (congrArg (dg :: ·) hqueue), ?_⟩
        rw [← List.singleton_append, frameInputs_append]
        exact Machine.run_append_eq_some hone hrun
    · obtain ⟨read, queue, hq, hnil, heq⟩ := readLoop_of_not_read hread fuel tstamp
      exact ⟨_, [], read, heq, hq, by rw [hnil]; rfl⟩

/-- **Where all is well, the loop reads six frames**, or all there are. -/
theorem readLoop_drains {faults : ℕ → Option Errno} (hfaults : ∀ i, faults i = none)
    {fuel readMax : ℕ} (hfuel : readMax + fuel = 6) (hpos : 0 < fuel) {h : Host}
    (hcomplete : ∀ dg ∈ h.queue, dg.complete = true) {tstamp : Timeval} {h' : Host}
    {out : List Output} (hr : readLoop faults fuel readMax h tstamp = some (h', out)) :
    h'.queue = h.queue.drop fuel := by
  induction fuel generalizing readMax h tstamp out with
  | zero => exact absurd hpos (Nat.lt_irrefl 0)
  | succ fuel ih =>
    cases hq : h.queue with
    | nil =>
      have hread : faults readMax = none → ∀ dg ∈ h.queue.head?, dg.complete = false :=
        fun _ dg hdg => by
          rw [hq] at hdg
          cases hdg
      obtain ⟨read, queue, hsplit, -, heq⟩ := readLoop_of_not_read hread fuel tstamp
      cases heq.symm.trans hr
      rw [hq] at hsplit
      rw [(List.nil_eq_append_iff.mp hsplit).2]
      rfl
    | cons dg queue =>
      have hdg : dg.complete = true := hcomplete dg (by rw [hq]; exact List.mem_cons_self)
      rw [readLoop_of_complete (hfaults readMax) hq hdg] at hr
      dsimp only at hr
      rw [List.drop_succ_cons]
      split_ifs at hr with hlast
      · have hzero : fuel = 0 := by omega
        cases hr
        rw [hzero]
        rfl
      · obtain ⟨⟨h₁, out₁⟩, hr', heq⟩ := Option.map_eq_some_iff.mp hr
        cases heq
        have hfuel' : readMax + 1 + fuel = 6 := by omega
        exact ih hfuel' (by omega) (fun dg' hdg' =>
          hcomplete dg' (by rw [hq]; exact List.mem_cons_of_mem dg hdg')) hr'

/-! ## Runs -/

/-- The frame that an event puts into the queue. -/
def queued (h : Host) : HostEvent → List Datagram
  | .arrive dg => if h.admits dg then [dg] else []
  | _ => []

/-- A frame that the filter lets through is the last of the queue. -/
theorem queue_arrive (h : Host) (dg : Datagram) :
    (if h.admits dg then { h with queue := h.queue ++ [dg] } else h).queue
      = h.queue ++ h.queued (.arrive dg) := by
  have hqueued : h.queued (.arrive dg) = if h.admits dg then [dg] else [] := rfl
  rw [hqueued]
  split_ifs
  · rfl
  · exact (List.append_nil _).symm

/-- The frames that the filter lets through in a run, in the order in which
they come. -/
def accepted : Host → List HostEvent → List Datagram
  | _, [] => []
  | h, e :: es =>
    h.queued e ++
    match h.step e with
    | none => []
    | some (h', _) => accepted h' es

/-- The timers and verbs among some events. -/
def calls (es : List HostEvent) : List Input :=
  es.filterMap (fun e =>
    match e with
    | .call input => some input.1
    | _ => none)

theorem accepted_cons {h h₁ : Host} {e : HostEvent} {out : List Output}
    (hs : h.step e = some (h₁, out)) (es : List HostEvent) :
    h.accepted (e :: es) = h.queued e ++ h₁.accepted es := by
  rw [accepted, hs]

/-- What is no frame. -/
def others (ins : List Input) : List Input := ins.filter (fun i => !i.isFrame)

theorem others_frameInputs (l : List Datagram) : others (frameInputs l) = [] := by
  unfold others frameInputs
  rw [List.filter_map, List.map_eq_nil_iff, List.filter_eq_nil_iff]
  exact fun dg _ => Bool.false_ne_true

theorem filter_isFrame_frameInputs (l : List Datagram) :
    (frameInputs l).filter Input.isFrame = frameInputs l := by
  refine List.filter_eq_self.mpr (fun i hi => ?_)
  obtain ⟨dg, -, rfl⟩ := List.mem_map.mp hi
  rfl

/-- **One event of the host**: the inputs it is for the binding, and the frames
it takes from the queue. -/
theorem step_frames {h h' : Host} {e : HostEvent} {out : List Output}
    (htime : ∀ dg ∈ h.queue, dg.time.isSome) (hs : h.step e = some (h', out)) :
    ∃ ins read, Binder.run h.toBinder ins = some (h'.toBinder, out)
      ∧ h.queue ++ h.queued e = read ++ h'.queue
      ∧ ins.filter Input.isFrame = frameInputs read ∧ others ins = calls [e] := by
  cases e with
  | arrive dg =>
    cases hs
    refine ⟨[], [], ?_, (h.queue_arrive dg).symm, rfl, rfl⟩
    split_ifs <;> rfl
  | call input =>
    obtain ⟨⟨b, out'⟩, hb, heq⟩ := Option.map_eq_some_iff.mp hs
    cases heq
    refine ⟨[input.1], [], ?_, ?_, ?_, ?_⟩
    · exact Machine.run_cons_eq_some.mpr ⟨b, _, [], hb, rfl, (List.append_nil _).symm⟩
    · exact List.append_nil _
    · exact List.filter_cons_of_neg (by rw [input.2]; exact Bool.false_ne_true)
    · exact List.filter_cons_of_pos (by rw [input.2]; rfl)
  | ready revents tstamp faults =>
    have hnone : h.queued (.ready revents tstamp faults) = [] := rfl
    rw [hnone, List.append_nil]
    unfold step onEvent at hs
    dsimp only at hs
    split_ifs at hs with hin
    · obtain ⟨h₁, out₁, read, hloop, hqueue, hrun⟩ :=
        readLoop_frames faults (by decide : 0 + 6 = 6) (by decide) htime tstamp
      unfold canSignalRead at hs
      rw [hloop] at hs
      cases hs
      exact ⟨frameInputs read, read, hrun, hqueue, filter_isFrame_frameInputs read,
        others_frameInputs read⟩
    · cases hs
      exact ⟨[], [], rfl, rfl, rfl, rfl⟩

/-- **A run of the host is a run of the binding** in which the complete ones of
the datagrams that were read are inputs: those are the first of the datagrams
that the filter let through, in order, and the others are in the queue. -/
theorem run_frames {h h' : Host} {es : List HostEvent} {outs : List Output}
    (htime : ∀ dg ∈ h.queue ++ h.accepted es, dg.time.isSome)
    (hr : run h es = some (h', outs)) :
    ∃ ins read, Binder.run h.toBinder ins = some (h'.toBinder, outs)
      ∧ h.queue ++ h.accepted es = read ++ h'.queue
      ∧ ins.filter Input.isFrame = frameInputs read ∧ others ins = calls es := by
  induction es generalizing h outs with
  | nil =>
    cases hr
    exact ⟨[], [], rfl, List.append_nil _, rfl, rfl⟩
  | cons e es ih =>
    obtain ⟨h₁, out, out', hs, hr', rfl⟩ := Machine.run_cons_eq_some.mp hr
    rw [accepted_cons hs, ← List.append_assoc] at htime ⊢
    obtain ⟨ins, read, hrun, hqueue, hframes, hcalls⟩ := step_frames
      (fun dg hdg => htime dg (List.mem_append_left _ (List.mem_append_left _ hdg))) hs
    rw [hqueue, List.append_assoc] at htime ⊢
    obtain ⟨ins', read', hrun', hqueue', hframes', hcalls'⟩ :=
      ih (fun dg hdg => htime dg (List.mem_append_right _ hdg)) hr'
    refine ⟨ins ++ ins', read ++ read', Machine.run_append_eq_some hrun hrun', ?_, ?_, ?_⟩
    · rw [hqueue', List.append_assoc]
    · rw [List.filter_append, hframes, hframes', frameInputs_append]
    · unfold others calls at hcalls hcalls' ⊢
      rw [List.filter_append, hcalls, hcalls', ← List.filterMap_append]
      rfl

/-! ## How long a frame waits -/

/-- Whether the event loop reads from the socket. -/
def reads : HostEvent → Bool
  | .ready revents _ _ => revents &&& EPOLLIN ≠ 0#32
  | _ => false

/-- How often it does. -/
def served (es : List HostEvent) : ℕ := es.countP reads

/-- No read fails but for want of a frame. -/
def Smooth : HostEvent → Prop
  | .ready _ _ faults => ∀ i, faults i = none
  | _ => True

/-- What an event leaves in the queue. -/
theorem step_queue {h h' : Host} {e : HostEvent} {out : List Output}
    (hcomplete : ∀ dg ∈ h.queue, dg.complete = true) (hsmooth : Smooth e)
    (hs : h.step e = some (h', out)) :
    h'.queue = (h.queue ++ h.queued e).drop (6 * served [e]) := by
  cases e with
  | arrive dg =>
    cases hs
    exact h.queue_arrive dg
  | call input =>
    obtain ⟨r, -, heq⟩ := Option.map_eq_some_iff.mp hs
    cases heq
    exact (List.append_nil _).symm
  | ready revents tstamp faults =>
    have hnone : h.queued (.ready revents tstamp faults) = [] := rfl
    rw [hnone, List.append_nil]
    unfold step onEvent at hs
    dsimp only at hs
    split_ifs at hs with hin
    · have hserved : served [.ready revents tstamp faults] = 1 := by
        simp [served, reads, hin]
      rw [hserved]
      unfold canSignalRead at hs
      cases hloop : readLoop faults 6 0 h tstamp with
      | none =>
        rw [hloop] at hs
        cases hs
      | some r =>
        obtain ⟨h₁, out₁⟩ := r
        rw [hloop] at hs
        cases hs
        exact readLoop_drains hsmooth rfl (by decide) hcomplete hloop
    · have hserved : served [.ready revents tstamp faults] = 0 := by
        simp [served, reads, hin]
      cases hs
      rw [hserved]
      rfl

/-- **The queue is served in bounded time**: after the event loop has read `k`
times, the first `6 * k` frames that were waiting are gone from it, whatever
came in between. -/
theorem run_drains {h h' : Host} {es : List HostEvent} {outs : List Output}
    (hcomplete : ∀ dg ∈ h.queue ++ h.accepted es, dg.complete = true)
    (hsmooth : ∀ e ∈ es, Smooth e) (hr : run h es = some (h', outs)) :
    ∃ m, min (6 * served es) h.queue.length ≤ m
      ∧ h'.queue = (h.queue ++ h.accepted es).drop m := by
  induction es generalizing h outs with
  | nil =>
    cases hr
    exact ⟨0, Nat.min_le_left _ _, (List.append_nil _).symm⟩
  | cons e es ih =>
    obtain ⟨h₁, out, out', hs, hr', rfl⟩ := Machine.run_cons_eq_some.mp hr
    rw [accepted_cons hs, ← List.append_assoc] at hcomplete ⊢
    have hqueue := step_queue (fun dg hdg => hcomplete dg (List.mem_append_left _
      (List.mem_append_left _ hdg))) (hsmooth e List.mem_cons_self) hs
    have hserved : served (e :: es) = served [e] + served es := by
      unfold served
      rw [List.countP_cons, List.countP_singleton, Nat.add_comm]
    have hlen : h₁.queue.length = (h.queue ++ h.queued e).length - 6 * served [e] := by
      rw [hqueue, List.length_drop]
    have happend : h₁.queue ++ h₁.accepted es
        = (h.queue ++ h.queued e ++ h₁.accepted es).drop
          (min (6 * served [e]) (h.queue ++ h.queued e).length) := by
      rw [List.drop_append_of_le_length (Nat.min_le_right _ _), hqueue]
      congr 1
      rcases Nat.le_total (6 * served [e]) (h.queue ++ h.queued e).length with hle | hle
      · rw [Nat.min_eq_left hle]
      · rw [Nat.min_eq_right hle, List.drop_length, List.drop_eq_nil_of_le hle]
    obtain ⟨m, hm, hrest⟩ := ih (fun dg hdg => hcomplete dg (by
      rw [happend] at hdg
      exact List.mem_of_mem_drop hdg)) (fun e' he' => hsmooth e' (List.mem_cons_of_mem e he')) hr'
    refine ⟨min (6 * served [e]) (h.queue ++ h.queued e).length + m, ?_, ?_⟩
    · rw [hlen, List.length_append] at hm
      rw [hserved, List.length_append]
      omega
    · rw [hrest, happend, List.drop_drop]

/-! ## What comes in for an event -/

/-- What `parse_frame` keeps, the loop keeps. -/
theorem readLoop_invariant {P : Binder → Prop} (hP : ∀ b f ts, P b → P (b.parseFrame f ts).1)
    {faults : ℕ → Option Errno} {fuel readMax : ℕ} {h h' : Host} {tstamp : Timeval}
    {out : List Output} (h0 : P h.toBinder)
    (hr : readLoop faults fuel readMax h tstamp = some (h', out)) : P h'.toBinder := by
  induction fuel generalizing readMax h tstamp out with
  | zero => cases hr
  | succ fuel ih =>
    rcases read_or_not faults readMax h with ⟨hfault, dg, queue, hq, hdg⟩ | hread
    · rw [readLoop_of_complete hfault hq hdg] at hr
      dsimp only at hr
      split_ifs at hr
      · cases hr
        exact hP _ _ _ h0
      · obtain ⟨⟨h₁, out₁⟩, hr', heq⟩ := Option.map_eq_some_iff.mp hr
        cases heq
        exact ih (hP _ _ _ h0) hr'
    · obtain ⟨read, queue, -, -, heq⟩ := readLoop_of_not_read hread fuel tstamp
      cases heq.symm.trans hr
      exact h0

end Host

namespace Binder

/-- **The filter lets through the CAN-ID of every event**, and compares nothing
but the identifiers of standard frames. -/
structure Guards (b : Binder) : Prop where
  covers : b.Covers
  masks : ∀ f ∈ b.filter, f.canMask = CAN_SFF_MASK

theorem subscribeOne_filter (client : Client) (answers : DaemonAnswers)
    (s : Binder × List (String × Json)) (name : String) :
    (subscribeOne client answers s name).1.1.filter = s.1.filter :=
  subscribeOne_keeps filter (fun _ _ => rfl) (fun _ _ _ => rfl) client answers s name

/-- A subscription installs masks for standard frames. -/
theorem subscribe_masks {b b' : Binder} {client : Client} {event : Option String}
    {answers : DaemonAnswers} {out : List Output} (h : ∀ f ∈ b.filter, f.canMask = CAN_SFF_MASK)
    (hs : b.subscribe client event answers = some (b', out)) :
    ∀ f ∈ b'.filter, f.canMask = CAN_SFF_MASK := by
  rcases subscribe_cases hs with ⟨-, rfl, -⟩ | ⟨name, b₁, apply, err, -, hsub, rfl, -⟩
  · exact h
  · have hb₁ : b₁.filter = b.filter := subscribeSignal_invariant
      (P := fun t : Binder × List (String × Json) => t.1.filter = b.filter)
      (fun t n _ ht => (subscribeOne_filter client answers t n).trans ht) hsub rfl
    unfold socketcanUpdateFilter
    split_ifs
    · rwa [hb₁]
    · intro f hf
      obtain ⟨c, -, rfl⟩ := List.mem_map.mp hf
      rfl

theorem Guards.shrinks {b b' : Binder} (h : b.Guards) (hlayout : b.toDict.SameLayout b'.toDict)
    (hs : b.Shrinks b') : b'.Guards :=
  ⟨h.covers.shrinks hlayout hs, hs.filter ▸ h.masks⟩

theorem Guards.step {b b' : Binder} {input : Input} {out : List Output} (h : b.Guards)
    (hfew : b.FewCanids input) (hs : b.step input = some (b', out)) : b'.Guards := by
  have hcovers := h.covers.step hfew hs
  refine ⟨hcovers, ?_⟩
  cases input with
  | frame f timestamp =>
    have heq : b' = (b.parseFrame f timestamp).1 := (Machine.eq_of_some hs).1
    rw [heq, (shrinks_parseFrame b f timestamp).filter]
    exact h.masks
  | timer c sent =>
    cases hs
    exact h.masks
  | get client event =>
    cases hs
    exact h.masks
  | set client event value sent =>
    have hset := shrinks_set b client event value sent
    rw [step_set hs] at hset
    rw [hset.filter]
    exact h.masks
  | list client =>
    cases hs
    exact h.masks
  | subscribe client event answers => exact subscribe_masks h.masks hs
  | unsubscribe client args answers =>
    rw [(shrinks_unsubscribe hs).filter]
    exact h.masks

theorem guards_start (d : Dict) : (start d).Guards where
  covers e he := absurd he List.not_mem_nil
  masks f hf := by
    rw [List.mem_singleton.mp hf]

end Binder

namespace Host

/-- The events have no more CAN-IDs than the array for the filter has room
for. -/
def FewCanids (h : Host) : HostEvent → Prop
  | .call input => h.toBinder.FewCanids input.1
  | _ => True

/-- **One event keeps the events guarded.** -/
theorem guards_step {h h' : Host} {e : HostEvent} {out : List Output} (hg : h.Guards)
    (hfew : h.FewCanids e) (hs : h.step e = some (h', out)) : h'.Guards := by
  cases e with
  | arrive dg =>
    cases hs
    split_ifs
    · exact hg
    · exact hg
  | call input =>
    obtain ⟨⟨b, out'⟩, hb, heq⟩ := Option.map_eq_some_iff.mp hs
    cases heq
    exact hg.step hfew hb
  | ready revents tstamp faults =>
    unfold step onEvent canSignalRead at hs
    dsimp only at hs
    split_ifs at hs
    · cases hloop : readLoop faults 6 0 h tstamp with
      | none =>
        rw [hloop] at hs
        cases hs
      | some r =>
        rw [hloop] at hs
        cases hs
        exact readLoop_invariant (P := Binder.Guards) (fun b f ts hb =>
          hb.shrinks (Binder.runRelation_sameLayout.parseFrame b f ts)
            (Binder.shrinks_parseFrame b f ts)) hg hloop
    · cases hs
      exact hg

/-- The host when the binding was loaded and the socket is open. -/
def start (d : Dict) : Host := { toBinder := Binder.start d, queue := [] }

/-- A frame for the CAN-ID of an event passes the filter. -/
theorem admits_of_guards {h : Host} (hg : h.Guards) {e : BindEvent} (he : e ∈ h.bindEventRoot)
    {dg : Datagram} (hdg : dg.frame.canId &&& CAN_SFF_MASK = h.eventCanid e &&& CAN_SFF_MASK) :
    h.admits dg = true := by
  obtain ⟨f, hf, hacc⟩ := hg.covers e he
  refine List.any_eq_true.mpr ⟨f, hf, ?_⟩
  unfold CanFilter.accepts at hacc ⊢
  rw [hg.masks f hf] at hacc ⊢
  rw [hdg]
  exact hacc

/-- **What the host hears is what came in**: over any run in which the datagrams
that the filter let through have their times, some were read and the rest is in
the queue. The complete ones of those that were read are taken by the binding one
by one in the order in which they came, each once and with its own time. What is
answered and sent is what the binding answers and sends to these inputs. -/
theorem frames_in_order {d : Dict} {es : List HostEvent} {h : Host} {outs : List Output}
    (htime : ∀ dg ∈ (start d).accepted es, dg.time.isSome)
    (hrun : run (start d) es = some (h, outs)) :
    ∃ ins read, Binder.run (Binder.start d) ins = some (h.toBinder, outs)
      ∧ (start d).accepted es = read ++ h.queue
      ∧ ins.filter Input.isFrame = frameInputs read ∧ others ins = calls es :=
  run_frames (h := start d) htime hrun

/-- A frame of the speed, in time. -/
def speedDatagram : Datagram :=
  ⟨16, ⟨0x100#32, 8#8, fun _ => 1#8⟩, [⟨SO_TIMESTAMP, ⟨1, 0⟩⟩]⟩

/-- Somebody subscribes to the speed, and a frame comes in and is read. -/
def speedRun : List HostEvent :=
  [.call ⟨.subscribe 1 (some "speed") {}, rfl⟩, .arrive speedDatagram,
    .ready EPOLLIN ⟨0, 0⟩ (fun _ => none)]

theorem frames_in_order_sample :
    ∃ d h outs ins read, canDefineInit sampleConfig = some d
      ∧ run (start d) speedRun = some (h, outs)
      ∧ Binder.run (Binder.start d) ins = some (h.toBinder, outs)
      ∧ (start d).accepted speedRun = read ++ h.queue
      ∧ ins.filter Input.isFrame = frameInputs read := by
  have hload : (canDefineInit sampleConfig).map (fun d =>
      (run (start d) speedRun).isSome
        && ((start d).accepted speedRun).all (fun dg => dg.time.isSome)) = some true := by
    decide
  obtain ⟨d, hd, hboth⟩ := Option.map_eq_some_iff.mp hload
  obtain ⟨hsome, htime⟩ := Bool.and_eq_true_iff.mp hboth
  obtain ⟨⟨h, outs⟩, hr⟩ := Option.isSome_iff_exists.mp hsome
  obtain ⟨ins, read, hrun, hread, hframes, -⟩ :=
    frames_in_order (List.all_eq_true.mp htime) hr
  exact ⟨d, h, outs, ins, read, hd, hr, hrun, hread, hframes⟩

/-- **A frame that somebody listens for is heard in bounded time.** In any state
that is reached with at most 512 CAN-IDs among the events, a frame for the
CAN-ID of an event is let into the queue, and once the event loop has read
often enough for those before it, the binding has taken them and it. A short
datagram or a read that fails would end a reading early, so it is assumed that
there are none from then on. -/
theorem subscribed_frame_read {d : Dict} {es : List HostEvent} {h : Host} {outs : List Output}
    (hfew : Machine.Meets step FewCanids (start d) es)
    (hrun : run (start d) es = some (h, outs)) {e : BindEvent} (he : e ∈ h.bindEventRoot)
    {dg : Datagram} (hdg : dg.frame.canId &&& CAN_SFF_MASK = h.eventCanid e &&& CAN_SFF_MASK)
    {es' : List HostEvent} {h' : Host} {outs' : List Output}
    (hrun' : run h (.arrive dg :: es') = some (h', outs'))
    (hgood : ∀ x ∈ h.queue ++ h.accepted (.arrive dg :: es'),
      x.complete = true ∧ x.time.isSome)
    (hsmooth : ∀ x ∈ es', Smooth x) (hserved : h.queue.length < 6 * served es') :
    ∃ ins read, Binder.run h.toBinder ins = some (h'.toBinder, outs')
      ∧ ins.filter Input.isFrame = frameInputs read ∧ others ins = calls es'
      ∧ h.queue ++ [dg] <+: read := by
  have hg : h.Guards := Machine.run_invariant (fun x : Host => x.Guards)
    (fun _ _ _ _ hx hok hs => guards_step hx hok hs) (Binder.guards_start d) hfew hrun
  have hadm := admits_of_guards hg he hdg
  obtain ⟨ins, read, hins, hqueue, hframes, hcalls⟩ :=
    run_frames (fun x hx => (hgood x hx).2) hrun'
  refine ⟨ins, read, hins, hframes, hcalls, ?_⟩
  -- the frame is in the queue behind the others, and the queue is served
  obtain ⟨h₁, out, out', hs, hr', rfl⟩ := Machine.run_cons_eq_some.mp hrun'
  have hqueued : h.queued (.arrive dg) = [dg] := if_pos hadm
  rw [accepted_cons hs, ← List.append_assoc, hqueued] at hqueue hgood
  have hh₁ : h₁.queue = h.queue ++ [dg] := by
    cases hs
    rw [h.queue_arrive dg, hqueued]
  rw [← hh₁] at hqueue hgood ⊢
  obtain ⟨m, hm, hrest⟩ := run_drains (fun x hx => (hgood x hx).1) hsmooth hr'
  have hlen : h₁.queue.length ≤ read.length := by
    have htotal := congrArg List.length hqueue
    have hleft := congrArg List.length hrest
    have hone : h₁.queue.length = h.queue.length + 1 := by
      rw [hh₁, List.length_append, List.length_singleton]
    rw [List.length_append, List.length_append] at htotal
    rw [List.length_drop, List.length_append] at hleft
    omega
  exact List.prefix_of_prefix_length_le (hqueue ▸ List.prefix_append _ _)
    (List.prefix_append _ _) hlen

theorem subscribed_frame_read_sample :
    ∃ d h outs e, canDefineInit sampleConfig = some d
      ∧ run (start d) [.call ⟨.subscribe 1 (some "speed") {}, rfl⟩] = some (h, outs)
      ∧ e ∈ h.bindEventRoot
      ∧ ∃ h' outs' ins read,
        run h [.arrive speedDatagram, .ready EPOLLIN ⟨0, 0⟩ (fun _ => none)] = some (h', outs')
        ∧ Binder.run h.toBinder ins = some (h'.toBinder, outs')
        ∧ ins.filter Input.isFrame = frameInputs read
        ∧ h.queue ++ [speedDatagram] <+: read := by
  have hload : (canDefineInit sampleConfig).bind (fun d =>
      (run (start d) [.call ⟨.subscribe 1 (some "speed") {}, rfl⟩]).map (fun r =>
        (r.1.bindEventRoot.map r.1.eventCanid,
          (run r.1 [.arrive speedDatagram, .ready EPOLLIN ⟨0, 0⟩ (fun _ => none)]).isSome
            && (r.1.queue ++ r.1.accepted [.arrive speedDatagram,
              .ready EPOLLIN ⟨0, 0⟩ (fun _ => none)]).all (fun x => x.complete && x.time.isSome)
            && r.1.queue.length = 0)))
      = some ([0x100#32], true) := by
    decide
  obtain ⟨d, hd, hrun⟩ := Option.bind_eq_some_iff.mp hload
  obtain ⟨⟨h, outs⟩, hr, hval⟩ := Option.map_eq_some_iff.mp hrun
  obtain ⟨hcanids, hrest⟩ := Prod.mk.inj hval
  obtain ⟨hrest, hempty⟩ := Bool.and_eq_true_iff.mp hrest
  obtain ⟨hsome, hgood⟩ := Bool.and_eq_true_iff.mp hrest
  obtain ⟨⟨h', outs'⟩, hr'⟩ := Option.isSome_iff_exists.mp hsome
  have hfew : Machine.Meets step FewCanids (start d)
      [.call ⟨.subscribe 1 (some "speed") {}, rfl⟩] := by
    refine ⟨fun b' out hs => ?_, fun _ _ _ => trivial⟩
    obtain ⟨h₁, out₁, out₂, hs₁, hnil, -⟩ := Machine.run_cons_eq_some.mp hr
    obtain ⟨r, hb, heq⟩ := Option.map_eq_some_iff.mp hs₁
    cases hs.symm.trans hb
    cases heq
    cases hnil
    have hcanids' : b'.bindEventRoot.map b'.eventCanid = [0x100#32] := hcanids
    unfold Binder.registeredCanids
    rw [hcanids']
    decide
  have hmem : 0x100#32 ∈ h.bindEventRoot.map h.eventCanid := by
    rw [hcanids]
    exact List.mem_cons_self
  obtain ⟨e, he, hcanid⟩ := List.mem_map.mp hmem
  have hserved : h.queue.length
      < 6 * served [.ready EPOLLIN ⟨0, 0⟩ (fun _ => none)] := by
    rw [of_decide_eq_true hempty]
    decide
  obtain ⟨ins, read, hins, hframes, -, hprefix⟩ := subscribed_frame_read hfew hr he
    (by rw [hcanid]; rfl) hr'
    (fun x hx => Bool.and_eq_true_iff.mp (List.all_eq_true.mp hgood x hx))
    (List.forall_mem_singleton.mpr (fun _ => rfl)) hserved
  exact ⟨d, h, outs, e, hd, hr, he, h', outs', ins, read, hr', hins, hframes, hprefix⟩

end Host
