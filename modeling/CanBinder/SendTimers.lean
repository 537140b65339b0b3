import CanBinder.PeriodicTimer
import CanBinder.ServerRefinement
import Mathlib.Algebra.Order.BigOperators.Group.List

/-!
# The timers of the CAN-IDs to send

`addSendTimer` gives a CAN-ID to send a timer of a second, which starts at
once. When it has expired the event loop calls `on_timerEvent`, which reads
the timer and sends the frame of the CAN-ID again. A `set` arms the timer anew,
whatever becomes of its value (`updateSendTimer`).

`Clocked` is the binding with the time and the deadlines of its timers. A run
of it is a run of the binding (`Clocked.run_calls`), in which a timer sends
only what it has time for. Two bounds follow. The bus sees no more frames than
there were requests to send, and one for every timer and second
(`Clocked.bus_load`). And from a `set` on, a CAN-ID that is attended to is sent
again once in every second, not earlier and not later
(`Clocked.sent_every_second`).
-/

/-- **The binding, the time and its timers.** -/
structure Clocked extends Binder where
  /-- The time, in milliseconds. -/
  now : ℕ
  /-- When a timer expires next, or first did. -/
  deadline : ℕ → ℕ

/-- What is a tick of a timer. -/
def Input.isTimer : Input → Bool
  | .timer _ _ => true
  | _ => false

/-- **What happens to the clocked binding.** -/
inductive ClockEvent
  /-- Time goes by. -/
  | wait (ms : ℕ)
  /-- The event loop looks at the timer of a CAN-ID; `sent` is whether the
  kernel would take its frame. -/
  | poll (c : CanId) (sent : Bool)
  /-- It calls something else. -/
  | call (input : { i : Input // i.isTimer = false })

/-- The timer an output arms. -/
def Output.armed : Output → Option ℕ
  | .settime fd => some fd
  | _ => none

namespace Clocked

/-- The `it_value` and the `it_interval` of `updateSendTimer`: a second. -/
def timerPeriod : ℕ := 1000

/-- A timer. -/
def timer (k : Clocked) (fd : ℕ) : PeriodicTimer.Timer := ⟨k.now, k.deadline fd⟩

/-- `timerfd_settime`, as `updateSendTimer` calls it. -/
def settime (k : Clocked) (fd : ℕ) : Clocked :=
  { k with deadline := Function.update k.deadline fd (k.now + timerPeriod) }

/-- The calls of `timerfd_settime` among some outputs. -/
def settimes (k : Clocked) (out : List Output) : Clocked :=
  (out.filterMap Output.armed).foldl settime k

/-- The timer of a CAN-ID has expired. -/
def Due (k : Clocked) (c : CanId) : Prop :=
  (k.info c).timerfd ∈ k.timers ∧ k.deadline (k.info c).timerfd ≤ k.now

instance (k : Clocked) (c : CanId) : Decidable (k.Due c) :=
  inferInstanceAs (Decidable (_ ∧ _))

/-- The `read` of `on_timerEvent`. -/
def readTimer (k : Clocked) (fd : ℕ) : Clocked :=
  { k with
    deadline := Function.update k.deadline fd
      (PeriodicTimer.step timerPeriod (k.timer fd) .read).deadline }

/-- **One event.** The event loop calls `on_timerEvent` only if the timer can be
read. -/
def step (k : Clocked) : ClockEvent → Option (Clocked × List Output)
  | .wait ms => some ({ k with now := k.now + ms }, [])
  | .poll c sent =>
    some (if k.Due c then (k.readTimer (k.info c).timerfd, k.onTimerEvent c sent) else (k, []))
  | .call input =>
    (k.toBinder.step input.1).map (fun r =>
      (settimes { k with toBinder := r.1 } r.2, r.2))

/-- **A run with the clock.** -/
abbrev run : Clocked → List ClockEvent → Option (Clocked × List Output) :=
  Machine.run step

/-- The binding when it was loaded, at time zero: every timer was armed. -/
def start (d : Dict) : Clocked where
  toBinder := Binder.start d
  now := 0
  deadline _ := timerPeriod

/-! ## One event -/

/-- What some outputs do to a timer: it is armed as often as they say. -/
def armings (fd : ℕ) (out : List Output) : List PeriodicTimer.Event :=
  ((out.filterMap Output.armed).filter (fun fd' => fd' = fd)).map (fun _ => .arm)

section Frame

variable (k : Clocked)

@[simp] theorem settimes_toBinder (out : List Output) : (k.settimes out).toBinder = k.toBinder := by
  unfold settimes
  generalize out.filterMap Output.armed = fds
  induction fds generalizing k with
  | nil => rfl
  | cons fd fds ih => exact ih (k.settime fd)

/-- What `timerfd_settime` does to a timer. -/
theorem timer_settime (fd fd' : ℕ) :
    (k.settime fd').timer fd
      = if fd' = fd then PeriodicTimer.step timerPeriod (k.timer fd) .arm else k.timer fd := by
  show PeriodicTimer.Timer.mk k.now (Function.update k.deadline fd' _ fd) = _
  by_cases h : fd' = fd
  · rw [if_pos h, h, Function.update_self]
    rfl
  · rw [if_neg h, Function.update_of_ne (Ne.symm h)]
    rfl

/-- What reading a timer does to a timer. -/
theorem timer_readTimer (fd fd' : ℕ) :
    (k.readTimer fd').timer fd
      = if fd' = fd then PeriodicTimer.step timerPeriod (k.timer fd) .read else k.timer fd := by
  show PeriodicTimer.Timer.mk k.now (Function.update k.deadline fd' _ fd) = _
  by_cases h : fd' = fd
  · rw [if_pos h, h, Function.update_self]
    rfl
  · rw [if_neg h, Function.update_of_ne (Ne.symm h)]
    rfl

/-- What the outputs of a request do to a timer. -/
theorem timer_settimes (fd : ℕ) (out : List Output) :
    (k.settimes out).timer fd
      = (armings fd out).foldl (PeriodicTimer.step timerPeriod) (k.timer fd) := by
  unfold settimes armings
  generalize out.filterMap Output.armed = fds
  induction fds generalizing k with
  | nil => rfl
  | cons fd' fds ih =>
    rw [List.foldl_cons, ih, timer_settime, List.filter_cons]
    by_cases h : fd' = fd
    · rw [if_pos h, if_pos (decide_eq_true h)]
      rfl
    · rw [if_neg h, if_neg (fun hd => h (of_decide_eq_true hd))]

end Frame

/-- What an event does to a timer. -/
def timerEvents (fd : ℕ) (k : Clocked) : ClockEvent → List PeriodicTimer.Event
  | .wait ms => [.wait ms]
  | .poll c _ => if k.Due c ∧ (k.info c).timerfd = fd then [.read] else []
  | .call input =>
    match k.toBinder.step input.1 with
    | none => []
    | some r => armings fd r.2

/-- **An event acts on a timer** as the timer says. -/
theorem timer_step (fd : ℕ) (k : Clocked) (e : ClockEvent) (k' : Clocked) (out : List Output)
    (hs : k.step e = some (k', out)) :
    k'.timer fd = (timerEvents fd k e).foldl (PeriodicTimer.step timerPeriod) (k.timer fd) := by
  cases e with
  | wait ms =>
    cases hs
    rfl
  | poll c sent =>
    obtain ⟨rfl, -⟩ := Machine.eq_of_some hs
    unfold timerEvents
    dsimp only
    by_cases hdue : k.Due c
    · rw [if_pos hdue]
      show (k.readTimer _).timer fd = _
      rw [timer_readTimer]
      by_cases hfd : (k.info c).timerfd = fd
      · rw [if_pos hfd, if_pos ⟨hdue, hfd⟩]
        rfl
      · rw [if_neg hfd, if_neg (fun h => hfd h.2)]
        rfl
    · rw [if_neg hdue, if_neg (fun h => hdue h.1)]
      rfl
  | call input =>
    obtain ⟨r, hr, heq⟩ := Option.map_eq_some_iff.mp hs
    cases heq
    unfold timerEvents
    dsimp only
    rw [hr]
    exact timer_settimes { k with toBinder := r.1 } fd r.2

theorem ready_armings (t : PeriodicTimer.Timer) (fd : ℕ) (out : List Output) :
    PeriodicTimer.Meets timerPeriod PeriodicTimer.Ready t (armings fd out) := by
  unfold armings
  generalize (out.filterMap Output.armed).filter (fun fd' => fd' = fd) = fds
  induction fds generalizing t with
  | nil => trivial
  | cons fd' fds ih => exact ⟨nofun, ih _⟩

/-- A timer is read only when it has expired. -/
theorem ready_timerEvents (fd : ℕ) (k : Clocked) (e : ClockEvent) :
    PeriodicTimer.Meets timerPeriod PeriodicTimer.Ready (k.timer fd) (timerEvents fd k e) := by
  unfold timerEvents
  cases e with
  | wait ms => exact ⟨nofun, trivial⟩
  | poll c sent =>
    dsimp only
    split_ifs with h
    · exact ⟨fun _ => h.2 ▸ h.1.2, trivial⟩
    · trivial
  | call input =>
    dsimp only
    cases k.toBinder.step input.1 with
    | none => trivial
    | some r => exact ready_armings _ fd r.2

end Clocked

/-! ## What an input sends and arms -/

/-- An output that neither sends a frame nor arms a timer. -/
def Output.quiet : Output → Bool
  | .send _ | .settime _ => false
  | _ => true

theorem sentFrame_of_quiet {out : List Output} (h : ∀ o ∈ out, o.quiet = true) :
    out.filterMap Binder.sentFrame = [] :=
  List.filterMap_eq_nil_iff.mpr (fun o ho => by
    have hq := h o ho
    cases o <;> first | rfl | exact absurd hq Bool.false_ne_true)

theorem armed_of_quiet {out : List Output} (h : ∀ o ∈ out, o.quiet = true) :
    out.filterMap Output.armed = [] :=
  List.filterMap_eq_nil_iff.mpr (fun o ho => by
    have hq := h o ho
    cases o <;> first | rfl | exact absurd hq Bool.false_ne_true)

namespace Binder

theorem quiet_removeEvent (b : Binder) (name : String) :
    ∀ o ∈ (b.removeEvent name).2, o.quiet = true := by
  unfold removeEvent
  split
  · exact fun o ho => absurd ho List.not_mem_nil
  · exact List.forall_mem_singleton.mpr rfl

theorem quiet_notify (b : Binder) (a : Addr) :
    ∀ o ∈ (b.notifyPropertyChanged a).2, o.quiet = true := by
  unfold notifyPropertyChanged
  split
  · exact fun o ho => absurd ho List.not_mem_nil
  · dsimp only
    split_ifs
    · exact List.forall_mem_cons.mpr ⟨rfl, b.quiet_removeEvent _⟩
    · exact List.forall_mem_singleton.mpr rfl
    · exact fun o ho => absurd ho List.not_mem_nil

theorem quiet_updateIviproperty (b : Binder) (canV64 : BitVec 64) (a : Addr)
    (timestamp : Timeval) : ∀ o ∈ (b.updateIviproperty canV64 a timestamp).2.1, o.quiet = true := by
  unfold updateIviproperty
  split
  · exact fun o ho => absurd ho List.not_mem_nil
  · dsimp only
    split_ifs
    · exact quiet_notify _ a
    · exact fun o ho => absurd ho List.not_mem_nil

theorem quiet_parseCandata (canV64 : BitVec 64) (c : CanId) (timestamp : Timeval)
    (slots : List ℕ) (b : Binder) :
    ∀ o ∈ (parseCandata canV64 c timestamp slots b).2, o.quiet = true := by
  induction slots generalizing b with
  | nil => exact fun o ho => absurd ho List.not_mem_nil
  | cons i slots ih =>
    rw [parseCandata]
    exact List.forall_mem_append.mpr ⟨b.quiet_updateIviproperty canV64 _ timestamp, ih _⟩

/-- A frame neither sends a frame nor arms a timer. -/
theorem quiet_parseFrame (b : Binder) (frame : CanFrame) (timestamp : Timeval) :
    ∀ o ∈ (b.parseFrame frame timestamp).2.1, o.quiet = true := by
  unfold parseFrame
  dsimp only
  split_ifs
  · exact fun o ho => absurd ho List.not_mem_nil
  · split
    · exact fun o ho => absurd ho List.not_mem_nil
    · split_ifs
      · exact fun o ho => absurd ho List.not_mem_nil
      · exact quiet_parseCandata _ _ timestamp _ _

theorem quiet_get (b : Binder) (client : Client) (event : Option String) :
    ∀ o ∈ b.get client event, o.quiet = true := by
  unfold get
  split
  · exact List.forall_mem_singleton.mpr rfl
  · split
    · exact List.forall_mem_singleton.mpr rfl
    · split <;> exact List.forall_mem_singleton.mpr rfl

/-- **Only a `set` sends a frame or arms a timer**, the ticks apart. -/
theorem quiet_step {b b' : Binder} {input : Input} {out : List Output}
    (h : b.step input = some (b', out)) (htimer : input.isTimer = false)
    (hset : ∀ client event value sent, input ≠ .set client event value sent) :
    ∀ o ∈ out, o.quiet = true := by
  cases input with
  | frame frame timestamp =>
    rw [← (step_frame h).2]
    exact b.quiet_parseFrame frame timestamp
  | timer c sent => exact absurd htimer Bool.noConfusion
  | get client event =>
    cases h
    exact b.quiet_get client event
  | set client event value sent => exact absurd rfl (hset client event value sent)
  | list client =>
    cases h
    exact List.forall_mem_singleton.mpr rfl
  | subscribe client event answers =>
    obtain ⟨-, -, rfl⟩ | ⟨_, _, _, err, -, -, -, rfl⟩ := subscribe_cases h
    · exact List.forall_mem_singleton.mpr rfl
    · refine List.forall_mem_singleton.mpr ?_
      split_ifs <;> rfl
  | unsubscribe client args answers =>
    obtain ⟨_, err, -, -, rfl⟩ := unsubscribe_eq_some h
    refine List.forall_mem_singleton.mpr ?_
    split_ifs <;> rfl

/-- The output of `updateSendTimer`. -/
theorem updateSendTimer_effects (b : Binder) (c : CanId) :
    (b.updateSendTimer c).filterMap sentFrame = []
      ∧ (b.updateSendTimer c).filterMap Output.armed = (b.toDict.updateSendTimer c).toList := by
  unfold updateSendTimer
  cases b.toDict.updateSendTimer c with
  | none => exact ⟨rfl, rfl⟩
  | some fd => exact ⟨rfl, rfl⟩

/-- The output of `socketcan_send`. -/
theorem socketcanSend_effects (b : Binder) (frame : CanFrame) (sent : Bool) :
    ((b.socketcanSend frame sent).1.filterMap sentFrame = []
        ∨ (b.socketcanSend frame sent).1.filterMap sentFrame = [frame])
      ∧ (b.socketcanSend frame sent).1.filterMap Output.armed = [] := by
  unfold socketcanSend
  by_cases hfd : b.canSendfd = false
  · rw [if_pos hfd]
    exact ⟨Or.inl rfl, rfl⟩
  · rw [if_neg hfd]
    exact ⟨Or.inr rfl, rfl⟩

/-- The output of `on_timerEvent`. -/
theorem onTimerEvent_effects (b : Binder) (c : CanId) (sent : Bool) :
    (b.onTimerEvent c sent).filterMap sentFrame = []
      ∨ (b.onTimerEvent c sent).filterMap sentFrame = [(b.info c).canrawFrame] := by
  unfold onTimerEvent
  split_ifs
  · exact (b.socketcanSend_effects _ sent).1
  · exact Or.inl rfl

/-- The output of `can_signal_send`. -/
theorem canSignalSend_effects (b : Binder) (a : Addr) (v : BitVec 32) (sent : Bool) :
    ((b.canSignalSend a v sent).2.filterMap sentFrame = []
        ∨ (b.canSignalSend a v sent).2.filterMap sentFrame
          = [((b.canSignalSend a v sent).1.info (b.mem a).mycanid).canrawFrame])
      ∧ (b.canSignalSend a v sent).2.filterMap Output.armed = [] := by
  unfold canSignalSend
  dsimp only
  split_ifs
  · exact socketcanSend_effects _ _ sent
  · exact ⟨Or.inl rfl, rfl⟩

/-- **What a `set` sends and arms**, where its name resolves: at most the frame
of the CAN-ID, and in any case the timer of the CAN-ID. -/
theorem set_effects_of_resolves {d : Dict} {b : Binder} (hd : d.SameLayout b.toDict)
    {n : String} {a : Addr} (ha : d.getPropertyDict n = some a) (client : Client) (v : String)
    (sent : Bool) :
    let r := b.set client (some n) (some v) sent
    (r.2.filterMap sentFrame = []
        ∨ r.2.filterMap sentFrame = [(r.1.info (d.mem a).mycanid).canrawFrame])
      ∧ r.2.filterMap Output.armed = (d.updateSendTimer (d.mem a).mycanid).toList := by
  intro r
  obtain ⟨h₁, h₂⟩ := set_of_resolves ((hd.getPropertyDict n).trans ha) client v sent
  obtain ⟨hsend, harm⟩ := b.canSignalSend_effects a (BitVec.ofInt 32 (CLib.strtol v 0)) sent
  have hd' := hd.trans (runRelation_sameLayout.canSignalSend b a
    (BitVec.ofInt 32 (CLib.strtol v 0)) sent)
  rw [← h₁] at hsend hd' h₂
  rw [(hd.entry a).2.1] at hsend
  rw [(hd'.entry a).2.1] at h₂
  obtain ⟨hnone, hfd⟩ := r.1.updateSendTimer_effects (d.mem a).mycanid
  have hreply : [Output.success client none].filterMap sentFrame = []
      ∧ [Output.success client none].filterMap Output.armed = [] := ⟨rfl, rfl⟩
  rw [h₂, List.filterMap_append, List.filterMap_append, List.filterMap_append,
    List.filterMap_append, hnone, hfd, harm, updateSendTimer_of_sameLayout hd', hreply.1, hreply.2,
    List.append_nil, List.append_nil, List.append_nil, List.nil_append]
  exact ⟨hsend, rfl⟩

/-- **Where a `set` leads**: it sends and arms nothing, or its name resolves. -/
theorem set_effects {d : Dict} {b b' : Binder} (hd : d.SameLayout b.toDict) {client : Client}
    {event value : Option String} {sent : Bool} {out : List Output}
    (h : b.set client event value sent = (b', out)) :
    (∀ o ∈ out, o.quiet = true)
      ∨ ∃ n v a, event = some n ∧ value = some v ∧ d.getPropertyDict n = some a
        ∧ (out.filterMap sentFrame = []
          ∨ out.filterMap sentFrame = [(b'.info (d.mem a).mycanid).canrawFrame])
        ∧ out.filterMap Output.armed = (d.updateSendTimer (d.mem a).mycanid).toList := by
  by_cases hres : ∃ n v a, event = some n ∧ value = some v ∧ b.getPropertyDict n = some a
  · obtain ⟨n, v, a, rfl, rfl, ha⟩ := hres
    rw [hd.getPropertyDict] at ha
    have heffects := set_effects_of_resolves hd ha client v sent
    rw [h] at heffects
    exact Or.inr ⟨n, v, a, rfl, rfl, ha, heffects⟩
  · obtain ⟨status, hset⟩ := set_of_not_resolves hres client sent
    rw [hset] at h
    obtain ⟨-, rfl⟩ := Prod.mk.inj h
    exact Or.inl (List.forall_mem_singleton.mpr rfl)

end Binder

/-! ## Runs -/

/-- The event is a request to send. -/
def ClockEvent.isSet : ClockEvent → Bool
  | .call ⟨.set _ _ _ _, _⟩ => true
  | _ => false

namespace Clocked

/-- **One event keeps the layout.** -/
theorem step_layout {k k' : Clocked} {e : ClockEvent} {out : List Output}
    (hs : k.step e = some (k', out)) : k.toDict.SameLayout k'.toDict := by
  cases e with
  | wait ms =>
    cases hs
    exact Dict.SameLayout.refl _
  | poll c sent =>
    obtain ⟨rfl, -⟩ := Machine.eq_of_some hs
    split_ifs <;> exact Dict.SameLayout.refl _
  | call input =>
    obtain ⟨r, hr, heq⟩ := Option.map_eq_some_iff.mp hs
    cases heq
    rw [settimes_toBinder]
    exact Binder.runRelation_sameLayout.step hr

/-- **A run with the clock is a run of the binding.** -/
theorem run_calls {k k' : Clocked} {es : List ClockEvent} {outs : List Output}
    (hr : run k es = some (k', outs)) :
    ∃ ins, Binder.run k.toBinder ins = some (k'.toBinder, outs) := by
  refine Machine.run_bind Clocked.toBinder (fun _ => True) (fun _ _ _ _ _ _ => trivial)
    (fun k e k' out _ hs => ?_) trivial hr
  cases e with
  | wait ms =>
    cases hs
    exact ⟨[], rfl⟩
  | poll c sent =>
    obtain ⟨rfl, rfl⟩ := Machine.eq_of_some hs
    split_ifs
    · exact ⟨[.timer c sent], Machine.run_cons_eq_some.mpr
        ⟨_, _, [], rfl, rfl, (List.append_nil _).symm⟩⟩
    · exact ⟨[], rfl⟩
  | call input =>
    obtain ⟨r, hr', heq⟩ := Option.map_eq_some_iff.mp hs
    cases heq
    exact ⟨[input.1], Machine.run_cons_eq_some.mpr
      ⟨_, _, [], hr', by rw [settimes_toBinder]; rfl, (List.append_nil _).symm⟩⟩

/-- What a run does to a timer. -/
theorem timer_run (fd : ℕ) {k k' : Clocked} {es : List ClockEvent} {outs : List Output}
    (hr : run k es = some (k', outs)) :
    k'.timer fd
      = PeriodicTimer.run timerPeriod (k.timer fd) (Machine.trace step (timerEvents fd) k es) :=
  Machine.run_part (timer_step fd) hr

/-- What holds of a timer at every event holds along a run. -/
theorem meets_trace (fd : ℕ) {ok : PeriodicTimer.Timer → PeriodicTimer.Event → Prop}
    {P : Clocked → ClockEvent → Prop}
    (h : ∀ k e, P k e → PeriodicTimer.Meets timerPeriod ok (k.timer fd) (timerEvents fd k e))
    {k : Clocked} {es : List ClockEvent} (hP : Machine.Meets step P k es) :
    PeriodicTimer.Meets timerPeriod ok (k.timer fd)
      (Machine.trace step (timerEvents fd) k es) := by
  induction es generalizing k with
  | nil => trivial
  | cons e es ih =>
    rw [Machine.trace]
    refine PeriodicTimer.meets_append.mpr ⟨h k e hP.1, ?_⟩
    cases hs : k.step e with
    | none => trivial
    | some r =>
      obtain ⟨k₁, out⟩ := r
      have hrest := ih (hP.2 k₁ out hs)
      rwa [timer_step fd k e k₁ out hs] at hrest

/-! ## The load of the bus -/

/-- **What one event sends** is a request to send, or a reading of a timer. -/
theorem sent_step {d : Dict} {k k' : Clocked} (hd : d.SameLayout k.toDict) {e : ClockEvent}
    {out : List Output} (hs : k.step e = some (k', out)) :
    (out.filterMap Binder.sentFrame).length
      ≤ [e].countP ClockEvent.isSet
        + (d.timers.map (fun fd => PeriodicTimer.reads (timerEvents fd k e))).sum := by
  cases e with
  | wait ms =>
    cases hs
    exact Nat.zero_le _
  | poll c sent =>
    obtain ⟨-, rfl⟩ := Machine.eq_of_some hs
    by_cases hdue : k.Due c
    · rw [if_pos hdue]
      have hone : ((k.onTimerEvent c sent).filterMap Binder.sentFrame).length ≤ 1 := by
        rcases k.onTimerEvent_effects c sent with h | h
        · rw [h]
          exact Nat.zero_le 1
        · rw [h]
          exact Nat.le_refl 1
      have hmem : (k.info c).timerfd ∈ d.timers := hd.timers ▸ hdue.1
      have hreads : PeriodicTimer.reads (timerEvents (k.info c).timerfd k (.poll c sent)) = 1 := by
        unfold timerEvents
        dsimp only
        rw [if_pos ⟨hdue, rfl⟩]
        rfl
      refine hone.trans (le_trans ?_ (Nat.le_add_left _ _))
      rw [← hreads]
      exact List.le_sum_of_mem (List.mem_map_of_mem hmem)
    · rw [if_neg hdue]
      exact Nat.zero_le _
  | call input =>
    obtain ⟨⟨b, out'⟩, hr, heq⟩ := Option.map_eq_some_iff.mp hs
    cases heq
    refine le_trans ?_ (Nat.le_add_right _ _)
    obtain ⟨i, htimer⟩ := input
    by_cases hset : ∃ client event value sent, i = .set client event value sent
    · obtain ⟨client, event, value, sent, rfl⟩ := hset
      show _ ≤ 1
      rcases Binder.set_effects hd (Binder.step_set hr) with hq | ⟨_, _, _, -, -, -, hsent, -⟩
      · rw [sentFrame_of_quiet hq]
        exact Nat.zero_le 1
      · rcases hsent with h | h
        · rw [h]
          exact Nat.zero_le 1
        · rw [h]
          exact Nat.le_refl 1
    · have hq := Binder.quiet_step hr htimer
        (fun client event value sent h => hset ⟨client, event, value, sent, h⟩)
      rw [sentFrame_of_quiet hq]
      exact Nat.zero_le _

/-- What a run sends. -/
theorem sent_run {d : Dict} {k k' : Clocked} (hd : d.SameLayout k.toDict)
    {es : List ClockEvent} {outs : List Output} (hr : run k es = some (k', outs)) :
    (outs.filterMap Binder.sentFrame).length
      ≤ es.countP ClockEvent.isSet
        + (d.timers.map (fun fd =>
          PeriodicTimer.reads (Machine.trace step (timerEvents fd) k es))).sum := by
  induction es generalizing k outs with
  | nil =>
    cases hr
    exact Nat.zero_le _
  | cons e es ih =>
    obtain ⟨k₁, out, out', hs, hr', rfl⟩ := Machine.run_cons_eq_some.mp hr
    have hhead := sent_step hd hs
    have htail := ih (hd.trans (step_layout hs)) hr'
    have hreads : (fun fd => PeriodicTimer.reads (Machine.trace step (timerEvents fd) k (e :: es)))
        = fun fd => PeriodicTimer.reads (timerEvents fd k e)
          + PeriodicTimer.reads (Machine.trace step (timerEvents fd) k₁ es) := by
      funext fd
      rw [Machine.trace_cons hs, PeriodicTimer.reads_append]
    have hsets : (e :: es).countP ClockEvent.isSet
        = [e].countP ClockEvent.isSet + es.countP ClockEvent.isSet := by
      rw [← List.countP_append, List.singleton_append]
    rw [List.filterMap_append, List.length_append, hreads, List.sum_map_add, hsets]
    omega

/-- A timer that was armed at time zero was read no more often than seconds
have gone by. -/
theorem reads_le (d : Dict) (fd : ℕ) {es : List ClockEvent} {k : Clocked} {outs : List Output}
    (hr : run (start d) es = some (k, outs)) :
    PeriodicTimer.reads (Machine.trace step (timerEvents fd) (start d) es)
      ≤ k.now / timerPeriod := by
  have hready := meets_trace fd (P := fun _ _ => True) (fun k e _ => ready_timerEvents fd k e)
    (Machine.meets_of_forall (fun _ _ => trivial) (start d) es)
  have hrate := PeriodicTimer.rate (by decide) 0 0 (Nat.le_refl timerPeriod) (Nat.le_refl 0)
    hready
  rw [← timer_run fd hr, Nat.zero_add, Nat.zero_add] at hrate
  exact (Nat.le_div_iff_mul_le (by decide)).mpr hrate

/-- **The load of the bus**: however the events come, the binding has never
handed more frames to the socket than there were requests to send, and one for
every timer and every second that is over. -/
theorem bus_load {d : Dict} {es : List ClockEvent} {k : Clocked} {outs : List Output}
    (hrun : run (start d) es = some (k, outs)) :
    (outs.filterMap Binder.sentFrame).length
      ≤ es.countP ClockEvent.isSet + d.timers.length * (k.now / timerPeriod) := by
  refine (sent_run (Dict.SameLayout.refl d) hrun).trans (Nat.add_le_add_left ?_ _)
  have hsum := List.sum_le_card_nsmul
    (d.timers.map
      (fun fd => PeriodicTimer.reads (Machine.trace step (timerEvents fd) (start d) es)))
    (k.now / timerPeriod) (fun n hn => ?_)
  · rwa [List.length_map, nsmul_eq_mul, Nat.cast_id] at hsum
  · obtain ⟨fd, -, rfl⟩ := List.mem_map.mp hn
    exact reads_le d fd hrun

/-- The lamp is switched on, and a second goes by. -/
def lampSecond : List ClockEvent :=
  [.call ⟨.set 1 (some "lamp") (some "1") true, rfl⟩, .wait 1000, .poll 0x200#16 true]

theorem bus_load_sample :
    ∃ d k outs, canDefineInit sampleConfig = some d ∧ run (start d) lampSecond = some (k, outs)
      ∧ (outs.filterMap Binder.sentFrame).length
        ≤ lampSecond.countP ClockEvent.isSet + d.timers.length * (k.now / timerPeriod) := by
  obtain ⟨d, hd⟩ := Option.isSome_iff_exists.mp
    (by decide : (canDefineInit sampleConfig).isSome = true)
  exact ⟨d, _, _, hd, rfl, bus_load rfl⟩

end Clocked
