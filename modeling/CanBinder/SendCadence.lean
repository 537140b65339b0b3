import CanBinder.SendTimers
import CanBinder.ServerDefinition
import CanBinder.Transmission

/-!
# Once in every second

No two CAN-IDs have one timer (`Dict.TimersApart`), and the frame that a CAN-ID
sends is one under its identifier. So the frames for a CAN-ID on the bus, those
of its `set` apart, are the readings of its timer. From a `set` on they come at
whole seconds: not before a second is over, whatever the event loop does, and in
every second, if it attends to the timer (`Clocked.sent_every_second`).
-/

namespace Dict

/-- **Every timer is that of one registered CAN-ID.** -/
structure TimersApart (d : Dict) : Prop where
  registered : ∀ c, (d.info c).timerfd ∈ d.timers → c ∈ d.canidRoot
  apart : ∀ c c', (d.info c).timerfd ∈ d.timers → (d.info c').timerfd = (d.info c).timerfd →
    c' = c

/-- A CAN-ID whose descriptor is a timer is one that has a timer. -/
theorem Drawn.timed_of_timer {s : Defined} {d : Dict} (h : Drawn s d) {c : CanId}
    (hc : (d.info c).timerfd ∈ d.timers) : c ∈ s.timed := by
  by_contra hnot
  rw [h.timerfd, if_neg hnot, h.timers] at hc
  obtain ⟨j, -, hj⟩ := List.mem_map.mp hc
  exact absurd hj (Nat.succ_ne_zero j)

/-- **The timers of a loaded configuration.** -/
theorem Drawn.timersApart {s : Defined} {d : Dict} (h : Drawn s d) : TimersApart d where
  registered c hc := h.timed c (h.timed_of_timer hc)
  apart c c' hc heq := by
    have hmem := h.timed_of_timer hc
    have hmem' := h.timed_of_timer (heq ▸ hc)
    rw [h.timerfd, h.timerfd, if_pos hmem, if_pos hmem'] at heq
    exact (List.idxOf_inj hmem').mp (Nat.succ.inj heq)

end Dict

namespace Clocked

/-- How many frames for a CAN-ID there are among some outputs. -/
def framesFor (c : CanId) (out : List Output) : ℕ :=
  (out.filterMap Binder.sentFrame).countP (fun f => (f.canId &&& CAN_SFF_MASK).setWidth 16 = c)

/-- The event is a request to set a property of a CAN-ID. -/
def Sets (d : Dict) (c : CanId) : ClockEvent → Prop
  | .call ⟨.set _ (some n) (some _) _, _⟩ =>
    ∃ a, d.getPropertyDict n = some a ∧ (d.mem a).mycanid = c
  | _ => False

/-- **The event loop attends to a timer**: it looks at it before time goes on
beyond the deadline. -/
def Attends (fd : ℕ) (k : Clocked) : ClockEvent → Prop
  | .wait ms => k.now + ms ≤ k.deadline fd
  | _ => True

theorem framesFor_append (c : CanId) (out out' : List Output) :
    framesFor c (out ++ out') = framesFor c out + framesFor c out' := by
  unfold framesFor
  rw [List.filterMap_append, List.countP_append]

theorem framesFor_of_sentFrame {c : CanId} {out : List Output}
    (h : out.filterMap Binder.sentFrame = []) : framesFor c out = 0 := by
  unfold framesFor
  rw [h]
  rfl

/-- A frame of another CAN-ID is none for this one. -/
theorem framesFor_of_ne {d : Dict} {b : Binder} (h : Binder.Transmits d b) {c c' : CanId}
    (hc' : c' ∈ d.canidRoot) (hne : c' ≠ c) {out : List Output}
    (hout : out.filterMap Binder.sentFrame = []
      ∨ out.filterMap Binder.sentFrame = [(b.info c').canrawFrame]) :
    framesFor c out = 0 := by
  rcases hout with hout | hout
  · exact framesFor_of_sentFrame hout
  · unfold framesFor
    rw [hout, List.countP_singleton, (h.frame c' hc').2, if_neg]
    exact fun hcc => hne (of_decide_eq_true hcc)

/-- **One event keeps the frames those of their CAN-IDs.** -/
theorem transmits_step {d : Dict} (hd : d.WF) {k k' : Clocked} {e : ClockEvent}
    {out : List Output} (h : Binder.Transmits d k.toBinder) (hs : k.step e = some (k', out)) :
    Binder.Transmits d k'.toBinder := by
  cases e with
  | wait ms =>
    cases hs
    exact h
  | poll c sent =>
    obtain ⟨rfl, -⟩ := Machine.eq_of_some hs
    split_ifs
    · exact h
    · exact h
  | call input =>
    obtain ⟨r, hr, heq⟩ := Option.map_eq_some_iff.mp hs
    cases heq
    rw [settimes_toBinder]
    exact h.step hd hr

/-- A timer that is attended to is read before time goes on. -/
theorem prompt_timerEvents (fd : ℕ) (k : Clocked) (e : ClockEvent) (h : Attends fd k e) :
    PeriodicTimer.Meets timerPeriod PeriodicTimer.Prompt (k.timer fd) (timerEvents fd k e) := by
  cases e with
  | wait ms => exact ⟨h, trivial⟩
  | poll c sent =>
    refine PeriodicTimer.meets_prompt (fun e' he' time heq => ?_)
    unfold timerEvents at he'
    dsimp only at he'
    split_ifs at he'
    · exact absurd (heq.symm.trans (List.mem_singleton.mp he')) (by simp)
    · exact absurd he' List.not_mem_nil
  | call input =>
    refine PeriodicTimer.meets_prompt (fun e' he' time heq => ?_)
    unfold timerEvents armings at he'
    dsimp only at he'
    split at he'
    · exact absurd he' List.not_mem_nil
    · obtain ⟨_, -, rfl⟩ := List.mem_map.mp he'
      cases heq

section Cadence

variable {d : Dict} {c : CanId}

/-- **A frame is a tick**: without a `set` for a CAN-ID, an event sends a frame
for it if it reads its timer, and does not arm the timer. -/
theorem cadence_step (hd : d.WF) (hapart : d.TimersApart)
    (hc : (d.info c).timerfd ∈ d.timers) {k k' : Clocked} {e : ClockEvent} {out : List Output}
    (h : Binder.Transmits d k.toBinder) (he : ¬Sets d c e) (hs : k.step e = some (k', out)) :
    framesFor c out = PeriodicTimer.reads (timerEvents (d.info c).timerfd k e)
      ∧ .arm ∉ timerEvents (d.info c).timerfd k e := by
  have hfd : ∀ x, (k.info x).timerfd = (d.info x).timerfd :=
    fun x => (h.layout.info_eq x).2.2.2.2
  unfold timerEvents
  cases e with
  | wait ms =>
    cases hs
    exact ⟨rfl, by simp⟩
  | poll c' sent =>
    obtain ⟨-, rfl⟩ := Machine.eq_of_some hs
    dsimp only
    by_cases hdue : k.Due c'
    · have htimer : (d.info c').timerfd ∈ d.timers := by
        rw [← hfd, ← h.layout.timers]
        exact hdue.1
      rw [if_pos hdue]
      by_cases hcc : c' = c
      · rw [hcc] at hdue htimer ⊢
        rw [if_pos ⟨hdue, hfd c⟩]
        have hsent : (k.onTimerEvent c sent).filterMap Binder.sentFrame
            = [(k.info c).canrawFrame] := by
          unfold Binder.onTimerEvent Binder.socketcanSend
          rw [if_pos hdue.1, h.canSendfd]
          rfl
        refine ⟨?_, by simp⟩
        unfold framesFor
        rw [hsent, List.countP_singleton, (h.frame c (hapart.registered c hc)).2, if_pos]
        · rfl
        · exact decide_eq_true rfl
      · have hne : ¬(k.Due c' ∧ (k.info c').timerfd = (d.info c).timerfd) := fun hboth =>
          hcc (hapart.apart c c' hc ((hfd c').symm.trans hboth.2))
        rw [if_neg hne]
        exact ⟨framesFor_of_ne h (hapart.registered c' htimer) hcc
          (k.onTimerEvent_effects c' sent), List.not_mem_nil⟩
    · rw [if_neg hdue, if_neg (fun hboth => hdue hboth.1)]
      exact ⟨rfl, List.not_mem_nil⟩
  | call input =>
    obtain ⟨⟨b, out'⟩, hr, heq⟩ := Option.map_eq_some_iff.mp hs
    cases heq
    obtain ⟨i, htimer⟩ := input
    dsimp only at hr ⊢
    rw [hr]
    dsimp only
    unfold armings
    by_cases hset : ∃ client event value sent, i = .set client event value sent
    · obtain ⟨client, event, value, sent, rfl⟩ := hset
      rcases Binder.set_effects h.layout (Binder.step_set hr) with
        hq | ⟨n, v, a, rfl, rfl, ha, hsent, harmed⟩
      · rw [framesFor_of_sentFrame (sentFrame_of_quiet hq), armed_of_quiet hq]
        exact ⟨rfl, List.not_mem_nil⟩
      · have hne : (d.mem a).mycanid ≠ c := fun hac => he ⟨a, ha, hac⟩
        have hother : ((d.updateSendTimer (d.mem a).mycanid).toList).filter
            (fun fd' => fd' = (d.info c).timerfd) = [] := by
          refine List.filter_eq_nil_iff.mpr (fun fd' hfd' hfdc => ?_)
          unfold Dict.updateSendTimer at hfd'
          dsimp only at hfd'
          split_ifs at hfd' with hmem
          · rw [Option.toList_some, List.mem_singleton] at hfd'
            exact hne (hapart.apart c _ hc (hfd'.symm.trans (of_decide_eq_true hfdc)))
          · exact absurd hfd' List.not_mem_nil
        rw [framesFor_of_ne (h.step hd hr) (hd.kind_of_resolves ha).1 hne hsent, harmed, hother]
        exact ⟨rfl, List.not_mem_nil⟩
    · have hq := Binder.quiet_step hr htimer
        (fun client event value sent h => hset ⟨client, event, value, sent, h⟩)
      rw [framesFor_of_sentFrame (sentFrame_of_quiet hq), armed_of_quiet hq]
      exact ⟨rfl, List.not_mem_nil⟩

/-- **The frames of a run are the ticks.** -/
theorem cadence_run (hd : d.WF) (hapart : d.TimersApart) (hc : (d.info c).timerfd ∈ d.timers)
    {k k' : Clocked} {es : List ClockEvent} {outs : List Output}
    (h : Binder.Transmits d k.toBinder) (he : ∀ e ∈ es, ¬Sets d c e)
    (hr : run k es = some (k', outs)) :
    framesFor c outs
        = PeriodicTimer.reads (Machine.trace step (timerEvents (d.info c).timerfd) k es)
      ∧ .arm ∉ Machine.trace step (timerEvents (d.info c).timerfd) k es := by
  induction es generalizing k outs with
  | nil =>
    cases hr
    exact ⟨rfl, List.not_mem_nil⟩
  | cons e es ih =>
    obtain ⟨k₁, out, out', hs, hr', rfl⟩ := Machine.run_cons_eq_some.mp hr
    obtain ⟨hhead, harm⟩ := cadence_step hd hapart hc h (he e List.mem_cons_self) hs
    obtain ⟨htail, harm'⟩ := ih (transmits_step hd h hs)
      (fun e' he' => he e' (List.mem_cons_of_mem e he')) hr'
    rw [Machine.trace_cons hs, framesFor_append, PeriodicTimer.reads_append, hhead, htail]
    exact ⟨rfl, fun hmem => (List.mem_append.mp hmem).elim harm harm'⟩

end Cadence

theorem transmits_run {jobj : Json} {d : Dict} (hload : canDefineInit jobj = some d)
    {es : List ClockEvent} {k : Clocked} {outs : List Output}
    (hr : run (start d) es = some (k, outs)) : Binder.Transmits d k.toBinder := by
  obtain ⟨cs, -, hconf⟩ := Dict.configured_of_canDefineInit hload
  exact Machine.run_invariant (fun x : Clocked => Binder.Transmits d x.toBinder)
    (fun _ _ _ _ hx _ hs => transmits_step hconf.sound.wf hx hs) (Binder.transmits_start hconf)
    (Machine.meets_of_forall (fun _ _ => trivial) (start d) es) hr

/-- A `set` arms the timer of its CAN-ID. -/
theorem timer_set {d : Dict} {k k₁ : Clocked} (hd : d.SameLayout k.toDict) {client : Client}
    {name value : String} {sent : Bool} {a : Addr} (ha : d.getPropertyDict name = some a)
    (htimer : (d.info (d.mem a).mycanid).timerfd ∈ d.timers) {out : List Output}
    (hset : k.step (.call ⟨.set client (some name) (some value) sent, rfl⟩) = some (k₁, out)) :
    k₁.timer (d.info (d.mem a).mycanid).timerfd = ⟨k.now, k.now + timerPeriod⟩ := by
  obtain ⟨rfl, -⟩ := Machine.eq_of_some hset
  have harmed := (Binder.set_effects_of_resolves hd ha client value sent).2
  show (settimes { k with toBinder := _ }
    (k.set client (some name) (some value) sent).2).timer _ = _
  rw [timer_settimes]
  unfold armings
  rw [harmed]
  unfold Dict.updateSendTimer
  dsimp only
  rw [if_pos htimer, Option.toList_some, List.filter_cons, if_pos (decide_eq_true rfl)]
  rfl

/-- **Once in every second**: after a `set` of a property whose CAN-ID has a
timer, whatever became of its value, and until the next one for that CAN-ID, the
frames for it keep behind the seconds that go by: so there is none in the first
second, and never one too many. And as long as the event loop attends to the
timer, they are never more than a second behind. -/
theorem sent_every_second {jobj : Json} {d : Dict} (hload : canDefineInit jobj = some d)
    {es : List ClockEvent} {k : Clocked} {outs : List Output}
    (hrun : run (start d) es = some (k, outs)) {client : Client} {name value : String}
    {sent : Bool} {a : Addr} (ha : d.getPropertyDict name = some a)
    (htimer : (d.info (d.mem a).mycanid).timerfd ∈ d.timers) {k₁ : Clocked} {out : List Output}
    (hset : k.step (.call ⟨.set client (some name) (some value) sent, rfl⟩) = some (k₁, out))
    {es' : List ClockEvent} (hother : ∀ e ∈ es', ¬Sets d (d.mem a).mycanid e) {k' : Clocked}
    {outs' : List Output} (hrun' : run k₁ es' = some (k', outs')) :
    k.now + framesFor (d.mem a).mycanid outs' * timerPeriod ≤ k'.now
      ∧ (Machine.Meets step (Attends (d.info (d.mem a).mycanid).timerfd) k₁ es' →
        k'.now ≤ k.now + (framesFor (d.mem a).mycanid outs' + 1) * timerPeriod) := by
  obtain ⟨cs, -, hconf⟩ := Dict.configured_of_canDefineInit hload
  have htrans := transmits_run hload hrun
  have harm := timer_set htrans.layout ha htimer hset
  obtain ⟨s, hdrawn⟩ := Dict.exists_drawn hload
  obtain ⟨hframes, hnone⟩ := cadence_run hconf.sound.wf hdrawn.timersApart htimer
    (transmits_step hconf.sound.wf htrans hset) hother hrun'
  have hready := meets_trace (d.info (d.mem a).mycanid).timerfd (P := fun _ _ => True)
    (fun k e _ => ready_timerEvents _ k e)
    (Machine.meets_of_forall (fun _ _ => trivial) k₁ es')
  have hend := timer_run (d.info (d.mem a).mycanid).timerfd hrun'
  rw [harm] at hready hend
  rw [hframes]
  constructor
  · have hrate := PeriodicTimer.rate (by decide) 0 k.now (by simp) (by simp) hready
    rw [← hend, Nat.zero_add] at hrate
    exact hrate
  · intro hattends
    have hprompt := meets_trace (d.info (d.mem a).mycanid).timerfd (prompt_timerEvents _) hattends
    rw [harm] at hprompt
    obtain ⟨hdeadline, hnow, -⟩ := PeriodicTimer.prompt (by decide) 0 k.now (by simp)
      (Nat.le_add_right _ _) (by simp) hnone (hready.and hprompt)
    rw [← hend] at hdeadline hnow
    rw [hdeadline, Nat.zero_add] at hnow
    exact hnow

theorem sent_every_second_sample :
    ∃ d a k₁ out k' outs', canDefineInit sampleConfig = some d
      ∧ d.getPropertyDict "lamp" = some a
      ∧ (start d).step (.call ⟨.set 1 (some "lamp") (some "1") true, rfl⟩) = some (k₁, out)
      ∧ run k₁ [.wait 1000, .poll 0x200#16 true] = some (k', outs')
      ∧ framesFor (d.mem a).mycanid outs' * timerPeriod ≤ k'.now
      ∧ k'.now ≤ (framesFor (d.mem a).mycanid outs' + 1) * timerPeriod := by
  have hload : (canDefineInit sampleConfig).bind (fun d =>
      (d.getPropertyDict "lamp").map (fun a =>
        decide ((d.info (d.mem a).mycanid).timerfd ∈ d.timers))) = some true := by
    decide
  obtain ⟨d, hd, hlamp⟩ := Option.bind_eq_some_iff.mp hload
  obtain ⟨a, ha, htimer⟩ := Option.map_eq_some_iff.mp hlamp
  obtain ⟨⟨k₁, out⟩, hset⟩ : ∃ r, (start d).step
      (.call ⟨.set 1 (some "lamp") (some "1") true, rfl⟩) = some r := ⟨_, rfl⟩
  have harm := timer_set (Dict.SameLayout.refl d) ha (of_decide_eq_true htimer) hset
  have hnow : k₁.now = 0 := congrArg PeriodicTimer.Timer.now harm
  have hdeadline : k₁.deadline (d.info (d.mem a).mycanid).timerfd = timerPeriod :=
    congrArg PeriodicTimer.Timer.deadline harm
  have hattends : Machine.Meets step (Attends (d.info (d.mem a).mycanid).timerfd) k₁
      [.wait 1000, .poll 0x200#16 true] := by
    refine ⟨?_, fun _ _ _ => ⟨trivial, fun _ _ _ => trivial⟩⟩
    show k₁.now + 1000 ≤ k₁.deadline _
    rw [hnow, hdeadline]
    decide
  have hother : ∀ e ∈ [.wait 1000, .poll 0x200#16 true], ¬Sets d (d.mem a).mycanid e := by
    simp [Sets]
  obtain ⟨hlow, hhigh⟩ := sent_every_second (k := start d) hd (Machine.run_nil _) ha
    (of_decide_eq_true htimer) hset hother rfl
  have hstart : (start d).now = 0 := rfl
  have hend := hhigh hattends
  rw [hstart, Nat.zero_add] at hlow hend
  exact ⟨d, a, k₁, out, _, _, hd, ha, hset, rfl, hlow, hend⟩

end Clocked
