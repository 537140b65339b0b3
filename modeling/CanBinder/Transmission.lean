import CanBinder.ServerRefinement

/-!
# What the binding is ready to send

The socket is open all the time, and the frame that is kept for a CAN-ID is one
under its identifier that a receiver takes, also where it is one that came in
(`Binder.Transmits`).
-/

namespace Binder

/-- **The socket is open, and the frame of every CAN-ID is one for it.** -/
structure Transmits (d : Dict) (b : Binder) : Prop where
  layout : d.SameLayout b.toDict
  canSendfd : b.canSendfd = true
  frame : ∀ c ∈ d.canidRoot, IsFor c (b.info c).canrawFrame

/-- What changes neither the data nor the socket. -/
theorem Transmits.of_eq {d : Dict} {b b' : Binder} (h : Transmits d b)
    (hdict : b'.toDict = b.toDict) (hfd : b'.canSendfd = b.canSendfd) : Transmits d b' where
  layout := hdict ▸ h.layout
  canSendfd := hfd.trans h.canSendfd
  frame := by
    rw [show b'.info = b.info from congrArg Dict.info hdict]
    exact h.frame

theorem subscribe_canSendfd {b b' : Binder} {client : Client} {event : Option String}
    {answers : DaemonAnswers} {out : List Output}
    (h : b.subscribe client event answers = some (b', out)) : b'.canSendfd = b.canSendfd := by
  rcases subscribe_cases h with ⟨-, rfl, -⟩ | ⟨name, b₁, apply, err, -, hsub, rfl, -⟩
  · rfl
  · obtain ⟨filter, hfilter⟩ := socketcanUpdateFilter_eq b₁ b₁.getSubscribedCanids
    rw [hfilter]
    exact subscribeSignal_invariant
      (P := fun t : Binder × List (String × Json) => t.1.canSendfd = b.canSendfd)
      (fun t n _ ht => (subscribeOne_keeps Binder.canSendfd (fun _ _ => rfl) (fun _ _ _ => rfl)
        client answers t n).trans ht) hsub rfl

theorem unsubscribe_canSendfd {b b' : Binder} {client : Client} {args : Option Json}
    {answers : DaemonAnswers} {out : List Output}
    (h : b.unsubscribe client args answers = some (b', out)) : b'.canSendfd = b.canSendfd := by
  refine unsubscribe_invariant (P := fun t => t.canSendfd = b.canSendfd)
    (fun t n _ ht => ?_) h rfl
  rcases unsubscribeOne_cases client answers t n with heq | ⟨event, -, heq⟩
  · rw [heq]
    exact ht
  · rw [heq]
    exact ht

/-- A frame that is kept is kept in its CAN-ID. -/
theorem Transmits.keepFrame {d : Dict} {b : Binder} (h : Transmits d b) {c : CanId}
    {frame : CanFrame} (hfor : IsFor c frame) : Transmits d (b.keepFrame c frame) where
  layout := h.layout.trans (Dict.sameLayout_setInfo b.toDict c frame)
  canSendfd := h.canSendfd
  frame x hx := by
    by_cases hxc : x = c
    · have hself : (b.keepFrame c frame).info c = { b.info c with canrawFrame := frame } :=
        Dict.setInfo_info_self ..
      rw [hxc, hself]
      exact hfor
    · have hother : (b.keepFrame c frame).info x = b.info x :=
        Dict.setInfo_info_of_ne _ hxc _
      rw [hother]
      exact h.frame x hx

/-- **One input keeps it so.** -/
theorem Transmits.step {d : Dict} (hd : d.WF) {b b' : Binder} (h : Transmits d b)
    {input : Input} {out : List Output} (hs : b.step input = some (b', out)) :
    Transmits d b' := by
  cases input with
  | frame frame timestamp =>
    rw [← (step_frame hs).1]
    rcases parseFrame_cases hd h.layout frame timestamp with
      ⟨-, heq⟩ | ⟨c, -, hfor, ⟨-, heq⟩ | ⟨-, heq⟩⟩
    · rw [heq]
      exact h
    · rw [heq]
      exact h.keepFrame hfor
    · rw [heq]
      have hkeep := h.keepFrame hfor
      exact ⟨hkeep.layout.trans (runRelation_sameLayout.parseCandata _ c timestamp _ _),
        (parseCandata_canSendfd _ c timestamp _ _).trans hkeep.canSendfd,
        (parseCandata_info _ c timestamp _ (b.keepFrame c frame)).symm ▸ hkeep.frame⟩
  | timer c sent =>
    cases hs
    exact h
  | get client event =>
    cases hs
    exact h
  | set client event value sent =>
    have hset := step_set hs
    refine ⟨h.layout.trans (runRelation_sameLayout.step hs), ?_, fun c hc => ?_⟩
    · obtain ⟨d', heq⟩ := set_eq b client event value sent
      rw [hset] at heq
      dsimp only at heq
      rw [heq]
      exact h.canSendfd
    · have hframe := canrawFrame_set h.layout c client event value sent
      rw [hset] at hframe
      dsimp only at hframe
      rw [hframe]
      exact h.frame c hc
  | list client =>
    cases hs
    exact h
  | subscribe client event answers =>
    exact h.of_eq (subscribe_toDict hs) (subscribe_canSendfd hs)
  | unsubscribe client args answers =>
    exact h.of_eq (unsubscribe_toDict hs) (unsubscribe_canSendfd hs)

/-- The sixteen bits of an identifier and those of a frame are masked alike. -/
theorem setWidth_and_sff (canid : CanId) :
    (canid.setWidth 32 &&& CAN_SFF_MASK).setWidth 16 = canid &&& CAN_SFF_MASK.setWidth 16 := by
  rw [BitVec.setWidth_and, BitVec.setWidth_setWidth_of_le _ (by decide), BitVec.setWidth_eq]

/-- The binding transmits when it was loaded. -/
theorem transmits_start {cs : List CanidDef} {d : Dict} (h : Dict.Configured cs d) :
    Transmits d (start d) where
  layout := Dict.SameLayout.refl d
  canSendfd := rfl
  frame c hc := by
    obtain ⟨x, hx, rfl⟩ := (h.canids c).mp hc
    obtain ⟨m, fd, hinfo⟩ := h.info x hx
    obtain ⟨canid, obj, kind, -, hheader⟩ := h.header x hx
    show IsFor x.info.canid (d.info x.info.canid).canrawFrame
    rw [hinfo, hheader]
    have hdlc : ¬8#8 < (caninfoHeader canid obj kind).canrawFrame.canDlc :=
      BitVec.lt_irrefl 8#8
    exact ⟨hdlc, setWidth_and_sff canid⟩

end Binder
