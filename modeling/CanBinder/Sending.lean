import CanBinder.Configuration
import CanBinder.Locality

/-!
# What is sent

A frame leaves the binding in two ways, after a `set` and at a tick of a send
timer, and both send the frame kept in the CAN-ID. That frame is built when
the configuration is read, and the writes of `set` go into it.

Two things keep it from being what the requests made it. `set` does not ask
for the kind of the property it names, so it writes and sends the frame of a
CAN-ID to receive as well. And a received frame is stored in the CAN-ID it
is for before the kind of that CAN-ID is looked at, so a frame on the bus
with the identifier of a CAN-ID to send replaces what was to be sent.
-/

namespace Dict

variable {d : Dict}

/-- **A resolved property has the kind of its CAN-ID.** -/
theorem WF.kind_of_resolves (h : d.WF) {n : String} {a : Addr}
    (ha : d.getPropertyDict n = some a) :
    (d.mem a).mycanid ∈ d.canidRoot ∧ (d.mem a).propertyKind = (d.info (d.mem a).mycanid).kind := by
  obtain ⟨hmem, -⟩ := h.getPropertyDict_eq_some_iff.mp ha
  obtain ⟨c, hc, i, hi, rfl⟩ := h.slot a hmem
  rw [h.mycanid c hc i hi]
  exact ⟨hc, h.kind c hc i hi⟩

end Dict

namespace Binder

/-! ## One request -/

/-- What `socketcan_send` puts on the bus is the frame it is given. -/
theorem eq_of_mem_socketcanSend {b : Binder} {f : CanFrame} {sent : Bool} {o : Output}
    (ho : o ∈ (b.socketcanSend f sent).1) : o = .send f := by
  unfold socketcanSend at ho
  by_cases hfd : b.canSendfd = false
  · rw [if_pos hfd] at ho
    exact absurd ho List.not_mem_nil
  · rw [if_neg hfd] at ho
    exact List.mem_singleton.mp ho

/-- What `can_signal_send` puts on the bus is the frame it leaves. -/
theorem send_of_mem_canSignalSend {b : Binder} {a : Addr} {v : BitVec 32} {sent : Bool}
    {o : Output} (ho : o ∈ (b.canSignalSend a v sent).2) :
    o = .send ((b.canSignalSend a v sent).1.info (b.mem a).mycanid).canrawFrame := by
  unfold canSignalSend at ho ⊢
  dsimp only at ho ⊢
  split_ifs at ho with herr
  · rw [if_pos herr]
    exact eq_of_mem_socketcanSend ho
  · exact absurd ho List.not_mem_nil

/-- Arming a timer and answering put nothing on the bus. -/
theorem not_mem_send_of_timer (b : Binder) (c : CanId) (client : Client) (f : CanFrame) :
    .send f ∉ b.updateSendTimer c ++ [.success client none] := by
  unfold updateSendTimer
  split
  · simp
  · simp

/-! ## The kind of a property and `set` -/

/-- **Only properties to send are set.** A `set` changes the frame of a CAN-ID
to send alone, it sends a frame and arms a timer only for a property to send
it names, and naming a property to receive makes it fail and change
nothing. -/
structure SetsOnlySend (b : Binder) (client : Client) (event value : Option String)
    (sent : Bool) : Prop where
  frame : ∀ c, ((b.set client event value sent).1.info c).canrawFrame
    ≠ (b.info c).canrawFrame → (b.info c).kind = .send
  bus : ∀ f, .send f ∈ (b.set client event value sent).2 →
    ∃ n a, event = some n ∧ b.getPropertyDict n = some a ∧ (b.mem a).propertyKind = .send
  timer : ∀ fd, .settime fd ∈ (b.set client event value sent).2 →
    ∃ n a, event = some n ∧ b.getPropertyDict n = some a ∧ (b.mem a).propertyKind = .send
  reception : ∀ n a, event = some n → b.getPropertyDict n = some a →
    (b.mem a).propertyKind = .readonly →
      ∃ status, b.set client event value sent = (b, [.fail client status])

/-- **The request gives a value for a property to receive.** -/
def SetsReception (b : Binder) (event value : Option String) : Prop :=
  ∃ n v a, event = some n ∧ value = some v ∧ b.getPropertyDict n = some a
    ∧ (b.mem a).propertyKind = .readonly

/-- A request that names no property it could set changes and sends nothing. -/
theorem setsOnlySend_of_not_resolves {b : Binder} {event value : Option String}
    (h : ¬∃ n v a, event = some n ∧ value = some v ∧ b.getPropertyDict n = some a)
    (client : Client) (sent : Bool) : SetsOnlySend b client event value sent := by
  obtain ⟨status, hset⟩ := set_of_not_resolves h client sent
  refine ⟨fun c hc => ?_, fun f hf => ?_, fun fd hfd => ?_, fun _ _ _ _ _ => ⟨status, hset⟩⟩
  · rw [hset] at hc
    exact absurd rfl hc
  · rw [hset] at hf
    exact absurd hf (by simp)
  · rw [hset] at hfd
    exact absurd hfd (by simp)

/-- A request for a property to send changes the frame of its CAN-ID alone. -/
theorem setsOnlySend_of_send {b : Binder} {n v : String} {a : Addr}
    (ha : b.getPropertyDict n = some a) (hsend : (b.mem a).propertyKind = .send)
    (hkind : (b.mem a).propertyKind = (b.info (b.mem a).mycanid).kind)
    (client : Client) (sent : Bool) : SetsOnlySend b client (some n) (some v) sent := by
  refine ⟨fun c hc => ?_, fun _ _ => ⟨n, a, rfl, ha, hsend⟩,
    fun _ _ => ⟨n, a, rfl, ha, hsend⟩, fun n' a' hn' ha' hk' => ?_⟩
  · by_cases hcm : c = (b.mem a).mycanid
    · rw [hcm, ← hkind, hsend]
    · refine absurd ?_ hc
      rw [(set_of_resolves ha client v sent).1, canSignalSend_toDict,
        Dict.setInfo_info_of_ne _ hcm]
      rfl
  · cases hn'
    rw [ha] at ha'
    cases ha'
    rw [hsend] at hk'
    cases hk'

/-- A request that resolves succeeds, also for a property to receive. -/
theorem SetsOnlySend.not_setsReception {b : Binder} {client : Client}
    {event value : Option String} {sent : Bool} (h : SetsOnlySend b client event value sent) :
    ¬SetsReception b event value := by
  rintro ⟨n, v, a, rfl, rfl, ha, hk⟩
  obtain ⟨status, hset⟩ := h.reception n a rfl ha hk
  have hout := (set_of_resolves ha client v sent).2
  rw [hset] at hout
  have hlast := congrArg List.getLast? hout
  rw [List.getLast?_concat] at hlast
  cases hlast

/-- **`set` keeps to the properties to send just when it is not given a value
for one to receive.** -/
theorem setsOnlySend_iff {jobj : Json} {d : Dict} (h : canDefineInit jobj = some d)
    {ins : List Input} {b : Binder} {outs : List Output}
    (hr : run (start d) ins = some (b, outs)) (client : Client) (event value : Option String)
    (sent : Bool) :
    SetsOnlySend b client event value sent ↔ ¬SetsReception b event value := by
  obtain ⟨cs, -, hconf⟩ := Dict.configured_of_canDefineInit h
  have hlayout : d.SameLayout b.toDict := runRelation_sameLayout.run hr
  have hwf := hlayout.wf hconf.sound.wf
  refine ⟨SetsOnlySend.not_setsReception, fun hnot => ?_⟩
  by_cases hres : ∃ n v a, event = some n ∧ value = some v ∧ b.getPropertyDict n = some a
  · obtain ⟨n, v, a, rfl, rfl, ha⟩ := hres
    obtain ⟨hroot, hkind⟩ := hwf.kind_of_resolves ha
    have hnk : (b.mem a).propertyKind ≠ .readonly := fun hk =>
      hnot ⟨n, v, a, rfl, rfl, ha, hk⟩
    -- a CAN-ID is to receive or to send, and its properties with it
    have hsend : (b.mem a).propertyKind = .send := by
      rw [hkind, (hlayout.info_eq _).2.2.1] at hnk ⊢
      exact (hconf.kind (hlayout.canidRoot ▸ hroot)).resolve_left hnk
    exact setsOnlySend_of_send ha hsend hkind client sent
  · exact setsOnlySend_of_not_resolves hres client sent

theorem setsOnlySend_iff_sample :
    ∃ d, canDefineInit sampleConfig = some d
      ∧ SetsOnlySend (start d) 1 (some "lamp") (some "1") true := by
  have hload : (canDefineInit sampleConfig).map (fun d =>
      (d.getPropertyDict "lamp").map (fun a => (d.mem a).propertyKind)) = some (some .send) := by
    decide
  obtain ⟨d, hd, hkind⟩ := Option.map_eq_some_iff.mp hload
  refine ⟨d, hd, (setsOnlySend_iff hd (Machine.run_nil _) 1 (some "lamp") (some "1") true).mpr ?_⟩
  rintro ⟨n, v, a, hn, -, ha, hk⟩
  cases hn
  have hres : d.getPropertyDict "lamp" = some a := ha
  have hread : (d.mem a).propertyKind = .readonly := hk
  rw [hres, Option.map_some, hread] at hkind
  cases hkind

/-- A value for a property to receive goes out on the bus. -/
theorem not_setsOnlySend_speed :
    ∃ d, canDefineInit sampleConfig = some d
      ∧ ¬SetsOnlySend (start d) 1 (some "speed") (some "5") true := by
  have hload : (canDefineInit sampleConfig).map (fun d =>
      ((d.getPropertyDict "speed").map (fun a => (d.mem a).propertyKind),
        ((start d).set 1 (some "speed") (some "5") true).2.length))
      = some (some .readonly, 2) := by decide
  obtain ⟨d, hd, hres⟩ := Option.map_eq_some_iff.mp hload
  obtain ⟨hkind, hlen⟩ := Prod.mk.inj hres
  obtain ⟨a, ha, hk⟩ := Option.map_eq_some_iff.mp hkind
  refine ⟨d, hd, fun hlaw => ?_⟩
  obtain ⟨status, hset⟩ := hlaw.reception "speed" a rfl ha hk
  rw [hset] at hlen
  exact absurd hlen (by simp)

/-! ## The frame of a CAN-ID to send -/

/-- The bits of a frame after a property was written into it. They do not
depend on the value the property had. -/
def writeFrame (p : PropDef) (data : Payload) (v : BitVec 32) : Payload :=
  (property2canframe { p with mycanid := 0#16 } data v).2.2

theorem property2canframe_data (p : CanBit) (data : Payload) (v : BitVec 32) :
    (property2canframe p data v).2.2 = writeFrame p.toPropDef data v := by
  unfold writeFrame
  cases hv : p.rejects v with
  | true =>
    have hq : ({ p.toPropDef with mycanid := 0#16 } : CanBit).rejects v = true := hv
    rw [property2canframe_of_rejects hv, property2canframe_of_rejects hq]
  | false =>
    have hq : ({ p.toPropDef with mycanid := 0#16 } : CanBit).rejects v = false := hv
    rw [property2canframe_eq_of_not_rejects data hv, property2canframe_eq_of_not_rejects data hq]

/-- What one input writes into the frame of a CAN-ID: a `set` of one of its
properties its value, and nothing else anything. -/
def intendedStep (d : Dict) (c : CanId) (data : Payload) : Input → Payload
  | .set _ (some n) (some v) _ =>
    match d.getPropertyDict n with
    | some a =>
      if (d.mem a).mycanid = c then
        writeFrame (d.mem a).toPropDef data (BitVec.ofInt 32 (CLib.strtol v 0))
      else data
    | none => data
  | _ => data

/-- **The payload the requests make of a frame**: zero, and the values set
since. -/
def intended (d : Dict) (c : CanId) (ins : List Input) : Payload :=
  ins.foldl (intendedStep d c) (fun _ => 0#8)

/-- The input makes the binding send the frame of a CAN-ID: a `set` of one of
its properties, or its timer. -/
def SendsFor (d : Dict) (c : CanId) : Input → Prop
  | .set _ (some n) _ _ => ∃ a, d.getPropertyDict n = some a ∧ (d.mem a).mycanid = c
  | .timer c' _ => c' = c
  | _ => False

/-- **The input is no stray frame**: no frame that would be taken for one of
the CAN-ID. -/
def NoStray (c : CanId) : Input → Prop
  | .frame frame _ => 8#8 < frame.canDlc ∨ (frame.canId &&& CAN_SFF_MASK).setWidth 16 ≠ c
  | _ => True

/-- Decoding a frame into an array changes no CAN-ID. -/
theorem parseCandata_info (canV64 : BitVec 64) (c : CanId) (timestamp : Timeval)
    (slots : List ℕ) (b : Binder) :
    (parseCandata canV64 c timestamp slots b).1.info = b.info := by
  rw [parseCandata_toDict]
  show (slots.foldl _ b.toDict).info = b.toDict.info
  generalize b.toDict = d
  induction slots generalizing d with
  | nil => rfl
  | cons i slots ih =>
    rw [List.foldl_cons, ih]
    exact (d.touches_updateProperty canV64 (.slot c i) timestamp).info_eq

/-- **A frame is stored in the CAN-ID it is for**, and in no other. -/
theorem parseFrame_info_of_ne {b : Binder} (hb : b.WF) {frame : CanFrame} {c : CanId}
    (hc : 8#8 < frame.canDlc ∨ (frame.canId &&& CAN_SFF_MASK).setWidth 16 ≠ c)
    (timestamp : Timeval) : (b.parseFrame frame timestamp).1.info c = b.info c := by
  have hkeep : ∀ c', IsFor c' frame → (b.keepFrame c' frame).info c = b.info c := fun c' hfor =>
    Dict.setInfo_info_of_ne _ (fun hcc => (hc.resolve_left hfor.1) (hfor.2.trans hcc.symm)) _
  rcases parseFrame_cases hb (Dict.SameLayout.refl b.toDict) frame timestamp with
    ⟨-, heq⟩ | ⟨c', -, hfor, ⟨-, heq⟩ | ⟨-, heq⟩⟩
  · rw [heq]
  · rw [heq]
    exact hkeep c' hfor
  · rw [heq]
    exact (congrFun (parseCandata_info _ c' timestamp _ _) c).trans (hkeep c' hfor)

/-- A `set` and the frame to send: the value goes into the frame of the CAN-ID
of the property. -/
theorem canrawFrame_set {d : Dict} {b : Binder} (hd : d.SameLayout b.toDict) (c : CanId)
    (client : Client) (event value : Option String) (sent : Bool) :
    ((b.set client event value sent).1.info c).canrawFrame = { (b.info c).canrawFrame with
      data := intendedStep d c (b.info c).canrawFrame.data (.set client event value sent) } := by
  by_cases hres : ∃ n v a, event = some n ∧ value = some v ∧ b.getPropertyDict n = some a
  · obtain ⟨n, v, a, rfl, rfl, ha⟩ := hres
    have had : d.getPropertyDict n = some a := (hd.getPropertyDict n).symm.trans ha
    have hmy := (hd.entry a).2.1
    rw [(set_of_resolves ha client v sent).1, canSignalSend_toDict]
    unfold intendedStep
    dsimp only
    rw [had]
    dsimp only
    by_cases hc : (d.mem a).mycanid = c
    · rw [if_pos hc, ← hc, ← hmy, Dict.setInfo_info_self, property2canframe_data,
        (hd.entry a).1]
    · rw [if_neg hc, Dict.setInfo_info_of_ne _ (fun hcm => hc (hmy.symm.trans hcm.symm))]
      rfl
  · obtain ⟨status, hset⟩ := set_of_not_resolves hres client sent
    have hsame : intendedStep d c (b.info c).canrawFrame.data (.set client event value sent)
        = (b.info c).canrawFrame.data := by
      unfold intendedStep
      cases event with
      | none => rfl
      | some n =>
        cases value with
        | none => rfl
        | some v =>
          have hnone : b.getPropertyDict n = none :=
            Option.eq_none_iff_forall_ne_some.mpr (fun a ha => hres ⟨n, v, a, rfl, rfl, ha⟩)
          dsimp only
          rw [← hd.getPropertyDict n, hnone]
    rw [hset, hsame]

/-- **One input and the frame to send**: it takes in what `set` writes. -/
theorem canrawFrame_step {d : Dict} {c : CanId} {b b' : Binder} {input : Input}
    {out : List Output} (hd : d.SameLayout b.toDict) (hb : b.WF) (hstray : NoStray c input)
    (h : b.step input = some (b', out)) :
    (b'.info c).canrawFrame = { (b.info c).canrawFrame with
      data := intendedStep d c (b.info c).canrawFrame.data input } := by
  cases input with
  | frame frame timestamp =>
    rw [← (step_frame h).1, parseFrame_info_of_ne hb hstray timestamp]
    rfl
  | timer c' sent =>
    cases h
    rfl
  | get client event =>
    cases h
    rfl
  | set client event value sent =>
    have hset := canrawFrame_set hd c client event value sent
    rwa [step_set h] at hset
  | list client =>
    cases h
    rfl
  | subscribe client event answers =>
    rw [show b'.toDict = b.toDict from subscribe_toDict h]
    rfl
  | unsubscribe client args answers =>
    rw [show b'.toDict = b.toDict from unsubscribe_toDict h]
    rfl

/-- The frame the configuration builds for a CAN-ID. -/
theorem canrawFrame_start {cs : List CanidDef} {d : Dict} (hconf : Dict.Configured cs d)
    {c : CanidDef} (hc : c ∈ cs) (hid : c.info.canrawFrame.canId.toNat ≤ 0x7FF) :
    (d.info c.info.canid).canrawFrame
      = ⟨c.info.canid.setWidth 32, 8#8, intended d c.info.canid []⟩ := by
  obtain ⟨m, fd, hinfo⟩ := hconf.info c hc
  obtain ⟨canid, obj, kind, -, hheader⟩ := hconf.header c hc
  have hframe : c.info.canrawFrame = ⟨canid.setWidth 32, 8#8, fun _ => 0#8⟩ := by
    rw [hheader]
    rfl
  have hcanid : c.info.canid = canid &&& CAN_SFF_MASK.setWidth 16 := by
    rw [hheader]
    rfl
  -- the mask takes nothing off an identifier of eleven bits
  have hmask : canid &&& CAN_SFF_MASK.setWidth 16 = canid := by
    refine and_sff_of_le ?_
    rw [hframe] at hid
    rwa [show (canid.setWidth 32).toNat = canid.toNat from
      BitVec.toNat_setWidth_of_le (by decide)] at hid
  rw [hinfo]
  show c.info.canrawFrame = _
  rw [hframe, hcanid, hmask]
  rfl

/-- **The frame to send along a run.** -/
theorem canrawFrame_run {cs : List CanidDef} {d : Dict} (hconf : Dict.Configured cs d)
    {c : CanidDef} (hc : c ∈ cs) (hid : c.info.canrawFrame.canId.toNat ≤ 0x7FF)
    {ins : List Input} {b : Binder} {outs : List Output}
    (hok : Machine.Meets step (fun _ input => NoStray c.info.canid input) (start d) ins)
    (hr : run (start d) ins = some (b, outs)) :
    (b.info c.info.canid).canrawFrame
      = ⟨c.info.canid.setWidth 32, 8#8, intended d c.info.canid ins⟩ := by
  have hinv := Machine.run_history
    (fun past _ s => d.SameLayout s.toDict ∧ (s.info c.info.canid).canrawFrame
      = ⟨c.info.canid.setWidth 32, 8#8, intended d c.info.canid past⟩)
    (fun past outs s e s' out hs hok hstep => ?_)
    ⟨Dict.SameLayout.refl d, canrawFrame_start hconf hc hid⟩ hok hr
  · exact hinv.2
  · refine ⟨hs.1.trans (runRelation_sameLayout.step hstep), ?_⟩
    rw [canrawFrame_step hs.1 (hs.1.wf hconf.sound.wf) hok hstep, hs.2]
    unfold intended
    rw [List.foldl_append]
    rfl

/-- **What an input sends for a CAN-ID is the frame it leaves there.** -/
theorem eq_canrawFrame_of_send {d : Dict} {c : CanId} {b b' : Binder} {input : Input}
    {out : List Output} (hd : d.SameLayout b.toDict) (hfor : SendsFor d c input)
    (hstep : b.step input = some (b', out)) {f : CanFrame} (hf : .send f ∈ out) :
    f = (b'.info c).canrawFrame := by
  cases input with
  | timer c' sent =>
    obtain rfl : c' = c := hfor
    cases hstep
    unfold onTimerEvent at hf
    split_ifs at hf
    · exact Output.send.inj (eq_of_mem_socketcanSend hf)
    · exact absurd hf List.not_mem_nil
  | set client event value sent =>
    have heq := step_set hstep
    cases event with
    | none => exact hfor.elim
    | some n =>
      obtain ⟨a, ha, hac⟩ := hfor
      rw [← hd.getPropertyDict] at ha
      cases value with
      | none =>
        cases heq
        exact absurd hf (by simp)
      | some v =>
        obtain ⟨h₁, h₂⟩ := set_of_resolves ha client v sent
        rw [heq] at h₁ h₂
        dsimp only at h₁ h₂
        -- the frame goes out before the timer is armed and the request answered
        rw [h₂, List.append_assoc, List.mem_append] at hf
        rcases hf with hf | hf
        · have hsend := Output.send.inj (send_of_mem_canSignalSend hf)
          rw [hsend, h₁, (hd.entry a).2.1, hac]
        · exact absurd hf (not_mem_send_of_timer _ _ _ _)
  | frame _ _ => exact hfor.elim
  | get _ _ => exact hfor.elim
  | list _ => exact hfor.elim
  | subscribe _ _ _ => exact hfor.elim
  | unsubscribe _ _ _ => exact hfor.elim

/-- **What is sent for a CAN-ID is what was set**, as long as no stray frame
comes in: the identifier, eight bytes, and the values set since the start. -/
theorem sent_frame_eq {jobj : Json} {d : Dict} (h : canDefineInit jobj = some d) :
    ∃ cs, configured jobj = some cs ∧ ∀ c ∈ cs, c.info.kind = .send →
      c.info.canrawFrame.canId.toNat ≤ 0x7FF →
      ∀ ins b outs, Machine.Meets step (fun _ input => NoStray c.info.canid input) (start d) ins →
        run (start d) ins = some (b, outs) →
        ∀ input b' out, b.step input = some (b', out) → SendsFor d c.info.canid input →
          ∀ f, .send f ∈ out →
            f = ⟨c.info.canid.setWidth 32, 8#8, intended d c.info.canid (ins ++ [input])⟩ := by
  obtain ⟨cs, hcs, hconf⟩ := Dict.configured_of_canDefineInit h
  refine ⟨cs, hcs, fun c hc _ hid ins b outs hok hr input b' out hstep hfor f hf => ?_⟩
  have hd : d.SameLayout b.toDict := runRelation_sameLayout.run hr
  -- an input that sends is no frame received
  have hstray : NoStray c.info.canid input := by
    cases input <;> first | exact trivial | exact hfor.elim
  rw [eq_canrawFrame_of_send hd hfor hstep hf,
    canrawFrame_step hd (hd.wf hconf.sound.wf) hstray hstep, canrawFrame_run hconf hc hid hok hr]
  unfold intended
  rw [List.foldl_append]
  rfl

/-- The lamp is switched on, and its timer ticks. -/
def lampOn : Input := .set 1 (some "lamp") (some "1") true

theorem sent_frame_eq_sample :
    ∃ d b outs, canDefineInit sampleConfig = some d ∧ run (start d) [lampOn] = some (b, outs)
      ∧ ∀ f, .send f ∈ b.onTimerEvent 0x200#16 true →
        f = ⟨0x200#32, 8#8, intended d 0x200#16 [lampOn, .timer 0x200#16 true]⟩ := by
  obtain ⟨d, hd⟩ := Option.isSome_iff_exists.mp
    (by decide : (canDefineInit sampleConfig).isSome = true)
  obtain ⟨cs, hcs, hall⟩ := sent_frame_eq hd
  have hdefs : (configured sampleConfig).map (fun cs =>
      cs.map (fun c => (c.info.canid, c.info.kind, c.info.canrawFrame.canId)))
      = some [(0x100#16, .readonly, 0x100#32), (0x200#16, .send, 0x200#32)] := by
    decide
  rw [hcs, Option.map_some] at hdefs
  have hmem : (0x200#16, CanPropertyKind.send, 0x200#32)
      ∈ cs.map (fun c => (c.info.canid, c.info.kind, c.info.canrawFrame.canId)) :=
    Option.some.inj hdefs ▸ List.mem_cons_of_mem _ List.mem_cons_self
  obtain ⟨c, hc, hcid⟩ := List.mem_map.mp hmem
  obtain ⟨hid, hkf⟩ := Prod.mk.inj hcid
  obtain ⟨hkind, hframe⟩ := Prod.mk.inj hkf
  refine ⟨d, _, _, hd, rfl, fun f hf => ?_⟩
  have hsent := hall c hc hkind (by rw [hframe]; decide) [lampOn] _ _
    ⟨trivial, fun _ _ _ => trivial⟩ rfl (.timer 0x200#16 true) _ _ rfl hid.symm f hf
  rw [hid] at hsent
  exact hsent

/-- The frame an output hands to the socket. -/
def sentFrame : Output → Option CanFrame
  | .send f => some f
  | _ => none

/-- A frame on the bus with the identifier of the lamp. -/
def strayFrame : CanFrame := ⟨0x200#32, 1#8, fun _ => 1#8⟩

/-- A stray frame goes out again at the next tick. -/
theorem not_sent_frame_eq_stray :
    ∃ d b outs f, canDefineInit sampleConfig = some d
      ∧ run (start d) [.frame strayFrame ⟨0, 0⟩] = some (b, outs)
      ∧ .send f ∈ b.onTimerEvent 0x200#16 true
      ∧ f ≠ ⟨0x200#32, 8#8,
        intended d 0x200#16 [.frame strayFrame ⟨0, 0⟩, .timer 0x200#16 true]⟩ := by
  have hload : (canDefineInit sampleConfig).map (fun d =>
      (run (start d) [.frame strayFrame ⟨0, 0⟩]).map (fun r =>
        (r.1.onTimerEvent 0x200#16 true).filterMap sentFrame)) = some (some [strayFrame]) := by
    decide
  obtain ⟨d, hd, hrun⟩ := Option.map_eq_some_iff.mp hload
  obtain ⟨⟨b, outs⟩, hr, hsent⟩ := Option.map_eq_some_iff.mp hrun
  refine ⟨d, b, outs, strayFrame, hd, hr, ?_, fun hf => ?_⟩
  · have hmem : strayFrame ∈ (b.onTimerEvent 0x200#16 true).filterMap sentFrame := by
      rw [hsent]
      exact List.mem_cons_self
    obtain ⟨o, ho, hof⟩ := List.mem_filterMap.mp hmem
    cases o <;> cases hof
    exact ho
  · have hdlc : (1#8 : BitVec 8) = 8#8 := congrArg CanFrame.canDlc hf
    exact absurd hdlc (by decide)

end Binder
