import CanBinder.SendCadence
import CanBinder.SetAndGet
import CanBinder.TableReports

/-!
# From one binding to another

A property to send of one binding may be a property to receive of another, at
the other end of the bus. A frame that leaves the first after a `set` has the
value of that `set` in the field of the property, until the property is set
again or a frame for the CAN-ID comes in, which would take the place of the one
to send; and whatever was received before, the second has the value of the frame
that came in last. So if that is one sent since the `set`, both answer `get`
alike (`Binder.set_arrives`).

The property is a single entry at either end, of one type and with one table,
and no other property of the CAN-ID to send writes into its field.
-/

/-- **One field with one type and one table**, in whichever block it stands. -/
def PropDef.SameField (p q : PropDef) : Prop := q = { p with propertyKind := q.propertyKind }

namespace PropDef.SameField

variable {p q : PropDef} (h : p.SameField q)

include h

theorem varType : q.varType = p.varType := by
  rw [h]

theorem raw (x : BitVec 64) : q.raw x = p.raw x := by
  rw [h]
  rfl

theorem rejects (v : BitVec 32) : q.rejects v = p.rejects v := by
  rw [h]
  rfl

theorem meaning (v : BitVec 32) : q.meaning v = p.meaning v := by
  rw [h]
  rfl

end PropDef.SameField

/-- **What is reported is the value**, if there is one: nothing is ever stored
for an array. -/
theorem report_eq_of_value {p q : CanBit} (hdef : p.SameField q.toPropDef)
    (harray : p.varType ≠ .array) (hvalue : q.value = p.value) :
    Dict.report q = Dict.report p := by
  have hq : q.varType = p.varType := hdef.varType
  have hobj : valueObject q = valueObject p := by
    unfold CanBit.value PropDef.valueOf at hvalue
    unfold valueObject propertyValueInt
    rw [hq] at hvalue ⊢
    cases ht : p.varType with
    | array => exact absurd ht harray
    | uint64 | int64 => rfl
    | int8 | int16 | void | int | int32 | enable1 | uint8 | uint16 =>
      rw [ht] at hvalue
      exact congrArg (fun i => some (Json.int i)) (Value.int.inj hvalue)
    | uint | uint32 =>
      rw [ht] at hvalue
      have hword := BitVec.eq_of_toNat_eq (Int.ofNat_inj.mp (Value.int.inj hvalue))
      exact congrArg (fun w => some (Json.int (BitVec.toInt w))) hword
    | bool =>
      rw [ht] at hvalue
      exact congrArg (fun x => some (Json.bool x)) (Value.truth.inj hvalue)
    | string =>
      rw [ht] at hvalue
      have htext := Value.text.inj hvalue
      dsimp only
      cases hs : q.curValue.string <;> cases hs' : p.curValue.string <;> rw [hs, hs'] at htext
      · cases htext
      · cases htext
      · exact congrArg (fun s => some (Json.string s)) (Option.some.inj htext)
  unfold Dict.report
  rw [hobj]

namespace Binder

/-! ## The field of a frame -/

/-- The low bits of a value. -/
def lowBits (p : PropDef) (v : BitVec 32) : BitVec 32 :=
  (v.setWidth 64 &&& p.canMask64).setWidth 32

/-- **A frame that was written has the low bits of the value.** -/
theorem raw_writeFrame {p : PropDef} (h : p.WellFormed) (data : Payload) {v : BitVec 32}
    (hv : p.rejects v = false) :
    p.raw (canvalue2host (writeFrame p data v)) = lowBits p v := by
  have hq : ({ p with mycanid := 0#16 } : CanBit).rejects v = false := hv
  unfold writeFrame
  rw [PropDef.raw, h.field_eq_get, property2canframe_of_not_rejects h data hq]
  dsimp only
  rw [canvalue2host_host2canvalue, BitField.get_put_self]
  rfl

/-- A field beside it reads what it read before. -/
theorem raw_writeFrame_of_disjoint {p q : PropDef} (hp : p.WellFormed) (hq : q.WellFormed)
    (hdis : Disjoint p.bits q.bits) (data : Payload) (v : BitVec 32) :
    p.raw (canvalue2host (writeFrame q data v)) = p.raw (canvalue2host data) := by
  unfold writeFrame
  cases hv : q.rejects v with
  | true =>
    have hrej : ({ q with mycanid := 0#16 } : CanBit).rejects v = true := hv
    rw [property2canframe_of_rejects hrej]
  | false =>
    have hrej : ({ q with mycanid := 0#16 } : CanBit).rejects v = false := hv
    have hbits : Disjoint hq.bitField.bits hp.bitField.bits := hdis.symm
    rw [PropDef.raw, PropDef.raw, hp.field_eq_get, hp.field_eq_get,
      property2canframe_of_not_rejects hq data hrej]
    dsimp only
    rw [canvalue2host_host2canvalue, BitField.get_put_of_disjoint hbits]

end Binder

/-- **A property has its field to itself**: it lies in the frame, and those of
the other properties of the CAN-ID lie beside it. -/
structure Dict.OwnField (d : Dict) (a : Addr) : Prop where
  wellFormed : (d.mem a).WellFormed
  apart : ∀ x ∈ d.propertyRoot, x ≠ a → (d.mem x).mycanid = (d.mem a).mycanid →
    (d.mem x).WellFormed ∧ Disjoint (d.mem a).bits (d.mem x).bits

/-- **The input leaves a property of a CAN-ID alone**: it is no frame for the
CAN-ID, and no `set` of the property. -/
def Input.Spares (c : CanId) (n : String) (input : Input) : Prop :=
  Binder.NoStray c input ∧ input.setName ≠ some n

namespace Binder

section Slot

variable {d : Dict} {b b' : Binder} {c : CanId} {i : ℕ}

/-- An entry is what it was after an input that leaves it alone. -/
theorem Sane.mem_step (hd : d.WF) (h : Sane d b) (hc : c ∈ d.canidRoot)
    (hi : i < (d.info c).nData) {input : Input} (hspare : input.Spares c (d.name (.slot c i)))
    {out : List Output} (hs : b.step input = some (b', out)) :
    b'.mem (.slot c i) = b.mem (.slot c i) := by
  obtain ⟨hstray, hset⟩ := hspare
  cases input with
  | frame frame timestamp =>
    have hself : Addr.slot c i ∈ d.chain (.slot c i) := d.self_mem_chain (.slot c i)
    have hnot : ¬IsFor c frame := fun hfor => hstray.elim hfor.1 (fun hne => hne hfor.2)
    rw [← (step_frame hs).1]
    exact parseFrame_mem_of_not_isFor hd h.layout hc hi hnot timestamp hself
  | timer c sent =>
    cases hs
    rfl
  | get client event =>
    cases hs
    rfl
  | set client event value sent =>
    have hmem := @set_mem_of_name_ne d b c i hd h.layout event hset client value sent
    rwa [step_set hs] at hmem
  | list client =>
    cases hs
    rfl
  | subscribe client event answers =>
    exact congrFun (congrArg Dict.mem (subscribe_toDict hs)) _
  | unsubscribe client args answers =>
    exact congrFun (congrArg Dict.mem (unsubscribe_toDict hs)) _

/-- And after a run of them. -/
theorem Sane.mem_run (hd : d.WF) (h : Sane d b) (hc : c ∈ d.canidRoot)
    (hi : i < (d.info c).nData) {ins : List Input}
    (hspare : ∀ e ∈ ins, e.Spares c (d.name (.slot c i))) {outs : List Output}
    (hr : run b ins = some (b', outs)) :
    Sane d b' ∧ b'.mem (.slot c i) = b.mem (.slot c i) := by
  induction ins generalizing b outs with
  | nil =>
    cases hr
    exact ⟨h, rfl⟩
  | cons e ins ih =>
    obtain ⟨b₁, out, out', hs, hr', rfl⟩ := Machine.run_cons_eq_some.mp hr
    obtain ⟨hsane, hmem⟩ := ih (h.step hd hs) (fun e he => hspare e (List.mem_cons_of_mem _ he)) hr'
    exact ⟨hsane, hmem.trans (h.mem_step hd hc hi (hspare e List.mem_cons_self) hs)⟩

end Slot

/-! ## The sender -/

section Sender

variable {d : Dict} {b b' : Binder} {a : Addr}

/-- What sends a frame sends that of a registered CAN-ID. -/
theorem Transmits.exists_sendsFor (hd : d.WF) (hapart : d.TimersApart) (h : Transmits d b)
    {input : Input} {out : List Output} (hs : b.step input = some (b', out)) {f : CanFrame}
    (hf : .send f ∈ out) : ∃ c ∈ d.canidRoot, SendsFor d c input := by
  have hloud : ¬∀ o ∈ out, o.quiet = true := fun hq => Bool.false_ne_true (hq _ hf)
  by_cases hset : ∃ client event value sent, input = .set client event value sent
  · obtain ⟨client, event, value, sent, rfl⟩ := hset
    rcases set_effects h.layout (step_set hs) with hq | ⟨n, v, x, rfl, rfl, hx, -, -⟩
    · exact absurd hq hloud
    · exact ⟨_, (hd.kind_of_resolves hx).1, x, hx, rfl⟩
  · cases htimer : input.isTimer with
    | false => exact absurd (quiet_step hs htimer (fun client event value sent heq =>
        hset ⟨client, event, value, sent, heq⟩)) hloud
    | true =>
      cases input with
      | timer c sent =>
        cases hs
        unfold onTimerEvent at hf
        split_ifs at hf with hfd
        · rw [h.layout.timers, (h.layout.info_eq c).2.2.2.2] at hfd
          exact ⟨c, hapart.registered c hfd, rfl⟩
        · exact absurd hf List.not_mem_nil
      | _ => cases htimer

/-- **What goes out for a CAN-ID is the frame that is kept for it.** -/
theorem Transmits.eq_of_send (hd : d.WF) (hapart : d.TimersApart) (h : Transmits d b)
    {input : Input} {out : List Output} (hs : b.step input = some (b', out)) {f : CanFrame}
    (hf : .send f ∈ out) {c : CanId} (hfor : IsFor c f) : f = (b'.info c).canrawFrame := by
  obtain ⟨c', hc', hsends⟩ := h.exists_sendsFor hd hapart hs hf
  have heq := eq_canrawFrame_of_send h.layout hsends hs hf
  have hcc : c = c' := by
    rw [← hfor.2, heq]
    exact ((h.step hd hs).frame c' hc').2
  rw [hcc]
  exact heq

/-- **The frame that is kept has a value in the field of a property.** -/
structure Carries (d : Dict) (a : Addr) (x : BitVec 32) (b : Binder) : Prop where
  transmits : Transmits d b
  field : (d.mem a).raw (canvalue2host (b.info (d.mem a).mycanid).canrawFrame.data) = x

/-- An input that leaves the property alone leaves its field alone. -/
theorem Carries.step (hd : d.WF) (ha : a ∈ d.propertyRoot) (hown : d.OwnField a)
    {x : BitVec 32} (h : Carries d a x b) {input : Input}
    (hspare : input.Spares (d.mem a).mycanid (d.name a)) {out : List Output}
    (hs : b.step input = some (b', out)) : Carries d a x b' where
  transmits := h.transmits.step hd hs
  field := by
    have hlayout := h.transmits.layout
    rw [canrawFrame_step hlayout (hlayout.wf hd) hspare.1 hs, ← h.field]
    cases input with
    | set client event value sent =>
      cases event with
      | none => rfl
      | some m =>
        cases value with
        | none => rfl
        | some text =>
          unfold intendedStep
          dsimp only
          cases hm : d.getPropertyDict m with
          | none => rfl
          | some y =>
            dsimp only
            split_ifs with hy
            · -- another property of the CAN-ID has another field
              obtain ⟨hroot, hname⟩ := hd.getPropertyDict_eq_some_iff.mp hm
              have hne : y ≠ a := by
                rintro rfl
                exact hspare.2 (congrArg some hname.symm)
              obtain ⟨hwf, hdis⟩ := hown.apart y hroot hne hy
              exact raw_writeFrame_of_disjoint hown.wellFormed hwf hdis _ _
            · rfl
    | _ => rfl

/-- **What is sent since has the value in the field.** -/
theorem Carries.run (hd : d.WF) (hapart : d.TimersApart) (ha : a ∈ d.propertyRoot)
    (hown : d.OwnField a) {x : BitVec 32} (h : Carries d a x b) {ins : List Input}
    (hspare : ∀ e ∈ ins, e.Spares (d.mem a).mycanid (d.name a)) {outs : List Output}
    (hr : Binder.run b ins = some (b', outs)) {f : CanFrame} (hf : .send f ∈ outs)
    (hfor : IsFor (d.mem a).mycanid f) : (d.mem a).raw (canvalue2host f.data) = x := by
  induction ins generalizing b outs with
  | nil =>
    cases hr
    exact absurd hf List.not_mem_nil
  | cons e ins ih =>
    obtain ⟨b₁, out, out', hs, hr', rfl⟩ := Machine.run_cons_eq_some.mp hr
    have hnext := h.step hd ha hown (hspare e List.mem_cons_self) hs
    rcases List.mem_append.mp hf with hf | hf
    · rw [h.transmits.eq_of_send hd hapart hs hf hfor]
      exact hnext.field
    · exact ih hnext (fun e he => hspare e (List.mem_cons_of_mem _ he)) hr' hf

/-- **After a `set`**, the frame has the low bits of the value, and the property
its meaning. -/
theorem Transmits.set (hd : d.WF) (h : Transmits d b) {n : String}
    (hn : d.getPropertyDict n = some a) (hwf : (d.mem a).WellFormed) {client : Client}
    {value : String} {sent : Bool} {out : List Output}
    (htakes : (d.mem a).rejects (BitVec.ofInt 32 (CLib.strtol value 0)) = false)
    (hs : b.step (.set client (some n) (some value) sent) = some (b', out)) :
    Carries d a (lowBits (d.mem a).toPropDef (BitVec.ofInt 32 (CLib.strtol value 0))) b'
      ∧ (b'.mem a).value = (d.mem a).meaning (BitVec.ofInt 32 (CLib.strtol value 0)) := by
  have hdef := (h.layout.entry a).1
  have hstep := step_set hs
  refine ⟨⟨h.step hd hs, ?_⟩, ?_⟩
  · have hframe := canrawFrame_set h.layout (d.mem a).mycanid client (some n) (some value) sent
    rw [hstep] at hframe
    dsimp only at hframe
    rw [hframe]
    unfold intendedStep
    dsimp only
    rw [hn]
    dsimp only
    rw [if_pos rfl]
    exact raw_writeFrame hwf _ htakes
  · have hbn : b.getPropertyDict n = some a := (h.layout.getPropertyDict n).trans hn
    have hset := (set_of_resolves hbn client value sent).1
    rw [hstep] at hset
    rw [← hdef] at htakes ⊢
    rw [show b'.mem a = _ from congrFun (congrArg (fun x : Binder => x.mem) hset) a]
    show ((b.canSignalSend a _ sent).1.toDict.mem a).value = _
    rw [canSignalSend_toDict]
    show ((b.setBit a _).mem a).value = _
    rw [Dict.setBit_mem_self, property2canframe_eq_of_not_rejects _ htakes]
    exact PropDef.valueOf_decode (b.mem a).curValue htakes

end Sender

/-! ## The receiver -/

/-- **After a frame**, a property has the meaning of its field. -/
theorem Sane.value_frame {d : Dict} {b b' : Binder} {c : CanId} {i : ℕ} (hd : d.WF)
    (h : Sane d b) (hc : c ∈ d.canidRoot) (hkind : (d.info c).kind ≠ .send)
    (hi : i < (d.info c).nData) (hsingle : (d.mem (.slot c i)).next = none) {f : CanFrame}
    (hfor : IsFor c f) {timestamp : Timeval}
    (htakes : (d.mem (.slot c i)).rejects ((d.mem (.slot c i)).raw (canvalue2host f.data)) = false)
    {out : List Output} (hs : b.step (.frame f timestamp) = some (b', out)) :
    (b'.mem (.slot c i)).value
      = (d.mem (.slot c i)).meaning ((d.mem (.slot c i)).raw (canvalue2host f.data)) := by
  have hself : Addr.slot c i ∈ d.chain (.slot c i) := d.self_mem_chain (.slot c i)
  have hup := upTo_sameLayout h.layout f timestamp c i
  have hupnext : ((b.upTo f timestamp c i).mem (.slot c i)).next = none := by
    rw [(hup.entry _).2.2, hsingle]
  have hdef := (((b.upTo f timestamp c i).touches_updateProperty (canvalue2host f.data)
    (.slot c i) timestamp).sameLayout.entry (.slot c i)).1
  rw [← (step_frame hs).1]
  unfold CanBit.value
  rw [parseFrame_mem_of_isFor hd h.layout hc hkind hi hfor timestamp hself,
    Dict.updateProperty_single_curValue hupnext, hdef, (hup.entry (.slot c i)).1]
  exact PropDef.valueOf_decode _ htakes

/-- A property that is a single entry reports that entry. -/
theorem Sane.property2json_single {d : Dict} {b : Binder} (h : Sane d b) {a : Addr}
    (ha : a ∈ d.propertyRoot) (hsingle : (d.mem a).next = none) :
    b.property2json a = Dict.report (b.mem a) := by
  have hroot : a ∈ b.propertyRoot := h.layout.propertyRoot ▸ ha
  have hnext : (b.mem a).next = none := (h.layout.entry a).2.2.trans hsingle
  rw [Dict.property2json_eq h.applied hroot,
    Dict.applied_of_next_none hnext (h.applied a hroot).1]

/-- The answer to `get` is what the property reports. -/
theorem get_congr {b b' : Binder} {n : String} {a a' : Addr} (ha : b.getPropertyDict n = some a)
    (ha' : b'.getPropertyDict n = some a') (h : b'.property2json a' = b.property2json a)
    (client : Client) : b'.get client (some n) = b.get client (some n) := by
  unfold get
  dsimp only
  rw [ha, ha']
  dsimp only
  rw [h]

end Binder

/-- **A property at both ends of the bus**: of one CAN-ID, with one field, a
single entry at either end, and to receive at the second. -/
structure Dict.Facing (d : Dict) (a : Addr) (d' : Dict) (a' : Addr) : Prop where
  canid : (d'.mem a').mycanid = (d.mem a).mycanid
  field : (d.mem a).SameField (d'.mem a').toPropDef
  single : (d.mem a).next = none
  single' : (d'.mem a').next = none
  readonly : (d'.mem a').propertyKind = .readonly

namespace Binder

/-- The sender: the property has the meaning of the value that was set, and the
frames since have its low bits. -/
theorem sent_since_set {jobj : Json} {d : Dict} (hload : canDefineInit jobj = some d)
    {n : String} {a : Addr} (hn : d.getPropertyDict n = some a) (hown : d.OwnField a)
    {ins ins₁ : List Input} {b b₁ : Binder} {outs outs₁ : List Output}
    (hrun : run (start d) ins = some (b, outs)) {client : Client} {value : String} {sent : Bool}
    (hrun₁ : run b (.set client (some n) (some value) sent :: ins₁) = some (b₁, outs₁))
    (hspare : ∀ e ∈ ins₁, e.Spares (d.mem a).mycanid n)
    (htakes : (d.mem a).rejects (BitVec.ofInt 32 (CLib.strtol value 0)) = false) :
    Sane d b₁ ∧ (b₁.mem a).value = (d.mem a).meaning (BitVec.ofInt 32 (CLib.strtol value 0))
      ∧ ∀ f, .send f ∈ outs₁ → IsFor (d.mem a).mycanid f →
        (d.mem a).raw (canvalue2host f.data)
          = lowBits (d.mem a).toPropDef (BitVec.ofInt 32 (CLib.strtol value 0)) := by
  have hsound := (Dict.registered_of_canDefineInit hload).sound
  have hd := hsound.wf
  obtain ⟨cs, -, hconf⟩ := Dict.configured_of_canDefineInit hload
  obtain ⟨s, hdrawn⟩ := Dict.exists_drawn hload
  obtain ⟨hroot, rfl⟩ := hd.getPropertyDict_eq_some_iff.mp hn
  have htransmits : Transmits d b := Machine.run_invariant (fun x => Transmits d x)
    (fun _ _ _ _ hx _ hs => hx.step hd hs) (transmits_start hconf)
    (Machine.meets_of_forall (fun _ _ => trivial) _ ins) hrun
  obtain ⟨b₀, out, out', hset, hrest, rfl⟩ := Machine.run_cons_eq_some.mp hrun₁
  obtain ⟨hcarries, hvalue⟩ := htransmits.set hd hn hown.wellFormed htakes hset
  obtain ⟨c, hc, i, hi, rfl⟩ := hd.slot a hroot
  have hcspare : ∀ e ∈ ins₁, e.Spares c (d.name (.slot c i)) := by
    rwa [hd.mycanid c hc i hi] at hspare
  obtain ⟨hsane, hmem⟩ := ((sane_run hsound hrun).step hd hset).mem_run hd hc hi hcspare hrest
  refine ⟨hsane, by rw [hmem, hvalue], fun f hf hfor => ?_⟩
  rcases List.mem_append.mp hf with hf | hf
  · rw [htransmits.eq_of_send hd hdrawn.timersApart hset hf hfor]
    exact hcarries.field
  · exact hcarries.run hd hdrawn.timersApart hroot hown hspare hrest hf hfor

/-- The receiver: the property has the meaning of the frame that came in last. -/
theorem received_last {jobj : Json} {d : Dict} (hload : canDefineInit jobj = some d)
    {n : String} {a : Addr} (hn : d.getPropertyDict n = some a)
    (hsingle : (d.mem a).next = none) (hkind : (d.mem a).propertyKind ≠ .send)
    {ins ins₁ : List Input} {b b₁ : Binder} {outs outs₁ : List Output}
    (hrun : run (start d) ins = some (b, outs)) {f : CanFrame} {timestamp : Timeval}
    (hfor : IsFor (d.mem a).mycanid f)
    (hrun₁ : run b (.frame f timestamp :: ins₁) = some (b₁, outs₁))
    (hspare : ∀ e ∈ ins₁, e.Spares (d.mem a).mycanid n)
    (htakes : (d.mem a).rejects ((d.mem a).raw (canvalue2host f.data)) = false) :
    Sane d b₁
      ∧ (b₁.mem a).value = (d.mem a).meaning ((d.mem a).raw (canvalue2host f.data)) := by
  have hsound := (Dict.registered_of_canDefineInit hload).sound
  have hd := hsound.wf
  obtain ⟨hroot, rfl⟩ := hd.getPropertyDict_eq_some_iff.mp hn
  obtain ⟨c, hc, i, hi, rfl⟩ := hd.slot a hroot
  have hmy := hd.mycanid c hc i hi
  rw [hmy] at hfor hspare
  rw [hd.kind c hc i hi] at hkind
  obtain ⟨b₀, out, out', hframe, hrest, rfl⟩ := Machine.run_cons_eq_some.mp hrun₁
  have hsane := sane_run hsound hrun
  obtain ⟨hsane₁, hmem⟩ := (hsane.step hd hframe).mem_run hd hc hi hspare hrest
  refine ⟨hsane₁, ?_⟩
  rw [hmem]
  exact hsane.value_frame hd hc hkind hi hsingle hfor htakes hframe

/-- **What is set in one binding is read in the other**: from whatever states,
if a value that fits its field is set at one end, and a frame that was sent for
the CAN-ID since is the last one for it that came in at the other, then `get`
gives the same answer at both. After the `set` the sender receives no frame for
the CAN-ID, and neither end is asked to set the property. -/
theorem set_arrives {jobj jobj' : Json} {d d' : Dict} (hload : canDefineInit jobj = some d)
    (hload' : canDefineInit jobj' = some d') {n : String} {a a' : Addr}
    (hn : d.getPropertyDict n = some a) (hn' : d'.getPropertyDict n = some a')
    (hfacing : d.Facing a d' a') (hown : d.OwnField a) (harray : (d.mem a).varType ≠ .array)
    {ins ins₁ : List Input} {b b₁ : Binder} {outs outs₁ : List Output}
    (hrun : run (start d) ins = some (b, outs)) {client : Client} {value : String} {sent : Bool}
    (hrun₁ : run b (.set client (some n) (some value) sent :: ins₁) = some (b₁, outs₁))
    (hspare : ∀ e ∈ ins₁, e.Spares (d.mem a).mycanid n)
    (htakes : (d.mem a).rejects (BitVec.ofInt 32 (CLib.strtol value 0)) = false)
    (hfits : (d.mem a).FitsField (BitVec.ofInt 32 (CLib.strtol value 0)))
    {f : CanFrame} (hf : .send f ∈ outs₁) (hfor : IsFor (d.mem a).mycanid f)
    {ins' ins₂ : List Input} {b' b₂ : Binder} {outs' outs₂ : List Output} {timestamp : Timeval}
    (hrun' : run (start d') ins' = some (b', outs'))
    (hrun₂ : run b' (.frame f timestamp :: ins₂) = some (b₂, outs₂))
    (hspare' : ∀ e ∈ ins₂, e.Spares (d.mem a).mycanid n) (client' : Client) :
    b₂.get client' (some n) = b₁.get client' (some n) := by
  obtain ⟨hsane, hvalue, hfield⟩ := sent_since_set hload hn hown hrun hrun₁ hspare htakes
  have hraw := (hfacing.field.raw _).trans (hfield f hf hfor)
  have hlow := toNat_and_canMask64 (d.mem a).toPropDef (BitVec.ofInt 32 (CLib.strtol value 0))
  have htakes' := PropDef.rejects_of_le htakes (hlow.trans_le (Nat.mod_le _ _))
  obtain ⟨hsane', hvalue'⟩ := received_last hload' hn' hfacing.single'
    (by rw [hfacing.readonly]; exact CanPropertyKind.noConfusion) hrun' (hfacing.canid ▸ hfor)
    hrun₂ (hfacing.canid ▸ hspare')
    (by rw [hfacing.field.rejects, hraw]; exact htakes')
  -- the low bits of a value that fits mean what the value does
  have hmeaning := (PropDef.fitsField_iff htakes hlow).mp hfits
  have hboth : (b₂.mem a').value = (b₁.mem a).value := by
    rw [hvalue', hraw, hfacing.field.meaning, hvalue]
    exact hmeaning
  have hd := (Dict.registered_of_canDefineInit hload).sound.wf
  have hd' := (Dict.registered_of_canDefineInit hload').sound.wf
  have hroot := (hd.getPropertyDict_eq_some_iff.mp hn).1
  have hroot' := (hd'.getPropertyDict_eq_some_iff.mp hn').1
  have hdef := (hsane.layout.entry a).1
  have hdef' := (hsane'.layout.entry a').1
  refine get_congr ((hsane.layout.getPropertyDict n).trans hn)
    ((hsane'.layout.getPropertyDict n).trans hn') ?_ client'
  rw [hsane.property2json_single hroot hfacing.single,
    hsane'.property2json_single hroot' hfacing.single']
  exact report_eq_of_value (by rw [hdef, hdef']; exact hfacing.field) (by rw [hdef]; exact harray)
    hboth

/-- The lamp at the other end of the bus. -/
def lampReceiver : Json :=
  configFile [("200", configCanid "CAN_THINOUT_NON" 0 [configData "lamp" "bool" 1 0 1])] []

/-- The frame that switches it on. -/
def lampFrame : CanFrame := ⟨0x200#32, 8#8, ![1#8, 0#8, 0#8, 0#8, 0#8, 0#8, 0#8, 0#8]⟩

theorem set_arrives_sample :
    ∃ d d' b₁ b₂ outs₁ outs₂, canDefineInit sampleConfig = some d
      ∧ canDefineInit lampReceiver = some d'
      ∧ run (start d) [lampOn] = some (b₁, outs₁) ∧ .send lampFrame ∈ outs₁
      ∧ run (start d') [.frame lampFrame ⟨0, 0⟩] = some (b₂, outs₂)
      ∧ b₂.get 1 (some "lamp") = b₁.get 1 (some "lamp") := by
  have hsender : (canDefineInit sampleConfig).map (fun d =>
      (d.getPropertyDict "lamp", d.mem (.slot 0x200#16 0),
        d.propertyRoot.all (fun x => x = .slot 0x200#16 0 ∨ (d.mem x).mycanid ≠ 0x200#16),
        (run (start d) [lampOn]).map (fun r => r.2.filterMap sentFrame)))
      = some (some (.slot 0x200#16 0), lamp, true, some [lampFrame]) := by
    decide
  have hreceiver : (canDefineInit lampReceiver).map (fun d =>
      (d.getPropertyDict "lamp", d.mem (.slot 0x200#16 0),
        (run (start d) [.frame lampFrame ⟨0, 0⟩]).isSome))
      = some (some (.slot 0x200#16 0), { lamp with propertyKind := .readonly }, true) := by
    decide
  obtain ⟨d, hd, hfacts⟩ := Option.map_eq_some_iff.mp hsender
  obtain ⟨d', hd', hfacts'⟩ := Option.map_eq_some_iff.mp hreceiver
  obtain ⟨hn, hfacts⟩ := Prod.mk.inj hfacts
  obtain ⟨hmem, hfacts⟩ := Prod.mk.inj hfacts
  obtain ⟨hothers, hrun⟩ := Prod.mk.inj hfacts
  obtain ⟨hn', hfacts'⟩ := Prod.mk.inj hfacts'
  obtain ⟨hmem', hsome⟩ := Prod.mk.inj hfacts'
  obtain ⟨⟨b₁, outs₁⟩, hrun₁, hsent⟩ := Option.map_eq_some_iff.mp hrun
  obtain ⟨⟨b₂, outs₂⟩, hrun₂⟩ := Option.isSome_iff_exists.mp hsome
  have hmy : (d.mem (.slot 0x200#16 0)).mycanid = 0x200#16 := by
    rw [hmem]
    rfl
  have hsend : .send lampFrame ∈ outs₁ := by
    have hin : lampFrame ∈ outs₁.filterMap sentFrame := by
      rw [hsent]
      exact List.mem_cons_self
    obtain ⟨o, ho, hof⟩ := List.mem_filterMap.mp hin
    cases o <;> cases hof
    exact ho
  have hown : d.OwnField (.slot 0x200#16 0) := by
    refine ⟨hmem ▸ lamp_wellFormed, fun x hx hne hmx => ?_⟩
    have hx' := of_decide_eq_true (List.all_eq_true.mp hothers x hx)
    exact absurd (hmx.trans hmy) (hx'.resolve_left hne)
  have hfacing : d.Facing (.slot 0x200#16 0) d' (.slot 0x200#16 0) := {
    canid := (congrArg CanBit.mycanid hmem').trans hmy.symm
    field := by
      rw [hmem, hmem']
      rfl
    single := congrArg CanBit.next hmem
    single' := congrArg CanBit.next hmem'
    readonly := congrArg (fun p => p.toPropDef.propertyKind) hmem' }
  refine ⟨d, d', b₁, b₂, outs₁, outs₂, hd, hd', hrun₁, hsend, hrun₂, ?_⟩
  refine set_arrives hd hd' hn hn' hfacing hown ?_ (Machine.run_nil _) hrun₁
    (fun _ he => absurd he List.not_mem_nil) ?_ ?_ hsend ?_ (Machine.run_nil _) hrun₂
    (fun _ he => absurd he List.not_mem_nil) 1
  · rw [hmem]
    decide
  · rw [hmem]
    decide
  · rw [hmem]
    exact Or.inr (Or.inr (by decide))
  · rw [hmy]
    decide

end Binder
