import CanBinder.Membership
import CanBinder.SetReply
import CanBinder.SignalUpdate
import CanBinder.Simulation

/-!
# The binding is a server of signals

The server a state of the binding comes to (`Binder.server`) has a channel
for each CAN-ID, with the signals of its array; the names and what they
resolve to; and the clients of each event. The descriptors, trees, handles
and pointers are gone, and so is the receive filter.

Every input does to the server of a state what `Server.step` does
(`Binder.Follows.server_step`), with the same outputs, so a run of the binding is a
run of the server (`Binder.Follows.server_run`): the binding answers if and only if
the server does, and the parties outside cannot tell one from the other.
-/

namespace Dict

/-- The channel of a CAN-ID. -/
def channel (d : Dict) (c : CanId) : Channel where
  kind := (d.info c).kind
  cycle := (d.info c).cycle
  frame := (d.info c).canrawFrame
  timer := d.updateSendTimer c
  signals := (List.range (d.info c).nData).map (fun i => d.signalAt (.slot c i))

/-- What a name resolves to, as a place in a channel. -/
def place (d : Dict) (name : String) : Option (CanId × ℕ) :=
  match d.getPropertyDict name with
  | some (.slot c i) => some (c, i)
  | _ => none

/-- A signal is what it was where the entries of its chain are. -/
theorem signalAt_congr {d d' : Dict} {a : Addr} (h : SameLayout d d')
    (hmem : ∀ x ∈ d.chain a, d'.mem x = d.mem x) : d'.signalAt a = d.signalAt a := by
  have ha := hmem a (d.self_mem_chain a)
  refine signalAt_eq h (List.map_congr_left (fun x hx => ?_)) ?_ ?_
  · rw [entryAt, hmem x hx]
    rfl
  · rw [ha]
    rfl
  · rw [ha]
    rfl

/-- **A CAN-ID that is not registered has no entries.** -/
theorem Registered.nData_eq_zero {d : Dict} (h : Registered d) {c : CanId}
    (hc : c ∉ d.canidRoot) : (d.info c).nData = 0 := by
  induction h with
  | empty => rfl
  | @add d d' x ret hreg heq ih =>
    rcases hreg.sound.addCANIDDict_cases x with
      ⟨-, heq'⟩ | ⟨hx, d₁, m, heq', -, hinfo, hroot, -, -⟩
    · cases heq'.symm.trans heq
      exact ih hc
    · cases heq'.symm.trans heq
      rw [hroot, mem_canidRoot_install hx, not_or] at hc
      rw [hinfo, Function.update_of_ne hc.1]
      exact ih hc.2
  | timer _ x ih =>
    rw [addSendTimer_nData]
    exact ih hc

end Dict

namespace Binder

/-- Who listens to what: the clients of the events. -/
def audience (b : Binder) : Audience :=
  fun n => (b.getEvent n).map (fun event => b.clients event.event.closure)

/-- **The server of a state.** -/
def server (b : Binder) : Server where
  canids := b.canidWalker
  channels := b.channel
  resolve := b.place
  supported := b.getSupportPropertiesList
  audience := b.audience
  canSendfd := b.canSendfd

/-! ## The audience -/

theorem audience_of_some {b : Binder} {n : String} {event : BindEvent}
    (h : b.getEvent n = some event) : b.audience n = some (b.clients event.event.closure) := by
  rw [audience, h]
  rfl

theorem audience_of_none {b : Binder} {n : String} (h : b.getEvent n = none) :
    b.audience n = none := by
  rw [audience, h]
  rfl

/-- The clients of a name are what they were where its event has those it
had. -/
theorem audience_congr {b b' : Binder} {n : String} (hget : b'.getEvent n = b.getEvent n)
    (hclients : ∀ event, b.getEvent n = some event →
      b'.clients event.event.closure = b.clients event.event.closure) :
    b'.audience n = b.audience n := by
  cases hev : b.getEvent n with
  | none => rw [audience_of_none hev, audience_of_none (hget.trans hev)]
  | some event =>
    rw [audience_of_some hev, audience_of_some (hget.trans hev), hclients event hev]

/-- **Removing an event** closes its name and no other. -/
theorem EventsWF.audience_removeEvent {b : Binder} (h : b.EventsWF) (name : String) :
    (b.removeEvent name).1.audience = Function.update b.audience name none := by
  unfold Binder.removeEvent
  cases hev : b.getEvent name with
  | none => exact (Function.update_eq_self_iff.mpr (audience_of_none hev).symm).symm
  | some event =>
    funext n
    have hget := SearchTree.tfind_tdelete h.tree name n
    by_cases hn : n = name
    · subst hn
      rw [if_pos rfl] at hget
      rw [Function.update_self]
      exact audience_of_none hget
    · rw [if_neg hn] at hget
      rw [Function.update_of_ne hn]
      exact audience_congr hget
        (fun event' hev' => Function.update_of_ne (h.handle_ne hev hev' hn) _ _)

/-- **Registering an event** opens its name, to nobody. -/
theorem EventsWF.audience_registerEvent {b b' : Binder} (h : b.EventsWF)
    {answers : DaemonAnswers} {name : String} {event : BindEvent}
    (hnone : b.getEvent name = none) (hr : b.registerEvent answers name = some (b', event)) :
    b'.audience = Function.update b.audience name (some []) := by
  have hev := (h.registerEvent hnone hr).2
  funext n
  by_cases hn : n = name
  · obtain ⟨a, -, rfl, rfl⟩ := registerEvent_eq_some hr
    have hclients : (Function.update b.clients b.nextEvent []) b.nextEvent = [] :=
      Function.update_self ..
    rw [hn, Function.update_self, audience_of_some hev]
    exact congrArg some hclients
  · obtain ⟨hget, hclients⟩ := h.registerEvent_of_ne hnone hr hn
    rw [Function.update_of_ne hn]
    exact audience_congr hget hclients

/-- A change of the clients of one event. -/
theorem EventsWF.audience_update {b b' : Binder} (h : b.EventsWF) {name : String}
    {event : BindEvent} (hev : b.getEvent name = some event)
    (hroot : b'.bindEventRoot = b.bindEventRoot) {cl : List Client}
    (hcl : b'.clients = Function.update b.clients event.event.closure cl) :
    b'.audience = Function.update b.audience name (some cl) := by
  have hget : ∀ n, b'.getEvent n = b.getEvent n := fun n => by
    unfold getEvent
    rw [hroot]
  funext n
  by_cases hn : n = name
  · rw [hn, Function.update_self, audience_of_some ((hget name).trans hev), hcl,
      Function.update_self]
  · rw [Function.update_of_ne hn]
    refine audience_congr (hget n) (fun event' hev' => ?_)
    rw [hcl, Function.update_of_ne (h.handle_ne hev hev' hn)]

/-- **The daemon takes a client.** -/
theorem EventsWF.audience_afbReqSubscribe {b : Binder} (h : b.EventsWF) {name : String}
    {event : BindEvent} (hev : b.getEvent name = some event) (client : Client) :
    (b.afbReqSubscribe client event.event).audience = b.audience.join client name := by
  have hroot : (b.afbReqSubscribe client event.event).bindEventRoot = b.bindEventRoot := rfl
  refine (h.audience_update hev hroot rfl).trans ?_
  unfold Audience.join
  rw [audience_of_some hev]
  rfl

/-- **The daemon lets a client go.** -/
theorem EventsWF.audience_afbReqUnsubscribe {b : Binder} (h : b.EventsWF) {name : String}
    {event : BindEvent} (hev : b.getEvent name = some event) (client : Client) :
    (b.afbReqUnsubscribe client event.event).audience = b.audience.leave client name := by
  have hroot : (b.afbReqUnsubscribe client event.event).bindEventRoot = b.bindEventRoot := rfl
  refine (h.audience_update hev hroot rfl).trans ?_
  unfold Audience.leave
  rw [audience_of_some hev]
  rfl

/-- **A notification is a publication** under the name of the entry. -/
theorem EventsWF.audience_notify {b : Binder} (h : b.EventsWF) (a : Addr) :
    let p := b.audience.publish (b.name a) (b.property2json a)
    (b.notifyPropertyChanged a).1.audience = p.1 ∧ (b.notifyPropertyChanged a).2 = p.2 := by
  unfold Audience.publish
  rcases h.notify_cases a with ⟨hev, heq⟩ | ⟨event, hev, ⟨hcl, heq⟩ | ⟨hcl, heq⟩⟩
  · rw [heq, audience_of_none hev]
    exact ⟨rfl, rfl⟩
  · rw [heq, audience_of_some hev]
    cases hlist : b.clients event.event.closure with
    | nil => exact absurd hlist hcl
    | cons c cl => exact ⟨rfl, rfl⟩
  · have hremove : (b.removeEvent (b.name a)).2 = [.drop (b.name a)] := by
      unfold Binder.removeEvent
      rw [hev]
      exact congrArg (fun n => [Output.drop n]) (h.getEvent_eq_some_iff.mp hev).2
    rw [heq, audience_of_some hev, hcl, h.audience_removeEvent, hremove]
    exact ⟨rfl, rfl⟩

/-! ## States that follow the configuration -/

/-- **What holds of every state of a run**: the registry is in order, and the
applied entries are of their chains. -/
structure Follows (d : Dict) (b : Binder) : Prop where
  sane : Sane d b
  applies : d.Applies b.toDict

theorem follows_start {d : Dict} (hp : d.Pristine) : Follows d (start d) :=
  ⟨sane_start hp, runRelation_applies.refl d⟩

section Follows

variable {d : Dict} {b : Binder}

theorem Follows.step (hd : d.WF) (h : Follows d b) {b' : Binder} {input : Input}
    {out : List Output} (hs : b.step input = some (b', out)) : Follows d b' :=
  ⟨h.sane.step hd hs, h.applies.trans (runRelation_applies.step hs)⟩

/-- The slots in use are in order. -/
theorem Follows.orderly (hd : d.WF) (hp : d.Pristine) (h : Follows d b) {c : CanId}
    (hc : c ∈ b.canidRoot) {i : ℕ} (hi : i < (b.info c).nData) : b.Orderly (.slot c i) :=
  h.applies.orderly hd hp hc hi

/-- After a frame and one slot. -/
theorem Follows.updateIviproperty (hd : d.WF) (h : Follows d b) (canV64 : BitVec 64) (c : CanId)
    (i : ℕ) (timestamp : Timeval) :
    Follows d (b.updateIviproperty canV64 (.slot c i) timestamp).1 := by
  refine ⟨h.sane.updateIviproperty hd canV64 c i timestamp, ?_⟩
  rw [updateIviproperty_toDict]
  exact h.applies.trans (runRelation_applies.update b.toDict canV64 c i timestamp)

/-- **A frame and one slot**: the signal of the slot receives the frame, and is
published if it is to be shown. -/
theorem Follows.update_signal (hd : d.WF) (hp : d.Pristine) (h : Follows d b) {c : CanId}
    (hc : c ∈ b.canidRoot) {i : ℕ} (hi : i < (b.info c).nData) (canV64 : BitVec 64)
    (timestamp : Timeval) :
    let u := b.updateIviproperty canV64 (.slot c i) timestamp
    let r := (b.signalAt (.slot c i)).receive (b.info c).cycle canV64 timestamp
    let p := if r.2 then b.audience.publish r.1.name r.1.value else (b.audience, [])
    u.1.signalAt (.slot c i) = r.1 ∧ u.1.audience = p.1 ∧ u.2.1 = p.2 := by
  have hb := h.sane.layout.wf hd
  have horder := h.orderly hd hp hc hi
  obtain ⟨hsignal, hnotifies⟩ := horder.update canV64 timestamp
  rw [hb.mycanid c hc i hi] at hsignal hnotifies
  have hsignal' : (b.updateIviproperty canV64 (.slot c i) timestamp).1.signalAt (.slot c i)
      = ((b.signalAt (.slot c i)).receive (b.info c).cycle canV64 timestamp).1 := by
    rw [← hsignal, ← updateIviproperty_toDict]
  refine ⟨hsignal', ?_⟩
  rw [← hnotifies]
  cases hn : b.notifies canV64 (.slot c i) timestamp with
  | false =>
    obtain ⟨hstate, hout⟩ := updateIviproperty_of_not_notifies hn
    rw [hstate, hout]
    exact ⟨rfl, rfl⟩
  | true =>
    obtain ⟨hstate, hout⟩ := updateIviproperty_of_notifies hn
    have hdec := h.sane.decodedInto hd canV64 c i timestamp
    have horder' : (b.decodedInto canV64 (.slot c i) timestamp).Orderly (.slot c i) := by
      have happ := h.applies.trans (runRelation_applies.update b.toDict canV64 c i timestamp)
      have hlayout := (b.toDict.touches_updateProperty canV64 (.slot c i) timestamp).sameLayout
      refine happ.orderly hd hp (hlayout.canidRoot ▸ hc) ?_
      rw [(hlayout.info_eq c).2.1]
      exact hi
    have hsignal'' : (b.decodedInto canV64 (.slot c i) timestamp).signalAt (.slot c i)
        = ((b.signalAt (.slot c i)).receive (b.info c).cycle canV64 timestamp).1 := hsignal
    have hpub := hdec.events.audience_notify (.slot c i)
    rw [horder'.value, hsignal'', ← Dict.name_signalAt, hsignal''] at hpub
    rw [hstate, hout, if_pos rfl]
    exact hpub

/-- The signals of the other slots are what they were. -/
theorem Follows.signal_of_ne (hd : d.WF) (h : Follows d b) {c c' : CanId}
    (hc : c ∈ b.canidRoot) (hc' : c' ∈ b.canidRoot) {i : ℕ} (hi : i < (b.info c).nData)
    {slots : List ℕ} (hslots : ∀ j ∈ slots, j < (b.info c').nData ∧ Addr.slot c i ≠ .slot c' j)
    (canV64 : BitVec 64) (timestamp : Timeval) :
    (parseCandata canV64 c' timestamp slots b).1.signalAt (.slot c i)
      = b.signalAt (.slot c i) :=
  Dict.signalAt_congr (runRelation_sameLayout.parseCandata canV64 c' timestamp slots b)
    (fun _ hx => parseCandata_mem (h.sane.layout.wf hd) (Dict.SameLayout.refl b.toDict) hc hi hc'
      hslots canV64 timestamp hx)

/-- The update of a slot changes no CAN-ID. -/
theorem updateIviproperty_info (b : Binder) (canV64 : BitVec 64) (a : Addr)
    (timestamp : Timeval) :
    (b.updateIviproperty canV64 a timestamp).1.info = b.info
      ∧ (b.updateIviproperty canV64 a timestamp).1.canidRoot = b.canidRoot := by
  have htouch := b.toDict.touches_updateProperty canV64 a timestamp
  have hdict := b.updateIviproperty_toDict canV64 a timestamp
  refine ⟨?_, ?_⟩
  · show (b.updateIviproperty canV64 a timestamp).1.toDict.info = _
    rw [hdict, htouch.info_eq]
  · show (b.updateIviproperty canV64 a timestamp).1.toDict.canidRoot = _
    rw [hdict, htouch.sameLayout.canidRoot]

/-- **A frame and the slots of an array**: their signals receive it in turn. -/
theorem Follows.receive_signals (hd : d.WF) (hp : d.Pristine) (canV64 : BitVec 64) {c : CanId}
    (timestamp : Timeval) {slots : List ℕ} (hnd : slots.Nodup) (h : Follows d b)
    (hc : c ∈ b.canidRoot) (hslots : ∀ i ∈ slots, i < (b.info c).nData) :
    let u := parseCandata canV64 c timestamp slots b
    let r := receiveSignals (b.info c).cycle canV64 timestamp
      (slots.map (fun i => b.signalAt (.slot c i))) b.audience
    slots.map (fun i => u.1.signalAt (.slot c i)) = r.1
      ∧ u.1.audience = r.2.1 ∧ u.2 = r.2.2 := by
  induction slots generalizing b with
  | nil => exact ⟨rfl, rfl, rfl⟩
  | cons i slots ih =>
    obtain ⟨hi, hnd'⟩ := List.nodup_cons.mp hnd
    have hin := hslots i List.mem_cons_self
    obtain ⟨hsignal, haud, hout⟩ := h.update_signal hd hp hc hin canV64 timestamp
    have hfollow := h.updateIviproperty hd canV64 c i timestamp
    obtain ⟨hinfo, hroot⟩ := b.updateIviproperty_info canV64 (.slot c i) timestamp
    have hother : slots.map (fun j =>
        (b.updateIviproperty canV64 (.slot c i) timestamp).1.signalAt (.slot c j))
        = slots.map (fun j => b.signalAt (.slot c j)) :=
      List.map_congr_left (fun j hj => by
        have hone : ∀ k ∈ [i], k < (b.info c).nData ∧ Addr.slot c j ≠ .slot c k := fun k hk => by
          rw [List.mem_singleton.mp hk]
          exact ⟨hin, fun heq => hi ((Addr.slot.inj heq).2 ▸ hj)⟩
        exact h.signal_of_ne hd hc hc (hslots j (List.mem_cons_of_mem i hj)) hone canV64
          timestamp)
    have hrest := ih hnd' hfollow (hroot ▸ hc)
      (fun j hj => by rw [hinfo]; exact hslots j (List.mem_cons_of_mem i hj))
    rw [hother, hinfo, haud] at hrest
    obtain ⟨hsignals, haud', hout'⟩ := hrest
    -- the slots after it leave the signal of the first one alone
    have hkeep : (parseCandata canV64 c timestamp slots
          (b.updateIviproperty canV64 (.slot c i) timestamp).1).1.signalAt (.slot c i)
        = (b.updateIviproperty canV64 (.slot c i) timestamp).1.signalAt (.slot c i) := by
      refine hfollow.signal_of_ne hd (hroot ▸ hc) (hroot ▸ hc) (by rw [hinfo]; exact hin)
        (fun j hj => ?_) canV64 timestamp
      rw [hinfo]
      exact ⟨hslots j (List.mem_cons_of_mem i hj), fun heq => hi ((Addr.slot.inj heq).2 ▸ hj)⟩
    rw [parseCandata_cons]
    dsimp only
    refine ⟨?_, haud', ?_⟩
    · rw [List.map_cons, hkeep, hsignal, hsignals]
      rfl
    · rw [hout, hout']
      rfl

/-! ## The socket stays open -/

theorem removeEvent_canSendfd (b : Binder) (name : String) :
    (b.removeEvent name).1.canSendfd = b.canSendfd := by
  unfold removeEvent
  split <;> rfl

theorem notifyPropertyChanged_canSendfd (b : Binder) (a : Addr) :
    (b.notifyPropertyChanged a).1.canSendfd = b.canSendfd := by
  unfold notifyPropertyChanged
  split
  · rfl
  · dsimp only
    split_ifs
    · exact removeEvent_canSendfd b _
    · rfl
    · rfl

theorem updateIviproperty_canSendfd (b : Binder) (canV64 : BitVec 64) (a : Addr)
    (timestamp : Timeval) :
    (b.updateIviproperty canV64 a timestamp).1.canSendfd = b.canSendfd := by
  unfold updateIviproperty
  split
  · rfl
  · dsimp only
    split_ifs
    · exact notifyPropertyChanged_canSendfd _ a
    · rfl

theorem parseCandata_canSendfd (canV64 : BitVec 64) (c : CanId) (timestamp : Timeval)
    (slots : List ℕ) (b : Binder) :
    (parseCandata canV64 c timestamp slots b).1.canSendfd = b.canSendfd := by
  induction slots generalizing b with
  | nil => rfl
  | cons i slots ih =>
    rw [parseCandata_cons]
    exact (ih _).trans (updateIviproperty_canSendfd b canV64 _ timestamp)

/-! ## The inputs -/

/-- A change of the events alone. -/
theorem server_of_toDict_eq {b b' : Binder} (h : b'.toDict = b.toDict)
    (hfd : b'.canSendfd = b.canSendfd) :
    b'.server = { b.server with audience := b'.audience } := by
  unfold server
  rw [hfd, show b'.channel = b.channel from congrArg Dict.channel h,
    show b'.place = b.place from congrArg Dict.place h,
    show b'.canidWalker = b.canidWalker from congrArg Dict.canidWalker h,
    show b'.getSupportPropertiesList = b.getSupportPropertiesList from
      congrArg Dict.getSupportPropertiesList h]

/-- The timer of a CAN-ID is part of the layout. -/
theorem updateSendTimer_of_sameLayout {d d' : Dict} (h : d.SameLayout d') (c : CanId) :
    d'.updateSendTimer c = d.updateSendTimer c := by
  unfold Dict.updateSendTimer
  rw [(h.info_eq c).2.2.2.2, h.timers]

/-- **A frame kept in its CAN-ID.** -/
theorem server_keepFrame (b : Binder) (c : CanId) (f : CanFrame) :
    (b.keepFrame c f).server = b.server.setChannel c { b.channel c with frame := f } := by
  have hlayout := Dict.sameLayout_setInfo b.toDict c f
  have hchannel : (b.keepFrame c f).channel
      = Function.update b.channel c { b.channel c with frame := f } := by
    funext x
    have htimer := updateSendTimer_of_sameLayout hlayout x
    by_cases hx : x = c
    · subst hx
      rw [Function.update_self]
      unfold Dict.channel keepFrame
      rw [htimer, Dict.setInfo_info_self]
      rfl
    · rw [Function.update_of_ne hx]
      unfold Dict.channel keepFrame
      rw [htimer, Dict.setInfo_info_of_ne _ hx]
      rfl
  unfold server Server.setChannel
  rw [hchannel]
  rfl

theorem Follows.nData_eq_zero (hd : d.Registered) (h : Follows d b) {x : CanId}
    (hx : x ∉ b.canidRoot) : (b.info x).nData = 0 := by
  rw [(h.sane.layout.info_eq x).2.1]
  exact hd.nData_eq_zero (h.sane.layout.canidRoot ▸ hx)

/-- **The state after a frame was decoded into an array**: the signals of one
channel are new, and the audience. -/
theorem Follows.server_parseCandata (hd : d.Registered) (h : Follows d b) (canV64 : BitVec 64)
    {c : CanId} (hc : c ∈ b.canidRoot) (timestamp : Timeval) :
    let u := parseCandata canV64 c timestamp (List.range (b.info c).nData) b
    u.1.server = { b.server.setChannel c { b.channel c with
        signals := (List.range (b.info c).nData).map (fun i => u.1.signalAt (.slot c i)) } with
      audience := u.1.audience } := by
  have hlayout := runRelation_sameLayout.parseCandata canV64 c timestamp
    (List.range (b.info c).nData) b
  have hinfo := parseCandata_info canV64 c timestamp (List.range (b.info c).nData) b
  have hfd := parseCandata_canSendfd canV64 c timestamp (List.range (b.info c).nData) b
  have hother : ∀ x, x ≠ c → (List.range (b.info x).nData).map (fun i => (parseCandata canV64 c
        timestamp (List.range (b.info c).nData) b).1.signalAt (.slot x i))
      = (List.range (b.info x).nData).map (fun i => b.signalAt (.slot x i)) := fun x hx => by
    by_cases hxr : x ∈ b.canidRoot
    · refine List.map_congr_left (fun i hi => h.signal_of_ne hd.sound.wf hxr hc
        (List.mem_range.mp hi)
        (fun j hj => ⟨List.mem_range.mp hj, fun heq => hx (Addr.slot.inj heq).1⟩) canV64 timestamp)
    · rw [h.nData_eq_zero hd hxr]
      rfl
  dsimp only
  generalize (parseCandata canV64 c timestamp (List.range (b.info c).nData) b).1 = b' at *
  have hchannel : b'.channel = Function.update b.channel c { b.channel c with
      signals := (List.range (b.info c).nData).map (fun i => b'.signalAt (.slot c i)) } := by
    funext x
    have htimer := updateSendTimer_of_sameLayout hlayout x
    by_cases hx : x = c
    · subst hx
      rw [Function.update_self]
      unfold Dict.channel
      rw [htimer, hinfo]
    · rw [Function.update_of_ne hx]
      unfold Dict.channel
      rw [htimer, hinfo, hother x hx]
  have hplace : b'.place = b.place := by
    funext n
    unfold Dict.place
    rw [hlayout.getPropertyDict]
  unfold server Server.setChannel Dict.canidWalker Dict.getSupportPropertiesList
  rw [hchannel, hplace, hfd, hlayout.canidRoot, hlayout.supportPropertyList]

/-- **A frame is a frame of the server.** -/
theorem Follows.server_frame (hd : d.Registered) (h : Follows d b) (f : CanFrame)
    (timestamp : Timeval) :
    ((b.parseFrame f timestamp).1.server, (b.parseFrame f timestamp).2.1)
      = b.server.frame f timestamp := by
  have hb := h.sane.layout.wf hd.sound.wf
  rcases parseFrame_cases hb (Dict.SameLayout.refl b.toDict) f timestamp with
    ⟨hno, heq⟩ | ⟨c, hc, hfor, ⟨hkind, heq⟩ | ⟨hkind, heq⟩⟩
  · rw [heq, Server.frame_of_not_isFor hno]
  · rw [heq, Server.frame_of_send hc hfor hkind, server_keepFrame]
    rfl
  · have hkept : Follows d (b.keepFrame c f) :=
      ⟨h.sane.setFrame c f, h.applies.trans (runRelation_applies.frame b.toDict c f)⟩
    have hdata : ((b.keepFrame c f).info c).nData = (b.info c).nData :=
      ((Dict.sameLayout_setInfo b.toDict c f).info_eq c).2.1
    have hcycle : ((b.keepFrame c f).info c).cycle = (b.info c).cycle :=
      ((Dict.sameLayout_setInfo b.toDict c f).info_eq c).2.2.2.1
    have hserver := hkept.server_parseCandata hd (canvalue2host f.data) hc timestamp
    obtain ⟨hsignals, haud, hout⟩ := hkept.receive_signals hd.sound.wf hd.sound.pristine
      (canvalue2host f.data) timestamp List.nodup_range hc
      (fun i hi => List.mem_range.mp hi)
    rw [hdata] at hserver hsignals haud hout
    rw [hcycle] at hsignals haud hout
    rw [heq, Server.frame_of_receive hc hfor hkind]
    dsimp only
    rw [hserver, hsignals, haud, hout, server_keepFrame]
    have hchannel : (b.keepFrame c f).channel c = { b.channel c with frame := f } := by
      have h' := congrFun (congrArg Server.channels (server_keepFrame b c f)) c
      exact h'.trans (Function.update_self ..)
    rw [hchannel, Server.setChannel_setChannel]
    rfl

/-! ### Names -/

/-- A name that does not resolve. -/
theorem server_lookup_of_none {n : String} (ha : b.getPropertyDict n = none) :
    b.server.lookup n = none := by
  have hplace : b.server.resolve n = none := by
    show b.place n = none
    unfold Dict.place
    rw [ha]
  unfold Server.lookup
  rw [hplace]
  rfl

/-- **A name that resolves** resolves to a signal of the server. -/
theorem Follows.server_lookup (hd : d.Registered) (h : Follows d b) {n : String} {a : Addr}
    (ha : b.getPropertyDict n = some a) :
    ∃ c i, a = .slot c i ∧ c ∈ b.canidRoot ∧ i < (b.info c).nData ∧ (b.mem a).mycanid = c
      ∧ b.server.lookup n = some (c, i, b.signalAt a) := by
  have hb := h.sane.layout.wf hd.sound.wf
  obtain ⟨hroot, -⟩ := hb.getPropertyDict_eq_some_iff.mp ha
  obtain ⟨c, hc, i, hi, rfl⟩ := hb.slot a hroot
  refine ⟨c, i, rfl, hc, hi, hb.mycanid c hc i hi, ?_⟩
  have hplace : b.server.resolve n = some (c, i) := by
    show b.place n = _
    unfold Dict.place
    rw [ha]
  have hsignal : (b.server.channels c).signals[i]? = some (b.signalAt (.slot c i)) := by
    show ((List.range (b.info c).nData).map _)[i]? = _
    rw [List.getElem?_map, List.getElem?_range hi]
    rfl
  unfold Server.lookup
  rw [hplace, Option.bind_some, hsignal]
  rfl

/-- The value of a name that resolves. -/
theorem Follows.server_valueOf (hd : d.Registered) (h : Follows d b) {n : String} {a : Addr}
    (ha : b.getPropertyDict n = some a) : b.server.valueOf n = b.property2json a := by
  obtain ⟨c, i, rfl, hc, hi, -, hlookup⟩ := h.server_lookup hd ha
  unfold Server.valueOf
  rw [hlookup, (h.orderly hd.sound.wf hd.sound.pristine hc hi).value]
  rfl

/-- **The verb `get`** reports the value of a signal. -/
theorem Follows.server_get (hd : d.Registered) (h : Follows d b) (client : Client)
    (event : Option String) : b.get client event = b.server.get client event := by
  unfold Binder.get Server.get
  cases event with
  | none => rfl
  | some n =>
    dsimp only
    cases ha : b.getPropertyDict n with
    | none => rw [server_lookup_of_none ha]
    | some a =>
      obtain ⟨c, i, rfl, hc, hi, -, hlookup⟩ := h.server_lookup hd ha
      rw [hlookup]
      dsimp only
      have hvalue := (h.orderly hd.sound.wf hd.sound.pristine hc hi).value
      generalize (b.signalAt (.slot c i)).value = v at hvalue ⊢
      subst hvalue
      rfl

/-- **The verb `list`** names the signals, channel by channel. -/
theorem server_list (b : Binder) (client : Client) : b.list client = b.server.list client := by
  have hnames : b.listupProperties = fun c => (b.server.channels c).signals.map Signal.name := by
    funext c
    show _ = ((List.range (b.info c).nData).map (fun i => b.signalAt (.slot c i))).map _
    rw [List.map_map]
    rfl
  unfold Binder.list Server.list listNames
  rw [hnames]
  rfl

/-- What is handed to the socket. -/
theorem server_send (b : Binder) (f : CanFrame) (sent : Bool) :
    (b.socketcanSend f sent).1 = b.server.send f := by
  unfold socketcanSend Server.send
  show _ = if b.canSendfd = true then _ else _
  cases b.canSendfd <;> rfl

/-- **A tick of a timer** sends the frame of its channel. -/
theorem server_timer (b : Binder) (c : CanId) (sent : Bool) :
    b.onTimerEvent c sent = b.server.timer c := by
  have htimer : (b.server.channels c).timer.isSome = true ↔ (b.info c).timerfd ∈ b.timers := by
    show (b.toDict.updateSendTimer c).isSome = true ↔ _
    unfold Dict.updateSendTimer
    dsimp only
    split_ifs with hfd <;> simp [hfd]
  unfold onTimerEvent Server.timer
  by_cases hfd : (b.info c).timerfd ∈ b.timers
  · rw [if_pos hfd, if_pos (htimer.mpr hfd), server_send]
    rfl
  · rw [if_neg hfd, if_neg (mt htimer.mp hfd)]

/-! ### Values to send -/

/-- Overwriting one element of a list of values. -/
theorem map_range_set {α : Type} (f : ℕ → α) {n i : ℕ} (v : α) :
    ((List.range n).map f).set i v = (List.range n).map (Function.update f i v) := by
  refine List.ext_getElem (by simp) (fun j hj _ => ?_)
  rw [List.getElem_set, List.getElem_map, List.getElem_map, List.getElem_range,
    Function.update_apply]
  simp only [eq_comm]

/-- A CAN-ID overwritten by itself. -/
theorem setInfo_self (d : Dict) (c : CanId) : d.setInfo c (d.info c) = d := by
  unfold Dict.setInfo
  rw [Function.update_eq_self]

/-- **A value that is refused** changes nothing. -/
theorem canSignalSend_of_rejects {b : Binder} {a : Addr} {v : BitVec 32}
    (hv : (b.mem a).rejects v = true) (sent : Bool) : b.canSignalSend a v sent = (b, []) := by
  unfold canSignalSend
  dsimp only
  rw [property2canframe_of_rejects hv]
  dsimp only
  rw [if_neg (not_not.mpr rfl), Dict.setBit_self, setInfo_self]

/-- **A value that is taken** goes into the first entry of a signal and into
the frame of its channel. -/
theorem Follows.server_canSignalSend (hd : d.Registered) (h : Follows d b) {c : CanId}
    (hc : c ∈ b.canidRoot) {i : ℕ} (hi : i < (b.info c).nData) {v : BitVec 32}
    (hv : (b.mem (.slot c i)).rejects v = false) (sent : Bool) :
    let g := b.signalAt (.slot c i)
    let ch := b.channel c
    (b.canSignalSend (.slot c i) v sent).1.server = b.server.setChannel c { ch with
      frame := { ch.frame with data := writeFrame g.head.toPropDef ch.frame.data v }
      signals := ch.signals.set i (g.setHead (g.head.decode g.head.curValue v).2) } := by
  have hb := h.sane.layout.wf hd.sound.wf
  have hmy := hb.mycanid c hc i hi
  obtain ⟨d', hd'⟩ := canSignalSend_eq b (.slot c i) v sent
  have hdict := canSignalSend_toDict b (.slot c i) v sent
  rw [hd'] at hdict ⊢
  rw [hmy, property2canframe_data, property2canframe_eq_of_not_rejects _ hv] at hdict
  dsimp only at hdict ⊢
  have hlayout : b.SameLayout d' := by
    have hrel := runRelation_sameLayout.canSignalSend b (.slot c i) v sent
    rwa [hd'] at hrel
  have hmem : ∀ x, x ≠ .slot c i → d'.mem x = b.mem x := fun x hx => by
    rw [hdict]
    exact Dict.setBit_mem_of_ne b.toDict hx _
  have hself : d'.signalAt (.slot c i) = (b.signalAt (.slot c i)).setHead
      ((b.mem (.slot c i)).decode (b.mem (.slot c i)).curValue v).2 := by
    have horder := h.orderly hd.sound.wf hd.sound.pristine hc hi
    rw [hdict]
    exact horder.setHead _ (b.mem (.slot c i)).updatetime
  have hsignals : ∀ x, (List.range (b.info x).nData).map (fun j => d'.signalAt (.slot x j))
      = if x = c then (b.channel c).signals.set i ((b.signalAt (.slot c i)).setHead
          ((b.mem (.slot c i)).decode (b.mem (.slot c i)).curValue v).2)
        else (b.channel x).signals := fun x => by
    have hother : ∀ j < (b.info x).nData, Addr.slot x j ≠ .slot c i →
        d'.signalAt (.slot x j) = b.signalAt (.slot x j) := fun j hj hne => by
      refine Dict.signalAt_congr hlayout (fun y hy => hmem y ?_)
      rintro rfl
      have hx : x ∈ b.canidRoot := by
        by_contra hx
        rw [h.nData_eq_zero hd hx] at hj
        exact absurd hj (Nat.not_lt_zero j)
      exact hb.notMem_chain_slot hx hc hj hi hne hy (b.self_mem_chain _)
    split_ifs with hx
    · subst hx
      show _ = ((List.range (b.info x).nData).map (fun j => b.signalAt (.slot x j))).set i _
      rw [map_range_set]
      refine List.map_congr_left (fun j hj => ?_)
      by_cases hji : j = i
      · rw [hji, Function.update_self, hself]
      · rw [Function.update_of_ne hji]
        exact hother j (List.mem_range.mp hj) (fun heq => hji (Addr.slot.inj heq).2)
    · exact List.map_congr_left (fun j hj => hother j (List.mem_range.mp hj)
        (fun heq => hx (Addr.slot.inj heq).1))
  have hchannel : d'.channel = Function.update b.channel c { b.channel c with
      frame := { (b.channel c).frame with
        data := writeFrame (b.signalAt (.slot c i)).head.toPropDef (b.channel c).frame.data v }
      signals := (b.channel c).signals.set i ((b.signalAt (.slot c i)).setHead
        ((b.mem (.slot c i)).decode (b.mem (.slot c i)).curValue v).2) } := by
    funext x
    have htimer := updateSendTimer_of_sameLayout hlayout x
    have hx' := hsignals x
    have hinfo : d'.info x = if x = c then { b.info c with canrawFrame := { (b.info c).canrawFrame
        with data := writeFrame (b.mem (.slot c i)).toPropDef (b.info c).canrawFrame.data v } }
        else b.info x := by
      rw [hdict]
      exact Function.update_apply ..
    unfold Dict.channel at hx' ⊢
    rw [htimer, hinfo]
    by_cases hx : x = c
    · subst hx
      rw [if_pos rfl] at hx' ⊢
      rw [Function.update_self, hx']
      rfl
    · rw [if_neg hx] at hx' ⊢
      rw [Function.update_of_ne hx, hx']
  have hplace : d'.place = b.place := by
    funext n
    unfold Dict.place
    rw [hlayout.getPropertyDict]
  unfold server Server.setChannel Dict.canidWalker Dict.getSupportPropertiesList
  dsimp only
  rw [hchannel, hplace, hlayout.canidRoot, hlayout.supportPropertyList]
  rfl

/-- Arming a timer again. -/
theorem updateSendTimer_eq (b : Binder) (c : CanId) :
    b.updateSendTimer c = (b.channel c).timer.toList.map Output.settime := by
  show _ = (b.toDict.updateSendTimer c).toList.map Output.settime
  unfold Binder.updateSendTimer
  cases b.toDict.updateSendTimer c <;> rfl

/-- **The verb `set`** assigns to a signal. -/
theorem Follows.server_set (hd : d.Registered) (h : Follows d b) (client : Client)
    (event value : Option String) (sent : Bool) :
    ((b.set client event value sent).1.server, (b.set client event value sent).2)
      = b.server.set client event value := by
  cases event with
  | none => rfl
  | some n =>
    cases value with
    | none => rfl
    | some text =>
      cases ha : b.getPropertyDict n with
      | none =>
        unfold Server.set Binder.set
        dsimp only
        rw [server_lookup_of_none ha, ha]
      | some a =>
        obtain ⟨hstate, hout⟩ := set_of_resolves ha client text sent
        obtain ⟨c, i, rfl, hc, hi, hmy, hlookup⟩ := h.server_lookup hd ha
        have hlayout := runRelation_sameLayout.canSignalSend b (.slot c i)
          (BitVec.ofInt 32 (CLib.strtol text 0)) sent
        have htimer : (b.canSignalSend (.slot c i) (BitVec.ofInt 32 (CLib.strtol text 0))
            sent).1.updateSendTimer ((b.canSignalSend (.slot c i)
              (BitVec.ofInt 32 (CLib.strtol text 0)) sent).1.mem (.slot c i)).mycanid
            = (b.channel c).timer.toList.map Output.settime := by
          rw [(hlayout.entry _).2.1, hmy, updateSendTimer_eq]
          exact congrArg (fun t => t.toList.map Output.settime)
            (updateSendTimer_of_sameLayout hlayout c)
        have hsend := canSignalSend_out b (.slot c i) (BitVec.ofInt 32 (CLib.strtol text 0)) sent
        rw [hmy, property2canframe_data] at hsend
        rw [hstate, hout, htimer]
        unfold Server.set
        dsimp only
        rw [hlookup]
        dsimp only
        unfold Server.assign
        cases hv : (b.mem (.slot c i)).rejects (BitVec.ofInt 32 (CLib.strtol text 0)) with
        | true =>
          have hv' : (b.signalAt (.slot c i)).head.rejects
              (BitVec.ofInt 32 (CLib.strtol text 0)) = true := hv
          rw [canSignalSend_of_rejects hv, if_pos hv']
          rfl
        | false =>
          have hv' : ¬(b.signalAt (.slot c i)).head.rejects
              (BitVec.ofInt 32 (CLib.strtol text 0)) = true := by
            show ¬(b.mem (.slot c i)).rejects _ = true
            rw [hv]
            exact Bool.false_ne_true
          rw [h.server_canSignalSend hd hc hi hv, hsend, if_neg hv', hv]
          unfold Server.send
          show _ = (_, (if b.canSendfd = true then _ else _) ++ _ ++ _)
          cases b.canSendfd <;> rfl

/-! ### Requests for events -/

/-- A loop over names, seen through a map of the states. -/
theorem forAll_map {σ τ : Type} {P : σ → Prop} (f : σ → τ)
    {signal : σ → String → Option (σ × ℕ)} {signal' : τ → String → Option (τ × ℕ)}
    (hP : ∀ s n s' e, P s → signal s n = some (s', e) → P s')
    (h : ∀ s n, P s → (signal s n).map (fun r => (f r.1, r.2)) = signal' (f s) n)
    (names : List String) {s : σ} (hs : P s) (e : ℕ) :
    (forAll signal names (s, e)).map (fun r => (f r.1, r.2)) = forAll signal' names (f s, e) := by
  induction names generalizing s e with
  | nil => rfl
  | cons n names ih =>
    have hn := h s n hs
    rw [forAll, forAll, ← hn]
    cases hsig : signal s n with
    | none => rfl
    | some r => exact ih (hP s n r.1 r.2 hs hsig) (e + r.2)

theorem Follows.of_toDict_eq (h : Follows d b) {b' : Binder} (heq : b'.toDict = b.toDict)
    (hs : Sane d b') : Follows d b' :=
  ⟨hs, heq ▸ h.applies⟩

theorem Follows.subscribeOne {s : Binder × List (String × Json)} (h : Follows d s.1)
    (client : Client) (answers : DaemonAnswers) (n : String) :
    Follows d (subscribeOne client answers s n).1.1 :=
  h.of_toDict_eq (subscribeOne_toDict client answers s n)
    (h.sane.subscribeOne client answers n)

/-- A name resolves in the server if it does in the dictionary. -/
theorem Follows.isSome_lookup (hd : d.Registered) (h : Follows d b) (n : String) :
    (b.server.lookup n).isSome = (b.getPropertyDict n).isSome := by
  cases ha : b.getPropertyDict n with
  | none =>
    rw [server_lookup_of_none ha]
    rfl
  | some a =>
    obtain ⟨c, i, -, -, -, -, hlookup⟩ := h.server_lookup hd ha
    rw [hlookup]
    rfl

/-- The daemon takes a client for an event that there is. -/
theorem Follows.server_afbReqSubscribe (hd : d.Registered) (h : Follows d b) {n : String}
    {event : BindEvent} (hev : b.getEvent n = some event) (client : Client) :
    (b.afbReqSubscribe client event.event).server
        = { b.server with audience := b.audience.join client n }
      ∧ event.name = n ∧ b.server.valueOf n = b.property2json event.rawInfo := by
  obtain ⟨hmem, hname⟩ := h.sane.events.getEvent_eq_some_iff.mp hev
  have hinfo := h.sane.events.info event hmem
  rw [hname] at hinfo
  refine ⟨?_, hname, h.server_valueOf hd hinfo⟩
  rw [← h.sane.events.audience_afbReqSubscribe hev client]
  exact server_of_toDict_eq rfl rfl

/-- The event a subscription is for: the one of the name, or a new one. -/
def eventFor (b : Binder) (answers : DaemonAnswers) (n : String) : Option (Binder × BindEvent) :=
  match b.getEvent n with
  | some event => some (b, event)
  | none => b.registerEvent answers n

theorem subscribeOne_eq (client : Client) (answers : DaemonAnswers)
    (s : Binder × List (String × Json)) (n : String) :
    Binder.subscribeOne client answers s n =
      match s.1.eventFor answers n with
      | none => (s, 1)
      | some (b, event) =>
        if answers.reqSubscribe n = false then ((b, s.2), 1)
        else
          ((b.afbReqSubscribe client event.event, Json.objectAdd s.2 event.name
            (((b.afbReqSubscribe client event.event).property2json event.rawInfo).getD
              .null)), 0) :=
  rfl

/-- It is the event of the name, and the server is the one with the name
opened. -/
theorem Follows.server_opened (hd : d.Registered) (h : Follows d b) (answers : DaemonAnswers)
    (n : String) :
    (b.eventFor answers n).map (fun r => r.1.server) = b.server.opened answers n
      ∧ ∀ r, b.eventFor answers n = some r → Follows d r.1 ∧ r.1.getEvent n = some r.2 := by
  unfold Server.opened Binder.eventFor
  show _ = (if (b.audience n).isSome then _ else _) ∧ _
  cases hev : b.getEvent n with
  | some event =>
    rw [audience_of_some hev]
    exact ⟨rfl, fun r hr => Option.some.inj hr ▸ ⟨h, hev⟩⟩
  | none =>
    have hsome := b.isSome_registerEvent answers n
    rw [audience_of_none hev, h.isSome_lookup hd]
    dsimp only
    cases hr : b.registerEvent answers n with
    | none =>
      rw [hr] at hsome
      refine ⟨?_, fun r hr' => absurd hr' (Option.some_ne_none r).symm⟩
      rw [if_neg (mt hsome.mpr Bool.false_ne_true)]
      rfl
    | some r =>
      rw [hr] at hsome
      obtain ⟨b', event⟩ := r
      obtain ⟨hwf, hget⟩ := h.sane.events.registerEvent hev hr
      have hdict := registerEvent_toDict hr
      have haud := h.sane.events.audience_registerEvent hev hr
      have hfd : b'.canSendfd = b.canSendfd := by
        obtain ⟨a, -, -, rfl⟩ := registerEvent_eq_some hr
        rfl
      refine ⟨?_, fun r' hr' => ?_⟩
      · rw [if_pos (hsome.mp rfl), Option.map_some, server_of_toDict_eq hdict hfd, haud]
        rfl
      · obtain rfl := Option.some.inj hr'
        exact ⟨h.of_toDict_eq hdict (h.sane.of_toDict_eq hdict hwf), hget⟩

/-- **One named subscription** is one of the server. -/
theorem Follows.server_subscribeOne (hd : d.Registered) {s : Binder × List (String × Json)}
    (h : Follows d s.1) (client : Client) (answers : DaemonAnswers) (n : String) :
    let r := Binder.subscribeOne client answers s n
    ((r.1.1.server, r.1.2), r.2) = Server.subscribeOne client answers (s.1.server, s.2) n := by
  obtain ⟨hopened, hfound⟩ := h.server_opened hd answers n
  rw [subscribeOne_eq]
  unfold Server.subscribeOne
  dsimp only
  rw [← hopened]
  cases heq : s.1.eventFor answers n with
  | none => rfl
  | some r =>
    obtain ⟨b', event⟩ := r
    obtain ⟨hfollow, hget⟩ := hfound _ heq
    obtain ⟨hserver, hname, hvalue⟩ := hfollow.server_afbReqSubscribe hd hget client
    dsimp only [Option.map_some]
    cases answers.reqSubscribe n with
    | false => rfl
    | true =>
      rw [if_neg Bool.false_ne_true.symm, if_neg Bool.false_ne_true.symm, hserver, hname, hvalue]
      rfl

/-- The rest of the requests for events. -/
theorem Follows.server_subscribeSignal (hd : d.Registered) (client : Client)
    (answers : DaemonAnswers) (depth : ℕ) {s : Binder × List (String × Json)}
    (h : Follows d s.1) (n : String) :
    (Binder.subscribeSignal client answers depth s n).map (fun r => ((r.1.1.server, r.1.2), r.2))
      = Server.subscribeSignal client answers depth (s.1.server, s.2) n := by
  induction depth generalizing s n with
  | zero => rfl
  | succ depth ih =>
    rw [Binder.subscribeSignal, Server.subscribeSignal]
    split_ifs with hn
    · exact forAll_map (P := fun t : Binder × List (String × Json) => Follows d t.1)
        (fun t => (t.1.server, t.2))
        (fun t m t' e ht hs => subscribeSignal_invariant
          (P := fun t : Binder × List (String × Json) => Follows d t.1)
          (fun _ m' _ ht' => ht'.subscribeOne client answers m') hs ht)
        (fun t m ht => ih ht m) s.1.getSupportPropertiesList h 0
    · exact congrArg some (h.server_subscribeOne hd client answers n)

/-- The receive filter is not part of the server. -/
theorem server_socketcanUpdateFilter (b : Binder) (canids : List (BitVec 32)) :
    (b.socketcanUpdateFilter canids).server = b.server := by
  obtain ⟨filter, hfilter⟩ := socketcanUpdateFilter_eq b canids
  rw [hfilter]
  rfl

/-- **The verb `subscribe`**. -/
theorem Follows.server_subscribe (hd : d.Registered) (h : Follows d b) (client : Client)
    (event : Option String) (answers : DaemonAnswers) :
    (b.subscribe client event answers).map (fun r => (r.1.server, r.2))
      = b.server.subscribe client event answers := by
  cases event with
  | none => rfl
  | some n =>
    unfold Binder.subscribe Server.subscribe
    dsimp only
    rw [← Follows.server_subscribeSignal hd client answers callDepth (s := (b, [])) h n]
    cases hs : Binder.subscribeSignal client answers callDepth (b, []) n with
    | none => rfl
    | some r =>
      obtain ⟨⟨b', apply⟩, err⟩ := r
      dsimp only [Option.map_some]
      split_ifs with herr
      · rw [Option.map_some, server_socketcanUpdateFilter]
      · rw [Option.map_some, server_socketcanUpdateFilter]

/-- **One name to leave** is one of the server. -/
theorem Follows.server_unsubscribeOne (h : Follows d b) (client : Client)
    (answers : DaemonAnswers) (n : String) :
    let r := Binder.unsubscribeOne client answers b n
    (r.1.server, r.2) = Server.unsubscribeOne client answers b.server n := by
  have hsome : (b.server.audience n).isSome = (b.getEvent n).isSome := Option.isSome_map
  unfold Binder.unsubscribeOne Server.unsubscribeOne
  simp only [hsome]
  cases hev : b.getEvent n with
  | none => rfl
  | some event =>
    dsimp only
    cases answers.reqUnsubscribe n with
    | false => rfl
    | true =>
      have haud := h.sane.events.audience_afbReqUnsubscribe hev client
      have hserver : (b.afbReqUnsubscribe client event.event).server
          = { b.server with audience := b.audience.leave client n } := by
        rw [← haud]
        exact server_of_toDict_eq rfl rfl
      rw [if_neg Bool.false_ne_true.symm, if_pos ⟨rfl, rfl⟩, hserver]
      rfl

theorem Follows.unsubscribeOne (h : Follows d b) (client : Client) (answers : DaemonAnswers)
    (n : String) : Follows d (unsubscribeOne client answers b n).1 :=
  h.of_toDict_eq (unsubscribeOne_toDict client answers b n)
    (h.sane.unsubscribeOne client answers n)

theorem Follows.server_unsubscribeSignal (client : Client) (answers : DaemonAnswers) (depth : ℕ)
    (h : Follows d b) (n : String) :
    (Binder.unsubscribeSignal client answers depth b n).map (fun r => (r.1.server, r.2))
      = Server.unsubscribeSignal client answers depth b.server n := by
  induction depth generalizing b n with
  | zero => rfl
  | succ depth ih =>
    rw [Binder.unsubscribeSignal, Server.unsubscribeSignal]
    split_ifs with hn
    · refine forAll_map (P := Follows d) Binder.server ?_ (fun t m ht => ih ht m)
        b.getSupportPropertiesList h 0
      exact fun t m t' e ht hs => unsubscribeSignal_invariant
        (fun _ m' _ ht' => ht'.unsubscribeOne client answers m') hs ht
    · exact congrArg some (h.server_unsubscribeOne client answers n)

/-- **The verb `unsubscribe`**. -/
theorem Follows.server_unsubscribe (h : Follows d b) (client : Client) (args : Option Json)
    (answers : DaemonAnswers) :
    (b.unsubscribe client args answers).map (fun r => (r.1.server, r.2))
      = b.server.unsubscribe client args answers := by
  unfold Binder.unsubscribe Server.unsubscribe
  cases unsubscribeNames args with
  | none => rfl
  | some names =>
    dsimp only [Option.bind_some]
    have hall := forAll_map (P := Follows d) Binder.server
      (fun t m t' e ht hs => unsubscribeSignal_invariant
        (fun _ m' _ ht' => ht'.unsubscribeOne client answers m') hs ht)
      (fun t m ht => Follows.server_unsubscribeSignal client answers callDepth ht m)
      names h 0
    rw [← hall]
    cases forAll (Binder.unsubscribeSignal client answers callDepth) names (b, 0) with
    | none => rfl
    | some r =>
      obtain ⟨b', err⟩ := r
      rfl

/-! ## Runs -/

/-- **Every input is one of the server.** -/
theorem Follows.server_step (hd : d.Registered) (h : Follows d b) (input : Input) :
    (b.step input).map (fun r => (r.1.server, r.2)) = b.server.step input := by
  cases input with
  | frame f timestamp => exact congrArg some (h.server_frame hd f timestamp)
  | timer c sent => exact congrArg (fun out => some (b.server, out)) (b.server_timer c sent)
  | get client event =>
    exact congrArg (fun out => some (b.server, out)) (h.server_get hd client event)
  | set client event value sent => exact congrArg some (h.server_set hd client event value sent)
  | list client => exact congrArg (fun out => some (b.server, out)) (b.server_list client)
  | subscribe client event answers => exact h.server_subscribe hd client event answers
  | unsubscribe client args answers => exact h.server_unsubscribe client args answers

/-- **A run is a run of the server.** -/
theorem Follows.server_run (hd : d.Registered) (h : Follows d b) (ins : List Input) :
    (run b ins).map (fun r => (r.1.server, r.2)) = Server.run b.server ins :=
  Machine.run_map Binder.server (Follows d) (fun _ _ _ _ hb hs => hb.step hd.sound.wf hs)
    (fun _ input hb => hb.server_step hd input) h ins

theorem Follows.run (hd : d.WF) (h : Follows d b) {ins : List Input} {b' : Binder}
    {outs : List Output} (hr : run b ins = some (b', outs)) : Follows d b' :=
  Machine.run_invariant (Follows d) (fun _ _ _ _ hb _ hs => hb.step hd hs) h
    (Machine.meets_of_forall (fun _ _ => trivial) b ins) hr

/-- A run of the server is one of the binding. -/
theorem Follows.of_server_run (hd : d.Registered) (h : Follows d b) {ins : List Input}
    {s : Server} {outs : List Output} (hr : Server.run b.server ins = some (s, outs)) :
    ∃ b', Binder.run b ins = some (b', outs) ∧ b'.server = s ∧ Follows d b' := by
  obtain ⟨⟨b', outs'⟩, hrun, heq⟩ :=
    Option.map_eq_some_iff.mp ((h.server_run hd ins).trans hr)
  obtain ⟨rfl, rfl⟩ := Prod.mk.inj heq
  exact ⟨b', hrun, rfl, h.run hd.sound.wf hrun⟩

/-- A run of the binding is one of the server. -/
theorem Follows.to_server_run (hd : d.Registered) (h : Follows d b) {ins : List Input}
    {b' : Binder} {outs : List Output} (hr : Binder.run b ins = some (b', outs)) :
    Server.run b.server ins = some (b'.server, outs) := by
  rw [← h.server_run hd ins, hr]
  rfl

end Follows

/-- **The binding is the server**: from the loaded configuration on, every run
of one is a run of the other with the same outputs, and leads to the same
signals, frames and audiences. -/
theorem binding_is_server {jobj : Json} {d : Dict} (hload : canDefineInit jobj = some d)
    (ins : List Input) :
    (run (start d) ins).map (fun r => (r.1.server, r.2)) = Server.run (start d).server ins :=
  (follows_start (Dict.registered_of_canDefineInit hload).sound.pristine).server_run
    (Dict.registered_of_canDefineInit hload) ins

/-- The names that are pushed, each with those who are told. -/
def told : Output → Option (String × List Client)
  | .push n _ clients => some (n, clients)
  | _ => none

/-- Two clients who come and go, frames, and a value to send. -/
def busyInputs : List Input :=
  [.subscribe 1 (some "speed") {}, .subscribe 2 (some "*") {},
    .frame ⟨0x100#32, 8#8, fun _ => 1#8⟩ ⟨10, 0⟩, .set 2 (some "lamp") (some "1") true,
    .unsubscribe 1 none {}, .frame ⟨0x100#32, 8#8, fun _ => 2#8⟩ ⟨11, 0⟩,
    .unsubscribe 2 none {}, .frame ⟨0x100#32, 8#8, fun _ => 3#8⟩ ⟨12, 0⟩]

/-- The speed is pushed to both, then to one, and last to nobody. -/
theorem binding_is_server_sample :
    ∃ d b outs, canDefineInit sampleConfig = some d ∧ run (start d) busyInputs = some (b, outs)
      ∧ outs.filterMap told = [("speed", [1, 2]), ("speed", [2]), ("speed", [])]
      ∧ (outs.filterMap sentFrame).length = 1
      ∧ Server.run (start d).server busyInputs = some (b.server, outs) := by
  have hload : (canDefineInit sampleConfig).bind (fun d => (run (start d) busyInputs).map
      (fun r => (r.2.filterMap told, (r.2.filterMap sentFrame).length)))
      = some ([("speed", [1, 2]), ("speed", [2]), ("speed", [])], 1) := by
    decide
  obtain ⟨d, hd, hload⟩ := Option.bind_eq_some_iff.mp hload
  obtain ⟨⟨b, outs⟩, hrun, hval⟩ := Option.map_eq_some_iff.mp hload
  obtain ⟨htold, hsent⟩ := Prod.mk.inj hval
  refine ⟨d, b, outs, hd, hrun, htold, hsent, ?_⟩
  rw [← binding_is_server hd, hrun]
  rfl

end Binder
