import CanBinder.Decoding

/-!
# The registry of events

The registry keeps one event of the daemon for each name, about the property
the dictionary resolves that name to, and no two events share a handle
(`EventsWF`). Every input keeps it so. Together with the layout of the
loaded configuration and the applied entries, this is what holds of every
state of a run (`Sane`).

A client is subscribed to a name (`Subscribed`) if it is a client of the
name's event. Notifications take nobody's subscription away: an event is
dropped only when it has no clients.
-/

namespace Binder

/-- **The registry is in order.** -/
structure EventsWF (b : Binder) : Prop where
  tree : SearchTree.IsTree BindEvent.name b.bindEventRoot
  itf : ∀ e ∈ b.bindEventRoot, e.event.itf = true
  info : ∀ e ∈ b.bindEventRoot, b.getPropertyDict e.name = some e.rawInfo
  fresh : ∀ e ∈ b.bindEventRoot, e.event.closure < b.nextEvent
  handle : ∀ e ∈ b.bindEventRoot, ∀ e' ∈ b.bindEventRoot,
    e.event.closure = e'.event.closure → e = e'

/-- The client is subscribed to the events of a name. -/
def Subscribed (b : Binder) (client : Client) (name : String) : Prop :=
  ∃ event, b.getEvent name = some event ∧ client ∈ b.clients event.event.closure

theorem EventsWF.getEvent_eq_some_iff {b : Binder} (h : b.EventsWF) {name : String}
    {event : BindEvent} :
    b.getEvent name = some event ↔ event ∈ b.bindEventRoot ∧ event.name = name :=
  h.tree.tfind_eq_some_iff

/-- The events of two names have two handles. -/
theorem EventsWF.handle_ne {b : Binder} (h : b.EventsWF) {name name' : String}
    {event event' : BindEvent} (hev : b.getEvent name = some event)
    (hev' : b.getEvent name' = some event') (hne : name' ≠ name) :
    event'.event.closure ≠ event.event.closure := fun hc => by
  obtain ⟨hmem, hname⟩ := h.getEvent_eq_some_iff.mp hev
  obtain ⟨hmem', hname'⟩ := h.getEvent_eq_some_iff.mp hev'
  rw [h.handle event' hmem' event hmem hc] at hname'
  exact hne (hname'.symm.trans hname)

theorem eventsWF_start (d : Dict) : (start d).EventsWF :=
  ⟨SearchTree.isTree_nil _, fun _ h => absurd h List.not_mem_nil,
    fun _ h => absurd h List.not_mem_nil, fun _ h => absurd h List.not_mem_nil,
    fun _ h => absurd h List.not_mem_nil⟩

/-- The registry only depends on its tree, on the handles given out, and on
what names resolve to. -/
theorem EventsWF.congr {b b' : Binder} (h : b.EventsWF)
    (hroot : b'.bindEventRoot = b.bindEventRoot) (hnext : b'.nextEvent = b.nextEvent)
    (hdict : ∀ n, b'.getPropertyDict n = b.getPropertyDict n) : b'.EventsWF := by
  refine ⟨?_, ?_, fun e he => ?_, ?_, ?_⟩
  · rw [hroot]
    exact h.tree
  · rw [hroot]
    exact h.itf
  · rw [hroot] at he
    rw [hdict]
    exact h.info e he
  · rw [hroot, hnext]
    exact h.fresh
  · rw [hroot]
    exact h.handle

/-! ## Operations on the registry -/

theorem mem_addEvent {b : Binder} {event : BindEvent} (h : b.getEvent event.name = none)
    (e : BindEvent) :
    e ∈ (b.addEvent event).bindEventRoot ↔ e = event ∨ e ∈ b.bindEventRoot :=
  SearchTree.mem_tsearch h

/-- **One more event** keeps the registry in order, and is found. -/
theorem EventsWF.addEvent {b : Binder} (h : b.EventsWF) {name : String} {a : Addr}
    (hnone : b.getEvent name = none) (ha : b.getPropertyDict name = some a) :
    (b.addEvent ⟨name, ⟨true, b.nextEvent⟩, a⟩).EventsWF
      ∧ (b.addEvent ⟨name, ⟨true, b.nextEvent⟩, a⟩).getEvent name
        = some ⟨name, ⟨true, b.nextEvent⟩, a⟩ := by
  have hmem : ∀ e, e ∈ (b.addEvent ⟨name, ⟨true, b.nextEvent⟩, a⟩).bindEventRoot
      ↔ e = ⟨name, ⟨true, b.nextEvent⟩, a⟩ ∨ e ∈ b.bindEventRoot := mem_addEvent hnone
  have hwf : (b.addEvent ⟨name, ⟨true, b.nextEvent⟩, a⟩).EventsWF := by
    refine ⟨h.tree.tsearch _, fun e he => ?_, fun e he => ?_, fun e he => ?_,
      fun e he e' he' hee => ?_⟩
    · rcases (hmem e).mp he with rfl | he
      · rfl
      · exact h.itf e he
    · rcases (hmem e).mp he with rfl | he
      · exact ha
      · exact h.info e he
    · rcases (hmem e).mp he with rfl | he
      · exact Nat.lt_succ_self _
      · exact Nat.lt_succ_of_lt (h.fresh e he)
    · -- the new handle is above those given out
      rcases (hmem e).mp he with rfl | he
      · rcases (hmem e').mp he' with rfl | he'
        · rfl
        · exact absurd hee (Nat.ne_of_gt (h.fresh e' he'))
      · rcases (hmem e').mp he' with rfl | he'
        · exact absurd hee (Nat.ne_of_lt (h.fresh e he))
        · exact h.handle e he e' he' hee
  exact ⟨hwf, hwf.getEvent_eq_some_iff.mpr ⟨(hmem _).mpr (Or.inl rfl), rfl⟩⟩

/-- **Registering an event** under a name that has none. -/
theorem EventsWF.registerEvent {b b' : Binder} (h : b.EventsWF) {answers : DaemonAnswers}
    {name : String} {event : BindEvent} (hnone : b.getEvent name = none)
    (hr : b.registerEvent answers name = some (b', event)) :
    b'.EventsWF ∧ b'.getEvent name = some event := by
  obtain ⟨a, ha, rfl, rfl⟩ := registerEvent_eq_some hr
  exact h.addEvent hnone ha

/-- It changes no other lookup, and gives the new event a handle of its own. -/
theorem EventsWF.registerEvent_of_ne {b b' : Binder} (h : b.EventsWF)
    {answers : DaemonAnswers} {name : String} {event : BindEvent}
    (hnone : b.getEvent name = none) (hr : b.registerEvent answers name = some (b', event))
    {n : String} (hn : n ≠ name) :
    b'.getEvent n = b.getEvent n
      ∧ ∀ event', b.getEvent n = some event' →
        b'.clients event'.event.closure = b.clients event'.event.closure := by
  obtain ⟨a, -, rfl, rfl⟩ := registerEvent_eq_some hr
  have hget := SearchTree.tfind_tsearch (a := ⟨name, ⟨true, b.nextEvent⟩, a⟩) h.tree hnone n
  refine ⟨hget.trans (if_neg hn), fun event' hev' => ?_⟩
  obtain ⟨hmem, -⟩ := h.getEvent_eq_some_iff.mp hev'
  exact Function.update_of_ne (Nat.ne_of_lt (h.fresh event' hmem)) _ _

/-- **Removing an event.** -/
theorem EventsWF.removeEvent {b : Binder} (h : b.EventsWF) (name : String) :
    (b.removeEvent name).1.EventsWF := by
  unfold Binder.removeEvent
  split
  · exact h
  · have hsub : ∀ e ∈ SearchTree.tdelete BindEvent.name name b.bindEventRoot,
        e ∈ b.bindEventRoot := fun e he => (SearchTree.mem_tdelete.mp he).1
    exact ⟨h.tree.tdelete name, fun e he => h.itf e (hsub e he),
      fun e he => h.info e (hsub e he), fun e he => h.fresh e (hsub e he),
      fun e he e' he' => h.handle e (hsub e he) e' (hsub e' he')⟩

/-- **The two outcomes of `notify_property_changed`**: nobody asked for an
event, or the value is pushed under the property's name, and the event is
removed if it had no clients. -/
theorem EventsWF.notify_cases {b : Binder} (h : b.EventsWF) (a : Addr) :
    b.getEvent (b.name a) = none ∧ b.notifyPropertyChanged a = (b, [])
      ∨ ∃ event, b.getEvent (b.name a) = some event
        ∧ ((b.clients event.event.closure ≠ [] ∧ b.notifyPropertyChanged a
            = (b, [.push (b.name a) (b.property2json a) (b.clients event.event.closure)]))
          ∨ (b.clients event.event.closure = [] ∧ b.notifyPropertyChanged a
            = ((b.removeEvent (b.name a)).1,
              .push (b.name a) (b.property2json a) [] :: (b.removeEvent (b.name a)).2))) := by
  unfold notifyPropertyChanged
  cases hev : b.getEvent (b.name a) with
  | none => exact Or.inl ⟨rfl, rfl⟩
  | some event =>
    obtain ⟨hmem, hname⟩ := h.getEvent_eq_some_iff.mp hev
    refine Or.inr ⟨event, rfl, ?_⟩
    dsimp only
    rw [if_pos (h.itf event hmem), hname]
    by_cases hempty : b.clients event.event.closure = []
    · rw [hempty, if_pos (by simp)]
      exact Or.inr ⟨rfl, rfl⟩
    · rw [if_neg (by rw [Nat.lt_one_iff, List.length_eq_zero_iff]; exact hempty)]
      exact Or.inl ⟨hempty, rfl⟩

/-- Notifying keeps the registry in order. -/
theorem EventsWF.notify {b : Binder} (h : b.EventsWF) (a : Addr) :
    (b.notifyPropertyChanged a).1.EventsWF := by
  rcases h.notify_cases a with ⟨-, heq⟩ | ⟨event, -, ⟨-, heq⟩ | ⟨-, heq⟩⟩
  · rw [heq]
    exact h
  · rw [heq]
    exact h
  · rw [heq]
    exact h.removeEvent _

/-- **What a notification pushes** is the value of the property, under its
name. -/
theorem EventsWF.of_mem_notify {b : Binder} (h : b.EventsWF) {a : Addr} {n : String}
    {v : Option Json} {cl : List Client} (ho : .push n v cl ∈ (b.notifyPropertyChanged a).2) :
    n = b.name a ∧ v = b.property2json a := by
  have hremove : ∀ name, .push n v cl ∉ (b.removeEvent name).2 := fun name => by
    unfold Binder.removeEvent
    split <;> simp
  rcases h.notify_cases a with ⟨-, heq⟩ | ⟨event, -, ⟨-, heq⟩ | ⟨-, heq⟩⟩
  · rw [heq] at ho
    exact absurd ho List.not_mem_nil
  · rw [heq] at ho
    cases List.mem_singleton.mp ho
    exact ⟨rfl, rfl⟩
  · rw [heq] at ho
    rcases List.mem_cons.mp ho with ho | ho
    · cases ho
      exact ⟨rfl, rfl⟩
    · exact absurd ho (hremove _)

/-- **A subscribed client gets the notification**, and it is the only
output. -/
theorem EventsWF.notify_of_subscribed {b : Binder} (h : b.EventsWF) {a : Addr}
    {client : Client} (hsub : b.Subscribed client (b.name a)) :
    ∃ cl, client ∈ cl
      ∧ b.notifyPropertyChanged a = (b, [.push (b.name a) (b.property2json a) cl]) := by
  obtain ⟨event, hev, hcl⟩ := hsub
  rcases h.notify_cases a with ⟨hnone, -⟩ | ⟨event', hev', ⟨-, heq⟩ | ⟨hempty, -⟩⟩
  · rw [hev] at hnone
    cases hnone
  · rw [hev] at hev'
    cases hev'
    exact ⟨_, hcl, heq⟩
  · rw [hev] at hev'
    cases hev'
    rw [hempty] at hcl
    exact absurd hcl List.not_mem_nil

/-- **Notifications take no subscription away.** -/
theorem EventsWF.subscribed_notify {b : Binder} (h : b.EventsWF) (a : Addr) {client : Client}
    {n : String} (hsub : b.Subscribed client n) :
    (b.notifyPropertyChanged a).1.Subscribed client n := by
  rcases h.notify_cases a with ⟨-, heq⟩ | ⟨event, hev, ⟨-, heq⟩ | ⟨hempty, heq⟩⟩
  · rwa [heq]
  · rwa [heq]
  · rw [heq]
    obtain ⟨event', hev', hcl⟩ := hsub
    -- the event dropped has no clients, so it is another one
    have hne : event.event.closure ≠ event'.event.closure := fun hc => by
      rw [← hc, hempty] at hcl
      exact List.not_mem_nil hcl
    have hnn : n ≠ b.name a := fun hn => by
      rw [hn, hev] at hev'
      cases hev'
      exact hne rfl
    unfold Binder.removeEvent
    rw [hev]
    refine ⟨event', ?_, ?_⟩
    · show SearchTree.tfind BindEvent.name n (SearchTree.tdelete _ _ _) = _
      rw [SearchTree.tfind_tdelete h.tree, if_neg hnn]
      exact hev'
    · show client ∈ Function.update b.clients _ _ _
      rw [Function.update_of_ne hne.symm]
      exact hcl

/-! ## Updating a property -/

/-- The state after a frame was decoded into a property, before anybody is
notified. -/
def decodedInto (b : Binder) (canV64 : BitVec 64) (a : Addr) (timestamp : Timeval) : Binder :=
  { b with toDict := (b.toDict.updateProperty canV64 a timestamp).1 }

/-- An update that notifies. -/
theorem updateIviproperty_of_notifies {b : Binder} {canV64 : BitVec 64} {a : Addr}
    {timestamp : Timeval} (h : b.notifies canV64 a timestamp = true) :
    (b.updateIviproperty canV64 a timestamp).1
        = ((b.decodedInto canV64 a timestamp).notifyPropertyChanged a).1
      ∧ (b.updateIviproperty canV64 a timestamp).2.1
        = ((b.decodedInto canV64 a timestamp).notifyPropertyChanged a).2 := by
  unfold Dict.notifies at h
  unfold updateIviproperty decodedInto
  split
  · rename_i d' heq
    rw [heq] at h
    cases h
  · rename_i d' update heq
    rw [heq] at h ⊢
    dsimp only
    rw [if_pos (by simpa using h)]
    exact ⟨rfl, rfl⟩

/-- An update that does not notify. -/
theorem updateIviproperty_of_not_notifies {b : Binder} {canV64 : BitVec 64} {a : Addr}
    {timestamp : Timeval} (h : b.notifies canV64 a timestamp = false) :
    (b.updateIviproperty canV64 a timestamp).1 = b.decodedInto canV64 a timestamp
      ∧ (b.updateIviproperty canV64 a timestamp).2.1 = [] := by
  unfold Dict.notifies at h
  unfold updateIviproperty decodedInto
  split
  · rename_i d' heq
    rw [heq]
    exact ⟨rfl, rfl⟩
  · rename_i d' update heq
    rw [heq] at h ⊢
    dsimp only
    rw [if_neg (by simpa using h)]
    exact ⟨rfl, rfl⟩

/-! ## States of a run -/

/-- **What holds of every state of a run** of the configuration `d`. -/
structure Sane (d : Dict) (b : Binder) : Prop where
  layout : d.SameLayout b.toDict
  applied : Dict.AppliedInChain b.toDict
  events : b.EventsWF

variable {d : Dict}

theorem sane_start (h : Dict.Pristine d) : Sane d (start d) :=
  ⟨Dict.SameLayout.refl d, h.appliedInChain, eventsWF_start d⟩

/-- Where the data stays as it is, only the registry matters. -/
theorem Sane.of_toDict_eq {b b' : Binder} (h : Sane d b) (heq : b'.toDict = b.toDict)
    (hev : b'.EventsWF) : Sane d b' :=
  ⟨heq ▸ h.layout, heq ▸ h.applied, hev⟩

/-- A frame and one slot, before anybody is notified. -/
theorem Sane.decodedInto {b : Binder} (hd : d.WF) (h : Sane d b) (canV64 : BitVec 64)
    (c : CanId) (i : ℕ) (timestamp : Timeval) :
    Sane d (b.decodedInto canV64 (.slot c i) timestamp) := by
  have hlayout := (b.toDict.touches_updateProperty canV64 (.slot c i) timestamp).sameLayout
  exact ⟨h.layout.trans hlayout,
    h.applied.updateProperty (h.layout.wf hd) c i canV64 timestamp,
    h.events.congr rfl rfl (fun n => hlayout.getPropertyDict n)⟩

/-- A frame and one slot. -/
theorem Sane.updateIviproperty {b : Binder} (hd : d.WF) (h : Sane d b) (canV64 : BitVec 64)
    (c : CanId) (i : ℕ) (timestamp : Timeval) :
    Sane d (b.updateIviproperty canV64 (.slot c i) timestamp).1 := by
  have hdec := h.decodedInto hd canV64 c i timestamp
  cases hn : b.notifies canV64 (.slot c i) timestamp with
  | true =>
    rw [(updateIviproperty_of_notifies hn).1]
    exact hdec.of_toDict_eq (notifyPropertyChanged_toDict _ _) (hdec.events.notify _)
  | false =>
    rw [(updateIviproperty_of_not_notifies hn).1]
    exact hdec

/-- **What the update of an entry pushes**: its own value, under its own name,
which has an event. -/
theorem Sane.of_push {b : Binder} (hd : d.WF) (h : Sane d b) {canV64 : BitVec 64} {c : CanId}
    {i : ℕ} {timestamp : Timeval} {n : String} {v : Option Json} {cl : List Client}
    (ho : .push n v cl ∈ (b.updateIviproperty canV64 (.slot c i) timestamp).2.1) :
    n = b.name (.slot c i) ∧ b.getEvent n ≠ none
      ∧ v = (b.updateIviproperty canV64 (.slot c i) timestamp).1.property2json (.slot c i) := by
  cases hn : b.notifies canV64 (.slot c i) timestamp with
  | false =>
    rw [(updateIviproperty_of_not_notifies hn).2] at ho
    exact absurd ho List.not_mem_nil
  | true =>
    obtain ⟨hstate, hout⟩ := updateIviproperty_of_notifies hn
    have hdec := h.decodedInto hd canV64 c i timestamp
    have hname : (b.decodedInto canV64 (.slot c i) timestamp).name (.slot c i)
        = b.name (.slot c i) :=
      congrFun (b.toDict.touches_updateProperty canV64 (.slot c i) timestamp).sameLayout.name_eq _
    rw [hout] at ho
    obtain ⟨hn, hv⟩ := hdec.events.of_mem_notify ho
    refine ⟨hn.trans hname, fun hnone => ?_, ?_⟩
    · rcases hdec.events.notify_cases (.slot c i) with ⟨-, heq⟩ | ⟨event, hev, -⟩
      · rw [heq] at ho
        exact absurd ho List.not_mem_nil
      · rw [← hn] at hev
        exact absurd (hev.symm.trans hnone) (by simp)
    · rw [hv, hstate]
      show _ = Dict.property2json (Binder.toDict _) _
      rw [notifyPropertyChanged_toDict]

/-- A frame and an array. -/
theorem Sane.parseCandata {b : Binder} (hd : d.WF) (h : Sane d b) (canV64 : BitVec 64)
    (c : CanId) (timestamp : Timeval) (slots : List ℕ) :
    Sane d (parseCandata canV64 c timestamp slots b).1 := by
  induction slots generalizing b with
  | nil => exact h
  | cons i slots ih => exact ih (h.updateIviproperty hd canV64 c i timestamp)

/-- A new frame in a CAN-ID. -/
theorem Sane.setFrame {b : Binder} (h : Sane d b) (c : CanId) (f : CanFrame) :
    Sane d { b with toDict := b.setInfo c { b.info c with canrawFrame := f } } :=
  ⟨h.layout.trans (Dict.sameLayout_setInfo b.toDict c f), h.applied,
    h.events.congr rfl rfl (fun _ => rfl)⟩

theorem Sane.parseFrame {b : Binder} (hd : d.WF) (h : Sane d b) (frame : CanFrame)
    (timestamp : Timeval) : Sane d (b.parseFrame frame timestamp).1 := by
  rcases parseFrame_cases hd h.layout frame timestamp with
    ⟨-, heq⟩ | ⟨c, -, -, ⟨-, heq⟩ | ⟨-, heq⟩⟩
  · rw [heq]
    exact h
  · rw [heq]
    exact h.setFrame c frame
  · rw [heq]
    exact (h.setFrame c frame).parseCandata hd _ c timestamp _

/-- Writing a value applies no entry. -/
theorem property2canframe_applyinfo (p : CanBit) (data : Payload) (v : BitVec 32) :
    (property2canframe p data v).2.1.applyinfo = p.applyinfo := by
  unfold property2canframe
  rw [updatePropertyValue_eq]
  cases (p.decode p.curValue v).1 <;> rfl

/-- A value to send. -/
theorem Sane.canSignalSend {b : Binder} (h : Sane d b) (a : Addr) (v : BitVec 32)
    (sent : Bool) : Sane d (b.canSignalSend a v sent).1 := by
  have hlayout := runRelation_sameLayout.canSignalSend b a v sent
  have happly : ∀ x, ((b.canSignalSend a v sent).1.mem x).applyinfo = (b.mem x).applyinfo := by
    intro x
    rw [canSignalSend_toDict]
    exact Dict.setBit_applyinfo (property2canframe_applyinfo _ _ v) x
  obtain ⟨d', heq⟩ := canSignalSend_eq b a v sent
  exact ⟨h.layout.trans hlayout, h.applied.congr hlayout happly,
    h.events.congr (by rw [heq]) (by rw [heq]) hlayout.getPropertyDict⟩

theorem Sane.set {b : Binder} (h : Sane d b) (client : Client) (event value : Option String)
    (sent : Bool) : Sane d (b.set client event value sent).1 := by
  rcases set_cases b client event value sent with ⟨status, heq⟩ | ⟨a, v, heq, -⟩
  · rw [heq]
    exact h
  · rw [heq]
    exact h.canSignalSend a v sent

/-- One named subscription. -/
theorem Sane.subscribeOne {s : Binder × List (String × Json)} (h : Sane d s.1)
    (client : Client) (answers : DaemonAnswers) (name : String) :
    Sane d (subscribeOne client answers s name).1.1 := by
  refine h.of_toDict_eq (subscribeOne_toDict client answers s name) ?_
  obtain ⟨b, apply⟩ := s
  have hev : b.EventsWF := h.events
  rcases subscribeOne_cases client answers b apply name with heq | ⟨b', event, hfound, hcase⟩
  · rw [heq]
    exact hev
  · have hb' : b'.EventsWF := by
      rcases hfound with ⟨rfl, -⟩ | ⟨hnone, hr⟩
      · exact hev
      · exact (hev.registerEvent hnone hr).1
    rcases hcase with heq | heq
    · rw [heq]
      exact hb'
    · rw [heq]
      exact hb'.congr rfl rfl (fun _ => rfl)

theorem Sane.subscribeSignal {client : Client} {answers : DaemonAnswers} {depth : ℕ}
    {s s' : Binder × List (String × Json)} {name : String} {e : ℕ} (h : Sane d s.1)
    (hs : subscribeSignal client answers depth s name = some (s', e)) : Sane d s'.1 := by
  exact subscribeSignal_invariant (P := fun t => Sane d t.1)
    (fun _ n _ ht => ht.subscribeOne client answers n) hs h

theorem Sane.subscribe {b b' : Binder} {client : Client} {event : Option String}
    {answers : DaemonAnswers} {out : List Output} (h : Sane d b)
    (hs : b.subscribe client event answers = some (b', out)) : Sane d b' := by
  refine h.of_toDict_eq (subscribe_toDict hs) ?_
  rcases subscribe_cases hs with ⟨-, rfl, -⟩ | ⟨name, b₁, apply, err, -, heq, rfl, -⟩
  · exact h.events
  · have h₁ : Sane d b₁ := Sane.subscribeSignal (s := (b, [])) h heq
    obtain ⟨filter, hfilter⟩ := socketcanUpdateFilter_eq b₁ b₁.getSubscribedCanids
    rw [hfilter]
    exact h₁.events.congr rfl rfl (fun _ => rfl)

/-- One named unsubscription. -/
theorem Sane.unsubscribeOne {b : Binder} (h : Sane d b) (client : Client)
    (answers : DaemonAnswers) (name : String) :
    Sane d (unsubscribeOne client answers b name).1 := by
  refine h.of_toDict_eq (unsubscribeOne_toDict client answers b name) ?_
  rcases unsubscribeOne_cases client answers b name with heq | ⟨event, -, heq⟩
  · rw [heq]
    exact h.events
  · rw [heq]
    exact h.events.congr rfl rfl (fun _ => rfl)

theorem Sane.unsubscribeSignal {client : Client} {answers : DaemonAnswers} {depth : ℕ}
    {b b' : Binder} {name : String} {e : ℕ} (h : Sane d b)
    (hs : unsubscribeSignal client answers depth b name = some (b', e)) : Sane d b' := by
  exact unsubscribeSignal_invariant (P := fun t => Sane d t)
    (fun _ n _ ht => ht.unsubscribeOne client answers n) hs h

theorem Sane.unsubscribe {b b' : Binder} {client : Client} {args : Option Json}
    {answers : DaemonAnswers} {out : List Output} (h : Sane d b)
    (hs : b.unsubscribe client args answers = some (b', out)) : Sane d b' := by
  exact unsubscribe_invariant (P := fun t => Sane d t)
    (fun _ n _ ht => ht.unsubscribeOne client answers n) hs h

/-- **Every input keeps the state sane.** -/
theorem Sane.step {b b' : Binder} {input : Input} {out : List Output} (hd : d.WF)
    (h : Sane d b) (hs : b.step input = some (b', out)) : Sane d b' := by
  cases input with
  | frame frame timestamp =>
    rw [← (step_frame hs).1]
    exact h.parseFrame hd frame timestamp
  | timer c sent =>
    cases hs
    exact h
  | get client event =>
    cases hs
    exact h
  | set client event value sent =>
    have hb' := h.set client event value sent
    rwa [step_set hs] at hb'
  | list client =>
    cases hs
    exact h
  | subscribe client event answers => exact h.subscribe hs
  | unsubscribe client args answers => exact h.unsubscribe hs

/-- **Every state of a run is sane.** -/
theorem sane_run (hd : Dict.Sound d) {ins : List Input} {b : Binder} {outs : List Output}
    (hr : run (start d) ins = some (b, outs)) : Sane d b :=
  Machine.run_invariant (fun s => Sane d s) (fun _ _ _ _ hs _ hstep => hs.step hd.wf hstep)
    (sane_start hd.pristine) (Machine.meets_of_forall (fun _ _ => trivial) _ ins) hr

end Binder
