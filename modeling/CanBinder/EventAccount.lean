import CanBinder.Events
import CanBinder.Sending

/-!
# No event is lost

The daemon makes an event for the binding when a name is first subscribed to,
and the binding drops it when nobody is left to be told. Whatever happens in
between, the handles of the events that were made are those of the events in the
registry and of those that were dropped, each of them once
(`Binder.events_accounted`). There are never more of them in the registry than
there are properties.
-/

/-- An event is dropped. -/
def Output.isDrop : Output → Bool
  | .drop _ => true
  | _ => false

/-- The name under which an event is dropped. -/
def Output.dropName : Output → Option String
  | .drop n => some n
  | _ => none

theorem Output.dropName_eq_none {o : Output} (h : o.isDrop = false) : o.dropName = none := by
  cases o with
  | drop n => cases h
  | _ => rfl

/-- The drops are counted by the names. -/
theorem Output.length_filterMap_dropName (out : List Output) :
    (out.filterMap Output.dropName).length = out.countP Output.isDrop := by
  induction out with
  | nil => rfl
  | cons o out ih =>
    rw [List.filterMap_cons, List.countP_cons, ← ih]
    cases o <;> rfl

/-- The daemon's handle of an event. -/
def BindEvent.handle (event : BindEvent) : ℕ := event.event.closure

namespace Binder

/-- The handles in the registry. -/
def handles (b : Binder) : List ℕ := b.bindEventRoot.map BindEvent.handle

/-- **Events `gone` were dropped on the way and `k` were made**: each handle that
was there or was made then is there still, or is that of one that was dropped. -/
def Accounts (b : Binder) (out : List Output) (b' : Binder) : Prop :=
  ∃ (gone : List BindEvent) (k : ℕ), gone.map BindEvent.name = out.filterMap Output.dropName
    ∧ b'.nextEvent = b.nextEvent + k
    ∧ (gone.map BindEvent.handle ++ b'.handles).Perm (b.handles ++ List.range' b.nextEvent k)

theorem Accounts.trans {b b' b'' : Binder} {out out' : List Output} (h : Accounts b out b')
    (h' : Accounts b' out' b'') : Accounts b (out ++ out') b'' := by
  obtain ⟨gone, k, hgone, hk, hperm⟩ := h
  obtain ⟨gone', k', hgone', hk', hperm'⟩ := h'
  refine ⟨gone ++ gone', k + k', ?_, by rw [hk', hk, Nat.add_assoc], ?_⟩
  · rw [List.map_append, List.filterMap_append, hgone, hgone']
  · have hmade : List.range' b.nextEvent (k + k')
        = List.range' b.nextEvent k ++ List.range' b'.nextEvent k' := by
      rw [hk, List.range'_append_1]
    rw [List.map_append, List.append_assoc, hmade, ← List.append_assoc b.handles]
    refine (hperm'.append_left _).trans ?_
    rw [← List.append_assoc]
    exact hperm.append_right _

/-- Where no event is made and none is dropped. -/
theorem accounts_of_eq {b b' : Binder} {out : List Output}
    (hroot : b'.bindEventRoot = b.bindEventRoot) (hnext : b'.nextEvent = b.nextEvent)
    (hout : ∀ o ∈ out, o.isDrop = false) : Accounts b out b' := by
  have hnone : out.filterMap Output.dropName = [] :=
    List.filterMap_eq_nil_iff.mpr (fun o ho => Output.dropName_eq_none (hout o ho))
  refine ⟨[], 0, hnone.symm, hnext, ?_⟩
  unfold handles
  rw [hroot, List.range'_zero, List.append_nil]
  exact List.Perm.refl _

theorem accounts_nil {b b' : Binder} (hroot : b'.bindEventRoot = b.bindEventRoot)
    (hnext : b'.nextEvent = b.nextEvent) : Accounts b [] b' :=
  accounts_of_eq hroot hnext (fun _ ho => absurd ho List.not_mem_nil)

/-- **An event that is removed** is dropped. -/
theorem EventsWF.accounts_removeEvent {b : Binder} (h : b.EventsWF) (name : String) :
    Accounts b (b.removeEvent name).2 (b.removeEvent name).1 := by
  unfold Binder.removeEvent
  cases hev : b.getEvent name with
  | none => exact accounts_nil rfl rfl
  | some event =>
    obtain ⟨hmem, rfl⟩ := h.getEvent_eq_some_iff.mp hev
    refine ⟨[event], 0, rfl, rfl, ?_⟩
    rw [List.range'_zero, List.append_nil]
    exact (SearchTree.perm_tdelete h.tree hmem).map BindEvent.handle

/-- **An event that is made** is registered, under a handle of its own. -/
theorem accounts_registerEvent {b b' : Binder} {answers : DaemonAnswers} {name : String}
    {event : BindEvent} (hnone : b.getEvent name = none)
    (hr : b.registerEvent answers name = some (b', event)) : Accounts b [] b' := by
  obtain ⟨a, -, rfl, rfl⟩ := registerEvent_eq_some hr
  refine ⟨[], 1, rfl, rfl, ?_⟩
  have hnew : SearchTree.tfind BindEvent.name
      (BindEvent.name ⟨name, ⟨true, b.nextEvent⟩, a⟩) b.bindEventRoot = none := hnone
  have hperm := (SearchTree.perm_tsearch hnew).map BindEvent.handle
  exact hperm.trans (List.perm_append_singleton _ _).symm

/-- A notification. -/
theorem EventsWF.accounts_notify {b : Binder} (h : b.EventsWF) (a : Addr) :
    Accounts b (b.notifyPropertyChanged a).2 (b.notifyPropertyChanged a).1 := by
  rcases h.notify_cases a with ⟨-, heq⟩ | ⟨event, -, ⟨-, heq⟩ | ⟨-, heq⟩⟩
  · rw [heq]
    exact accounts_nil rfl rfl
  · rw [heq]
    exact accounts_of_eq rfl rfl (List.forall_mem_singleton.mpr rfl)
  · rw [heq]
    have hpush : Accounts b [.push (b.name a) (b.property2json a) []] b :=
      accounts_of_eq rfl rfl (List.forall_mem_singleton.mpr rfl)
    exact hpush.trans (h.accounts_removeEvent _)

section Sane

variable {d : Dict} {b : Binder}

/-- The update of an entry. -/
theorem Sane.accounts_update (hd : d.WF) (h : Sane d b) (canV64 : BitVec 64) (c : CanId) (i : ℕ)
    (timestamp : Timeval) :
    Accounts b (b.updateIviproperty canV64 (.slot c i) timestamp).2.1
      (b.updateIviproperty canV64 (.slot c i) timestamp).1 := by
  have hdec := h.decodedInto hd canV64 c i timestamp
  cases hn : b.notifies canV64 (.slot c i) timestamp with
  | true =>
    obtain ⟨hfst, hsnd⟩ := updateIviproperty_of_notifies hn
    rw [hfst, hsnd]
    exact hdec.events.accounts_notify _
  | false =>
    obtain ⟨hfst, hsnd⟩ := updateIviproperty_of_not_notifies hn
    rw [hfst, hsnd]
    exact accounts_nil rfl rfl

/-- The decoding of an array. -/
theorem Sane.accounts_parseCandata (hd : d.WF) (h : Sane d b) (canV64 : BitVec 64) (c : CanId)
    (timestamp : Timeval) (slots : List ℕ) :
    Accounts b (Binder.parseCandata canV64 c timestamp slots b).2
      (Binder.parseCandata canV64 c timestamp slots b).1 := by
  induction slots generalizing b with
  | nil => exact accounts_nil rfl rfl
  | cons i slots ih =>
    exact (h.accounts_update hd canV64 c i timestamp).trans
      (ih (h.updateIviproperty hd canV64 c i timestamp))

/-- One frame. -/
theorem Sane.accounts_parseFrame (hd : d.WF) (h : Sane d b) (frame : CanFrame)
    (timestamp : Timeval) :
    Accounts b (b.parseFrame frame timestamp).2.1 (b.parseFrame frame timestamp).1 := by
  rcases parseFrame_cases hd h.layout frame timestamp with
    ⟨-, heq⟩ | ⟨c, -, -, ⟨-, heq⟩ | ⟨-, heq⟩⟩
  · rw [heq]
    exact accounts_nil rfl rfl
  · rw [heq]
    exact accounts_nil rfl rfl
  · rw [heq]
    have hkeep : Accounts b [] (b.keepFrame c frame) :=
      accounts_nil rfl rfl
    exact hkeep.trans ((h.setFrame c frame).accounts_parseCandata hd _ c timestamp _)

/-- **One named subscription**: an event that is made is registered. -/
theorem accounts_subscribeOne (client : Client) (answers : DaemonAnswers)
    (s : Binder × List (String × Json)) (name : String) :
    Accounts s.1 [] (subscribeOne client answers s name).1.1 := by
  obtain ⟨b, apply⟩ := s
  rcases subscribeOne_cases client answers b apply name with heq | ⟨b', event, hfound, hcase⟩
  · rw [heq]
    exact accounts_nil rfl rfl
  · have hmade : Accounts b [] b' := by
      rcases hfound with ⟨rfl, -⟩ | ⟨hnone, hr⟩
      · exact accounts_nil rfl rfl
      · exact accounts_registerEvent hnone hr
    rcases hcase with heq | heq
    · rw [heq]
      exact hmade
    · rw [heq]
      exact hmade

/-- A value that is set, and the answer. -/
theorem accounts_set (b : Binder) (client : Client) (event value : Option String) (sent : Bool) :
    Accounts b (b.set client event value sent).2 (b.set client event value sent).1 := by
  obtain ⟨d', heq⟩ := set_eq b client event value sent
  have hout : ∀ o ∈ (b.set client event value sent).2, o.isDrop = false := by
    by_cases hres : ∃ n v a, event = some n ∧ value = some v ∧ b.getPropertyDict n = some a
    · obtain ⟨n, v, a, rfl, rfl, ha⟩ := hres
      intro o ho
      rw [(set_of_resolves ha client v sent).2, List.mem_append, List.mem_append] at ho
      rcases ho with (ho | ho) | ho
      · rw [send_of_mem_canSignalSend ho]
        rfl
      · unfold updateSendTimer at ho
        split at ho
        · rw [List.mem_singleton.mp ho]
          rfl
        · exact absurd ho List.not_mem_nil
      · rw [List.mem_singleton.mp ho]
        rfl
    · obtain ⟨status, hset⟩ := set_of_not_resolves hres client sent
      rw [hset]
      exact List.forall_mem_singleton.mpr rfl
  rw [heq]
  exact accounts_of_eq rfl rfl hout

theorem isDrop_get (b : Binder) (client : Client) (event : Option String) :
    ∀ o ∈ b.get client event, o.isDrop = false := by
  unfold get
  split
  · exact List.forall_mem_singleton.mpr rfl
  · split
    · exact List.forall_mem_singleton.mpr rfl
    · split <;> exact List.forall_mem_singleton.mpr rfl

/-- **One input.** -/
theorem Sane.accounts_step (hd : d.WF) (h : Sane d b) {b' : Binder} {input : Input}
    {out : List Output} (hs : b.step input = some (b', out)) : Accounts b out b' := by
  cases input with
  | frame frame timestamp =>
    obtain ⟨hfst, hsnd⟩ := step_frame hs
    rw [← hfst, ← hsnd]
    exact h.accounts_parseFrame hd frame timestamp
  | timer c sent =>
    cases hs
    refine accounts_of_eq rfl rfl (fun o ho => ?_)
    unfold onTimerEvent at ho
    split_ifs at ho
    · rw [eq_of_mem_socketcanSend ho]
      rfl
    · exact absurd ho List.not_mem_nil
  | get client event =>
    cases hs
    exact accounts_of_eq rfl rfl (b.isDrop_get client event)
  | set client event value sent =>
    have hset := b.accounts_set client event value sent
    rwa [step_set hs] at hset
  | list client =>
    cases hs
    exact accounts_of_eq rfl rfl (List.forall_mem_singleton.mpr rfl)
  | subscribe client event answers =>
    rcases subscribe_cases hs with ⟨-, rfl, rfl⟩ | ⟨name, b₁, apply, err, -, hsub, rfl, rfl⟩
    · exact accounts_of_eq rfl rfl (List.forall_mem_singleton.mpr rfl)
    · have hone : Accounts b [] b₁ := subscribeSignal_invariant
        (P := fun t : Binder × List (String × Json) => Accounts b [] t.1)
        (fun t n _ ht => ht.trans (accounts_subscribeOne client answers t n)) hsub
        (accounts_nil rfl rfl)
      obtain ⟨filter, hfilter⟩ := socketcanUpdateFilter_eq b₁ b₁.getSubscribedCanids
      rw [hfilter]
      refine hone.trans (accounts_of_eq rfl rfl (fun o ho => ?_))
      rw [List.mem_singleton.mp ho]
      split_ifs <;> rfl
  | unsubscribe client args answers =>
    obtain ⟨names, err, -, -, rfl⟩ := unsubscribe_eq_some hs
    have hkeep : b'.bindEventRoot = b.bindEventRoot ∧ b'.nextEvent = b.nextEvent :=
      unsubscribe_invariant
        (P := fun t => t.bindEventRoot = b.bindEventRoot ∧ t.nextEvent = b.nextEvent)
        (fun t n _ ht => by
          rcases unsubscribeOne_cases client answers t n with heq | ⟨event, -, heq⟩
          · rw [heq]
            exact ht
          · rw [heq]
            exact ht) hs ⟨rfl, rfl⟩
    refine accounts_of_eq hkeep.1 hkeep.2 (fun o ho => ?_)
    rw [List.mem_singleton.mp ho]
    split_ifs <;> rfl

end Sane

/-- There are no more events than properties. -/
theorem Sane.length_bindEventRoot_le {d : Dict} {b : Binder} (hd : d.WF) (h : Sane d b) :
    b.bindEventRoot.length ≤ d.propertyRoot.length := by
  have hsub : b.bindEventRoot.map BindEvent.name ⊆ d.propertyRoot.map d.name := by
    intro n hn
    obtain ⟨e, he, rfl⟩ := List.mem_map.mp hn
    have hres := h.events.info e he
    rw [h.layout.getPropertyDict] at hres
    obtain ⟨hroot, hname⟩ := hd.getPropertyDict_eq_some_iff.mp hres
    exact List.mem_map.mpr ⟨e.rawInfo, hroot, hname⟩
  have hlen := (h.events.tree.nodup_map.subperm hsub).length_le
  rwa [List.length_map, List.length_map] at hlen

/-- **No event is lost**: over any run, the handles of the events that the daemon
made are those of the events in the registry and of the events that were dropped,
each of them once; and in the registry there are never more than there are
properties. -/
theorem events_accounted {jobj : Json} {d : Dict} (hload : canDefineInit jobj = some d)
    {ins : List Input} {b : Binder} {outs : List Output}
    (hrun : run (start d) ins = some (b, outs)) :
    (∃ gone : List BindEvent, gone.map BindEvent.name = outs.filterMap Output.dropName
        ∧ (gone.map BindEvent.handle ++ b.handles).Perm (List.range b.nextEvent))
      ∧ b.nextEvent = b.bindEventRoot.length + outs.countP Output.isDrop
      ∧ b.bindEventRoot.length ≤ d.propertyRoot.length := by
  have hsound := (Dict.registered_of_canDefineInit hload).sound
  have hinv := Machine.run_history
    (fun _ outs s => Sane d s ∧ Accounts (start d) outs s)
    (fun _ outs s e s' out hs _ hstep =>
      ⟨hs.1.step hsound.wf hstep, hs.2.trans (hs.1.accounts_step hsound.wf hstep)⟩)
    ⟨sane_start hsound.pristine, accounts_nil rfl rfl⟩
    (Machine.meets_of_forall (fun _ _ => trivial) _ ins) hrun
  obtain ⟨gone, k, hgone, hk, hperm⟩ := hinv.2
  have hmade : b.nextEvent = k := hk.trans (Nat.zero_add k)
  have hrange : (start d).handles ++ List.range' (start d).nextEvent k
      = List.range b.nextEvent := by
    rw [hmade]
    exact List.range_eq_range'.symm
  rw [hrange] at hperm
  refine ⟨⟨gone, hgone, hperm⟩, ?_, hinv.1.length_bindEventRoot_le hsound.wf⟩
  have hlength := hperm.length_eq
  have hdropped := congrArg List.length hgone
  unfold handles at hlength
  rw [List.length_append, List.length_map, List.length_map, List.length_range] at hlength
  rw [List.length_map, Output.length_filterMap_dropName] at hdropped
  omega

/-- Somebody comes and goes, a frame finds nobody, and somebody else comes. -/
def comeAndGo : List Input :=
  [.subscribe 1 (some "speed") {}, .unsubscribe 1 none {},
    .frame ⟨0x100#32, 8#8, fun _ => 1#8⟩ ⟨1, 0⟩, .subscribe 2 (some "speed") {}]

/-- The first event is dropped, and the second is there. -/
theorem events_accounted_sample :
    ∃ d b outs, canDefineInit sampleConfig = some d ∧ run (start d) comeAndGo = some (b, outs)
      ∧ b.nextEvent = 2 ∧ outs.filterMap Output.dropName = ["speed"]
      ∧ (∃ gone : List BindEvent, gone.map BindEvent.name = outs.filterMap Output.dropName
        ∧ (gone.map BindEvent.handle ++ b.handles).Perm (List.range b.nextEvent))
      ∧ b.nextEvent = b.bindEventRoot.length + outs.countP Output.isDrop
      ∧ b.bindEventRoot.length ≤ d.propertyRoot.length := by
  have hload : (canDefineInit sampleConfig).bind (fun d => (run (start d) comeAndGo).map
      (fun r => (r.1.nextEvent, r.2.filterMap Output.dropName))) = some (2, ["speed"]) := by
    decide
  obtain ⟨d, hd, hrun⟩ := Option.bind_eq_some_iff.mp hload
  obtain ⟨⟨b, outs⟩, hrun, hval⟩ := Option.map_eq_some_iff.mp hrun
  obtain ⟨hmade, hdropped⟩ := Prod.mk.inj hval
  exact ⟨d, b, outs, hd, hrun, hmade, hdropped, events_accounted hd hrun⟩

end Binder
