import CanBinder.Configuration
import CanBinder.Events

/-!
# Whose value is pushed

A notification is pushed under the name of the entry that was updated, with
the value of that entry. For an entry the dictionary resolves its name to,
that is the value `get` reports. An entry that was refused, because its name
belongs to another CAN-ID, stays in its array and is decoded like any other,
so that a frame of its CAN-ID pushes its value under the name of the property
it conflicts with.
-/

namespace Binder

variable {d : Dict}

/-- No update makes an event. -/
theorem Sane.getEvent_update {b : Binder} (hd : d.WF) (h : Sane d b) {canV64 : BitVec 64}
    {c : CanId} {i : ℕ} {timestamp : Timeval} {n : String} (hnone : b.getEvent n = none) :
    (b.updateIviproperty canV64 (.slot c i) timestamp).1.getEvent n = none := by
  have hdec := h.decodedInto hd canV64 c i timestamp
  cases hn : b.notifies canV64 (.slot c i) timestamp with
  | false =>
    rw [(updateIviproperty_of_not_notifies hn).1]
    exact hnone
  | true =>
    rw [(updateIviproperty_of_notifies hn).1]
    rcases hdec.events.notify_cases (.slot c i) with ⟨-, heq⟩ | ⟨event, hev, ⟨-, heq⟩ | ⟨-, heq⟩⟩
    · rw [heq]
      exact hnone
    · rw [heq]
      exact hnone
    · rw [heq]
      unfold removeEvent
      rw [hev]
      show SearchTree.tfind BindEvent.name n (SearchTree.tdelete _ _ _) = none
      rw [SearchTree.tfind_tdelete hdec.events.tree]
      split_ifs
      · rfl
      · exact hnone

/-! ## One frame -/

/-- **Along an array, every push is of the property its name resolves to**:
each slot in its turn, at the moment it notifies. -/
def PushesResolved (canV64 : BitVec 64) (c : CanId) (timestamp : Timeval) :
    List ℕ → Binder → Prop
  | [], _ => True
  | i :: slots, b =>
    (∀ n v cl, .push n v cl ∈ (b.updateIviproperty canV64 (.slot c i) timestamp).2.1 →
      (b.updateIviproperty canV64 (.slot c i) timestamp).1.getPropertyDict n = some (.slot c i)
        ∧ v = (b.updateIviproperty canV64 (.slot c i) timestamp).1.property2json (.slot c i))
      ∧ PushesResolved canV64 c timestamp slots
        (b.updateIviproperty canV64 (.slot c i) timestamp).1

/-- **Every push of an input is of the property its name resolves to.** Only
frames push. -/
def InputPushesResolved (b : Binder) : Input → Prop
  | .frame frame timestamp =>
    8#8 < frame.canDlc ∨
      ∀ c, b.getCANIDDict ((frame.canId &&& CAN_SFF_MASK).setWidth 16) = some c →
        (b.info c).kind = .send ∨
        PushesResolved (canvalue2host frame.data) c timestamp (List.range (b.info c).nData)
          { b with toDict := b.setInfo c { b.info c with canrawFrame := frame } }
  | _ => True

/-- **No event is under a refused name**: of the names in the array the input
is for, those of CAN-IDs defined before have no event. -/
def NoRefusedEvent (cs : List CanidDef) (b : Binder) : Input → Prop
  | .frame frame _ =>
    ∀ pre c post, cs = pre ++ c :: post →
      c.info.canid = (frame.canId &&& CAN_SFF_MASK).setWidth 16 →
      ∀ e ∈ c.property, usesName pre e.name = true → b.getEvent e.name = none
  | _ => True

/-- Along an array in which every slot is a property or has no event. -/
theorem Sane.pushesResolved {b : Binder} (hd : d.WF) (h : Sane d b) {canV64 : BitVec 64}
    {c : CanId} {timestamp : Timeval} {slots : List ℕ}
    (hslots : ∀ i ∈ slots, .slot c i ∈ d.propertyRoot ∨ b.getEvent (d.name (.slot c i)) = none) :
    PushesResolved canV64 c timestamp slots b := by
  induction slots generalizing b with
  | nil => exact trivial
  | cons i slots ih =>
    have hafter := h.updateIviproperty hd canV64 c i timestamp
    have hname : b.name (.slot c i) = d.name (.slot c i) := congrFun h.layout.name_eq _
    refine ⟨fun n v cl ho => ?_, ih hafter (fun j hj => ?_)⟩
    · obtain ⟨hn, hev, hv⟩ := h.of_push hd ho
      rcases hslots i List.mem_cons_self with hr | hnone
      · refine ⟨?_, hv⟩
        rw [hafter.layout.getPropertyDict, hn, hname]
        exact hd.getPropertyDict_eq_some_iff.mpr ⟨hr, rfl⟩
      · rw [hn, hname] at hev
        exact absurd hnone hev
    · exact (hslots j (List.mem_cons_of_mem i hj)).imp_right (h.getEvent_update hd)

/-- **A notification carries the value of the property its name resolves
to**, unless there is an event under a refused name. -/
theorem pushes_resolved {jobj : Json} {d : Dict} (hload : canDefineInit jobj = some d) :
    ∃ cs, configured jobj = some cs ∧ ∀ ins input b outs,
      Machine.Meets step (NoRefusedEvent cs) (start d) (ins ++ [input]) →
      run (start d) ins = some (b, outs) → InputPushesResolved b input := by
  obtain ⟨cs, hcs, hconf⟩ := Dict.configured_of_canDefineInit hload
  refine ⟨cs, hcs, fun ins input b outs hok hr => ?_⟩
  have hsane : Sane d b := sane_run hconf.sound hr
  have hok' : NoRefusedEvent cs b input := (hok.rest hr).1
  cases input with
  | frame frame timestamp =>
    refine Or.inr (fun c hc => Or.inr ?_)
    rw [hsane.layout.getCANIDDict] at hc
    obtain ⟨hcroot, hcid⟩ := hconf.sound.wf.getCANIDDict_eq_some_iff.mp hc
    obtain ⟨x, hx, hxc⟩ := (hconf.canids c).mp hcroot
    obtain ⟨pre, post, hsplit⟩ := List.append_of_mem hx
    refine Sane.pushesResolved hconf.sound.wf (hsane.setFrame c frame) (fun i hi => ?_)
    by_cases hroot : .slot c i ∈ d.propertyRoot
    · exact Or.inl hroot
    · have hi' : i < (d.info c).nData := by
        rw [← (hsane.layout.info_eq c).2.1]
        exact List.mem_range.mp hi
      subst hxc
      exact Or.inr (hok' pre x post hsplit hcid _ (hconf.toPropDef_mem hsplit hi')
        (hconf.refused pre x post hsplit i hi' hroot))
  | _ => exact trivial

theorem pushes_resolved_sample :
    ∃ d b outs, canDefineInit sampleConfig = some d
      ∧ run (start d) [.subscribe 1 (some "speed") {}] = some (b, outs)
      ∧ InputPushesResolved b (.frame ⟨0x100#32, 8#8, fun _ => 1#8⟩ ⟨3, 0⟩) := by
  have hload : (canDefineInit sampleConfig).map (fun d =>
      (run (start d) [.subscribe 1 (some "speed") {}]).isSome) = some true := by
    decide
  obtain ⟨d, hd, hrun⟩ := Option.map_eq_some_iff.mp hload
  obtain ⟨⟨b, outs⟩, hr⟩ := Option.isSome_iff_exists.mp hrun
  obtain ⟨cs, hcs, hall⟩ := pushes_resolved hd
  have hnames : (configured sampleConfig).map (fun cs => decide (NamesDisjoint cs))
      = some true := by
    decide
  rw [hcs] at hnames
  have hdis : NamesDisjoint cs := of_decide_eq_true (Option.some.inj hnames)
  -- no name belongs to two CAN-IDs, so none was refused
  have hok : ∀ s, NoRefusedEvent cs s (.frame ⟨0x100#32, 8#8, fun _ => 1#8⟩ ⟨3, 0⟩) :=
    fun s pre c post hsplit _ e he hused =>
      absurd ((hdis.usesName_eq_false hsplit he).symm.trans hused) Bool.false_ne_true
  exact ⟨d, b, outs, hd, hr, hall [.subscribe 1 (some "speed") {}] _ b outs
    ⟨trivial, fun s out _ => ⟨hok s, fun _ _ _ => trivial⟩⟩ hr⟩

/-- The name an output pushes under. -/
def pushedName : Output → Option String
  | .push n _ _ => some n
  | _ => none

/-- A frame of the second CAN-ID of two that conflict. -/
def secondFrame : CanFrame := ⟨0x200#32, 8#8, fun _ => 1#8⟩

/-- What that frame does to the only entry of its CAN-ID. -/
def secondUpdate (b : Binder) : Binder × List Output × ℤ :=
  let c : CanId := 0x200#16
  updateIviproperty { b with toDict := b.setInfo c { b.info c with canrawFrame := secondFrame } }
    (canvalue2host secondFrame.data) (.slot c 0) ⟨0, 0⟩

/-- The value of the second CAN-ID goes out under the name of the first. -/
theorem not_pushes_resolved_conflicting :
    ∃ d b outs, canDefineInit conflictingConfig = some d
      ∧ run (start d) [.subscribe 1 (some "speed") {}] = some (b, outs)
      ∧ ¬InputPushesResolved b (.frame secondFrame ⟨0, 0⟩) := by
  have hload : (canDefineInit conflictingConfig).map (fun d =>
      (run (start d) [.subscribe 1 (some "speed") {}]).map (fun r =>
        ((r.1.getCANIDDict 0x200#16, (r.1.info 0x200#16).kind, (r.1.info 0x200#16).nData),
          (secondUpdate r.1).2.1.filterMap pushedName,
          (secondUpdate r.1).1.getPropertyDict "speed")))
      = some (some ((some 0x200#16, .readonly, 1), ["speed"], some (.slot 0x100#16 0))) := by
    decide
  obtain ⟨d, hd, hrun⟩ := Option.map_eq_some_iff.mp hload
  obtain ⟨⟨b, outs⟩, hr, hres⟩ := Option.map_eq_some_iff.mp hrun
  simp only [Prod.mk.injEq] at hres
  obtain ⟨⟨hcanid, hkind, hdata⟩, hpush, hdict⟩ := hres
  refine ⟨d, b, outs, hd, hr, fun h => ?_⟩
  rcases h with hdlc | h
  · exact absurd hdlc (by decide)
  rcases h 0x200#16 hcanid with hsend | hslots
  · rw [hkind] at hsend
    cases hsend
  rw [hdata] at hslots
  have hmem : "speed" ∈ (secondUpdate b).2.1.filterMap pushedName := by
    rw [hpush]
    exact List.mem_singleton_self _
  obtain ⟨o, ho, hon⟩ := List.mem_filterMap.mp hmem
  -- only a push has a pushed name
  cases o <;> cases hon
  have hbad : (secondUpdate b).1.getPropertyDict "speed" = some (.slot 0x200#16 0) :=
    (hslots.1 "speed" _ _ ho).1
  rw [hdict] at hbad
  cases hbad

end Binder
