import CanBinder.Configuration
import CanBinder.Subscriptions

/-!
# What a subscriber knows

A subscriber that is notified of every change of what a property reports
knows its value. An update that does not notify leaves a single entry as it
is, but not a chain: the values of a chain are reset before they are decoded,
so a frame that activates no entry inside the cycle, or one that holds a
value an entry cannot take, sets the reported value to zero and tells nobody.

`KeepsUpdate` excludes these frames, and for the others the subscriber of an
integer or bool property always has the value that `get` reports.
-/

/-- **The integer types and `bool`.** -/
def PropDef.Scalar (p : PropDef) : Prop :=
  p.varType ∈ [.int8, .int16, .int, .int32, .int64, .uint8, .uint16, .uint, .uint32, .uint64,
    .bool]

/-- A branch of the type switch that reports every change. -/
theorem CanBit.assign_curValue {p : CanBit} {differs : Bool} {value : DataContent}
    (h : (p.assign differs value true).1 ≠ .updated) :
    (p.assign differs value true).2.curValue = p.curValue := by
  unfold CanBit.assign at h ⊢
  cases differs with
  | true => exact absurd rfl h
  | false => rfl

/-- **A scalar that is not reported as updated has not changed.** -/
theorem PropDef.Scalar.decode_eq {p : PropDef} (h : p.Scalar) {c : DataContent} {v : BitVec 32}
    (hstat : (p.decode c v).1 ≠ .updated) : (p.decode c v).2 = c := by
  obtain ⟨name, kind, bytePos, bitPos, bitLen, varType, dataconv, nconv⟩ := p
  unfold PropDef.decode updatePropertyValue at hstat ⊢
  simp only [PropDef.Scalar, List.mem_cons, List.not_mem_nil, or_false] at h
  dsimp only at hstat ⊢
  by_cases hrange : dataconv.isSome = true ∧ nconv ≤ v.toNat
  · rw [if_pos hrange]
  · rw [if_neg hrange] at hstat ⊢
    rcases h with rfl | rfl | rfl | rfl | rfl | rfl | rfl | rfl | rfl | rfl | rfl <;>
      cases dataconv <;> first | rfl | exact CanBit.assign_curValue hstat

namespace Dict

/-- What an entry reports depends on its definition and its value. -/
theorem report_congr {p q : CanBit} (hdef : q.toPropDef = p.toPropDef)
    (hval : q.curValue = p.curValue) : report q = report p := by
  have hobj : valueObject q = valueObject p := by
    unfold valueObject propertyValueInt
    rw [hdef, hval]
  unfold report
  rw [hobj]

variable {d : Dict}

/-- **The frame keeps what the property reports known**: the property is a
single entry, or every entry of its chain can take its value, and one of them
is active, or the cycle is over, or there is no value to lose. -/
def KeepsUpdate (d : Dict) (canV64 : BitVec 64) (a : Addr) (timestamp : Timeval) : Prop :=
  (d.mem a).next = none
    ∨ (∀ x ∈ d.chain a, (d.mem x).unreadable canV64 = false)
      ∧ ((∃ x ∈ d.chain a, (d.mem x).active canV64 = true)
        ∨ (d.info (d.mem a).mycanid).cycle ≤ elapsMs (d.mem a).updatetime timestamp
        ∨ (d.mem (d.applied a)).curValue = DataContent.zero)

/-- The entry a property reports is one of its chain. -/
theorem AppliedInChain.applied_mem (hap : AppliedInChain d) {a : Addr} (ha : a ∈ d.propertyRoot) :
    d.applied a ∈ d.chain a := by
  unfold applied
  cases h : (d.mem a).applyinfo with
  | none => exact self_mem_chain d a
  | some m => exact (hap a ha).1 m h

/-- A single entry that is not notified has not changed. -/
theorem curValue_of_not_notifies_single {a : Addr} (hnext : (d.mem a).next = none)
    (hscalar : (d.mem a).Scalar) {canV64 : BitVec 64} {timestamp : Timeval}
    (h : d.notifies canV64 a timestamp = false) :
    ((d.updateProperty canV64 a timestamp).1.mem a).curValue = (d.mem a).curValue := by
  rw [updateProperty_single_curValue hnext]
  refine hscalar.decode_eq (fun hupd => ?_)
  unfold notifies at h
  rw [updateProperty_single hnext] at h
  generalize (d.mem a).decode (d.mem a).curValue ((d.mem a).raw canV64) = r at hupd h
  obtain ⟨st, c⟩ := r
  dsimp only at hupd
  subst hupd
  exact absurd h (by simp)

/-- When the marked entry is not notified, nothing is done with it: none was
marked inside the cycle, or the one applied was, and has the value it had. -/
theorem applyMark_eq_zero {a : Addr} {elaps cycle : BitVec 32} {preApValue : DataContent}
    {timestamp : Timeval} {mark : Option Addr} {update : ℕ}
    (h : (d.applyMark a elaps cycle preApValue timestamp mark update).2 = 0) :
    (d.applyMark a elaps cycle preApValue timestamp mark update).1 = d
      ∧ (mark = none ∧ ¬cycle ≤ elaps
        ∨ ∃ m, mark = some m ∧ (d.mem a).applyinfo = some m
          ∧ (d.mem m).curValue = preApValue) := by
  unfold applyMark at h ⊢
  cases mark with
  | none =>
    dsimp only at h ⊢
    split_ifs at h ⊢ with hcycle
    exact ⟨rfl, Or.inl ⟨rfl, hcycle⟩⟩
  | some m =>
    dsimp only at h ⊢
    split_ifs at h ⊢ with happly hcheck
    rw [not_or, not_not] at hcheck
    exact ⟨rfl, Or.inr ⟨m, rfl, not_not.mp happly, hcheck.1⟩⟩

/-- **A chain that is not notified reports what it did**, of the entry that was
applied. -/
theorem curValue_of_not_notifies_chain {a : Addr} (hnext : (d.mem a).next.isSome = true)
    (hnd : (d.chain a).Nodup) (hmem : d.applied a ∈ d.chain a)
    (hscalar : ∀ x ∈ d.chain a, (d.mem x).Scalar) {canV64 : BitVec 64} {timestamp : Timeval}
    (hread : ∀ x ∈ d.chain a, (d.mem x).unreadable canV64 = false)
    (hkeep : (∃ x ∈ d.chain a, (d.mem x).active canV64 = true)
      ∨ (d.info (d.mem a).mycanid).cycle ≤ elapsMs (d.mem a).updatetime timestamp
      ∨ (d.mem (d.applied a)).curValue = DataContent.zero)
    (h : d.notifies canV64 a timestamp = false) :
    ((d.updateProperty canV64 a timestamp).1.mem a).applyinfo = (d.mem a).applyinfo
      ∧ ((d.updateProperty canV64 a timestamp).1.mem (d.applied a)).curValue
        = (d.mem (d.applied a)).curValue := by
  unfold notifies at h
  rw [updateProperty_chain hnext hnd hread] at h ⊢
  dsimp only at h ⊢
  have hzero := Decidable.not_not.mp (of_decide_eq_false (Option.any_some ▸ h))
  obtain ⟨hsame, hcase⟩ := applyMark_eq_zero hzero
  rw [hsame, storeAll_applyinfo]
  refine ⟨rfl, ?_⟩
  rcases hcase with ⟨hmark, hcycle⟩ | ⟨m, -, happly, hval⟩
  · -- no entry is active, so every entry is decoded to zero
    have hidle : ∀ x ∈ d.chain a, (d.mem x).active canV64 = false := by
      intro x hx
      have hnil := List.getLast?_eq_none_iff.mp hmark
      exact Bool.eq_false_iff.mpr (List.filter_eq_nil_iff.mp hnil x hx)
    rw [storeAll_mem_of_mem hmem]
    rcases hkeep with ⟨x, hx, hact⟩ | hover | hz
    · rw [hidle x hx] at hact
      cases hact
    · exact absurd hover hcycle
    · rw [hz]
      exact (hscalar _ hmem).decode_eq (of_decide_eq_false (hidle _ hmem))
  · rw [storeAll_applyinfo] at happly
    have happlied : d.applied a = m := by
      unfold applied
      rw [happly]
      rfl
    rw [happlied, hval]
    unfold preApValue
    rw [happly]

/-- **What a property reports changes with a notification only**, at a frame
that keeps what is known. -/
theorem WF.property2json_of_not_notifies (hd : d.WF) (hap : AppliedInChain d) {c : CanId} {i : ℕ}
    (ha : .slot c i ∈ d.propertyRoot) (hscalar : ∀ x ∈ d.chain (.slot c i), (d.mem x).Scalar)
    {canV64 : BitVec 64} {timestamp : Timeval}
    (hkeep : d.KeepsUpdate canV64 (.slot c i) timestamp)
    (h : d.notifies canV64 (.slot c i) timestamp = false) :
    (d.updateProperty canV64 (.slot c i) timestamp).1.property2json (.slot c i)
      = d.property2json (.slot c i) := by
  have htouch := d.touches_updateProperty canV64 (.slot c i) timestamp
  have hlayout := htouch.sameLayout
  have hap' := hap.updateProperty hd c i canV64 timestamp
  have ha' : .slot c i ∈ (d.updateProperty canV64 (.slot c i) timestamp).1.propertyRoot :=
    hlayout.propertyRoot ▸ ha
  rw [property2json_eq hap' ha', property2json_eq hap ha]
  cases hnext : (d.mem (.slot c i)).next with
  | none =>
    have hchain := chain_of_next_none hnext
    have hchain' : (d.updateProperty canV64 (.slot c i) timestamp).1.chain (.slot c i)
        = [.slot c i] := by rw [hlayout.chain_eq, hchain]
    have happlied := hap.applied_mem ha
    have happlied' := hap'.applied_mem ha'
    rw [hchain, List.mem_singleton] at happlied
    rw [hchain', List.mem_singleton] at happlied'
    rw [happlied, happlied']
    exact report_congr (htouch.entry _).1 (curValue_of_not_notifies_single hnext
      (hscalar _ (d.self_mem_chain _)) h)
  | some y =>
    rcases hkeep with hnone | ⟨hread, hkeep⟩
    · rw [hnext] at hnone
      cases hnone
    · obtain ⟨happly, hval⟩ := curValue_of_not_notifies_chain (by rw [hnext]; rfl)
        (hd.nodup_chain ha) (hap.applied_mem ha) hscalar hread hkeep h
      have happlied : (d.updateProperty canV64 (.slot c i) timestamp).1.applied (.slot c i)
          = d.applied (.slot c i) := congrArg (fun o => Option.getD o (Addr.slot c i)) happly
      rw [happlied]
      exact report_congr (htouch.entry _).1 hval

/-- What a property reports depends on its chain. -/
theorem property2json_congr {d' : Dict} (hap : AppliedInChain d) (hap' : AppliedInChain d')
    (hlayout : d.SameLayout d') {a : Addr} (ha : a ∈ d.propertyRoot)
    (hmem : ∀ x ∈ d.chain a, d'.mem x = d.mem x) : d'.property2json a = d.property2json a := by
  have hself := hmem a (self_mem_chain d a)
  have happlied : d'.applied a = d.applied a := by
    unfold applied
    rw [hself]
  rw [property2json_eq hap' (hlayout.propertyRoot ▸ ha), property2json_eq hap ha, happlied,
    hmem _ (hap.applied_mem ha)]

/-- Whether a frame keeps what is known depends on the chain. -/
theorem KeepsUpdate.congr {d' : Dict} (hap : AppliedInChain d) (hlayout : d.SameLayout d')
    {a : Addr} (ha : a ∈ d.propertyRoot) (hmem : ∀ x ∈ d.chain a, d'.mem x = d.mem x)
    {canV64 : BitVec 64} {timestamp : Timeval} (h : d.KeepsUpdate canV64 a timestamp) :
    d'.KeepsUpdate canV64 a timestamp := by
  have hself := hmem a (self_mem_chain d a)
  have happlied : d'.applied a = d.applied a := by
    unfold applied
    rw [hself]
  unfold KeepsUpdate at h ⊢
  rw [hlayout.chain_eq, hself, happlied, hmem _ (hap.applied_mem ha),
    (hlayout.info_eq (d.mem a).mycanid).2.2.2.1]
  rcases h with h | ⟨hread, h⟩
  · exact Or.inl h
  · refine Or.inr ⟨fun x hx => by rw [hmem x hx]; exact hread x hx, ?_⟩
    rcases h with ⟨x, hx, hact⟩ | h
    · exact Or.inl ⟨x, hx, by rw [hmem x hx]; exact hact⟩
    · exact Or.inr h

/-! ## Names -/

/-- **Where every name belongs to one CAN-ID, no entry is refused.** -/
theorem Configured.slot_mem {cs : List CanidDef} (h : Configured cs d) (hdis : NamesDisjoint cs)
    {c : CanId} (hc : c ∈ d.canidRoot) {i : ℕ} (hi : i < (d.info c).nData) :
    .slot c i ∈ d.propertyRoot := by
  by_contra hr
  obtain ⟨x, hx, rfl⟩ := (h.canids c).mp hc
  obtain ⟨pre, post, hcs⟩ := List.append_of_mem hx
  have hused := h.refused pre x post hcs i hi hr
  exact Bool.false_ne_true
    ((hdis.usesName_eq_false hcs (h.toPropDef_mem hcs hi)).symm.trans hused)

/-- A slot of another address has another name. -/
theorem Configured.name_ne {cs : List CanidDef} (h : Configured cs d) (hdis : NamesDisjoint cs)
    {n : String} {a : Addr} (hres : d.getPropertyDict n = some a) {c : CanId}
    (hc : c ∈ d.canidRoot) {i : ℕ} (hi : i < (d.info c).nData) (hne : a ≠ .slot c i) :
    d.name (.slot c i) ≠ n := by
  intro hn
  have hself := h.sound.wf.getPropertyDict_eq_some_iff.mpr ⟨h.slot_mem hdis hc hi, hn⟩
  exact hne (Option.some.inj (hres.symm.trans hself))

end Dict

namespace Binder

/-- **The value a client was given last** under a name: the one it was given
first, and then those that were pushed to it. -/
def lastGiven (client : Client) (n : String) (first : Json) (outs : List Output) : Json :=
  outs.foldl (fun v o =>
    match o with
    | .push n' w clients => if n' = n ∧ client ∈ clients then w.getD .null else v
    | _ => v) first

/-- Outputs that push nothing under a name give nothing. -/
theorem lastGiven_of_forall {client : Client} {n : String} {outs : List Output}
    (h : ∀ n' w cl, .push n' w cl ∈ outs → n' ≠ n) (first : Json) :
    lastGiven client n first outs = first := by
  induction outs generalizing first with
  | nil => rfl
  | cons o outs ih =>
    have hrest := ih (fun n' w cl ho => h n' w cl (List.mem_cons_of_mem o ho))
    unfold lastGiven at hrest ⊢
    rw [List.foldl_cons, hrest]
    cases o with
    | push n' w cl => exact if_neg (fun hn => h n' w cl List.mem_cons_self hn.1)
    | _ => rfl

theorem lastGiven_append (client : Client) (n : String) (first : Json) (outs outs' : List Output) :
    lastGiven client n first (outs ++ outs')
      = lastGiven client n (lastGiven client n first outs) outs' :=
  List.foldl_append

/-! ## One frame -/

/-- **The client knows the property**: it is subscribed to its name, and the
value is what the property reports. -/
structure Informed (d : Dict) (client : Client) (n : String) (a : Addr) (v : Json)
    (b : Binder) : Prop where
  sane : Sane d b
  subscribed : b.Subscribed client n
  known : v = (b.property2json a).getD .null

section Informed

variable {cs : List CanidDef} {d : Dict} {client : Client} {n : String} {v : Json} {b : Binder}
  {c : CanId} {i : ℕ}

/-- The update of another slot. -/
theorem Informed.other (hconf : Dict.Configured cs d) (hdis : NamesDisjoint cs)
    (hres : d.getPropertyDict n = some (.slot c i)) (h : Informed d client n (.slot c i) v b)
    (hc : c ∈ d.canidRoot) (hi : i < (d.info c).nData) {c' : CanId} (hc' : c' ∈ d.canidRoot)
    {j : ℕ} (hj : j < (d.info c').nData) (hne : Addr.slot c i ≠ .slot c' j)
    (canV64 : BitVec 64) (timestamp : Timeval) :
    Informed d client n (.slot c i) v (b.updateIviproperty canV64 (.slot c' j) timestamp).1
      ∧ lastGiven client n v (b.updateIviproperty canV64 (.slot c' j) timestamp).2.1 = v := by
  have hd := hconf.sound.wf
  have hsane := h.sane.updateIviproperty hd canV64 c' j timestamp
  have hroot : .slot c i ∈ b.propertyRoot := by
    rw [h.sane.layout.propertyRoot]
    exact (hd.getPropertyDict_eq_some_iff.mp hres).1
  refine ⟨⟨hsane, ?_, ?_⟩, ?_⟩
  · cases hn : b.notifies canV64 (.slot c' j) timestamp with
    | true =>
      rw [(updateIviproperty_of_notifies hn).1]
      exact (h.sane.decodedInto hd canV64 c' j timestamp).events.subscribed_notify _ h.subscribed
    | false =>
      rw [(updateIviproperty_of_not_notifies hn).1]
      exact h.subscribed
  · rw [h.known]
    refine congrArg (fun o => Option.getD o Json.null) (Dict.property2json_congr h.sane.applied
      hsane.applied ?_ hroot (fun x hx => ?_)).symm
    · rw [updateIviproperty_toDict]
      exact (b.toDict.touches_updateProperty canV64 (.slot c' j) timestamp).sameLayout
    · rw [updateIviproperty_toDict]
      have hlayout := h.sane.layout
      refine (hlayout.wf hd).updateProperty_mem (c := c) (i := i) ?_ ?_ ?_ ?_ hne canV64
        timestamp hx
      · exact hlayout.canidRoot ▸ hc
      · exact hlayout.canidRoot ▸ hc'
      · exact (hlayout.info_eq c).2.1 ▸ hi
      · exact (hlayout.info_eq c').2.1 ▸ hj
  · refine lastGiven_of_forall (fun n' w cl ho => ?_) v
    obtain ⟨rfl, -, -⟩ := h.sane.of_push hd ho
    have hname : b.name (.slot c' j) = d.name (.slot c' j) := congrFun h.sane.layout.name_eq _
    rw [hname]
    exact hconf.name_ne hdis hres hc' hj hne

/-- The updates of other slots. -/
theorem Informed.others (hconf : Dict.Configured cs d) (hdis : NamesDisjoint cs)
    (hres : d.getPropertyDict n = some (.slot c i)) (h : Informed d client n (.slot c i) v b)
    (hc : c ∈ d.canidRoot) (hi : i < (d.info c).nData) {c' : CanId} (hc' : c' ∈ d.canidRoot)
    {slots : List ℕ}
    (hslots : ∀ j ∈ slots, j < (d.info c').nData ∧ Addr.slot c i ≠ .slot c' j)
    (canV64 : BitVec 64) (timestamp : Timeval) :
    Informed d client n (.slot c i) v (parseCandata canV64 c' timestamp slots b).1
      ∧ lastGiven client n v (parseCandata canV64 c' timestamp slots b).2 = v := by
  induction slots generalizing b with
  | nil => exact ⟨h, rfl⟩
  | cons j slots ih =>
    obtain ⟨hj, hne⟩ := hslots j List.mem_cons_self
    obtain ⟨hone, hgiven⟩ := h.other hconf hdis hres hc hi hc' hj hne canV64 timestamp
    obtain ⟨hrest, hgiven'⟩ := ih hone (fun k hk => hslots k (List.mem_cons_of_mem j hk))
    rw [parseCandata_cons]
    refine ⟨hrest, ?_⟩
    dsimp only
    rw [lastGiven_append, hgiven, hgiven']

/-- **The update of the property**: a notification gives the client the new
value, and without one there is none. -/
theorem Informed.own (hd : d.WF) (hres : d.getPropertyDict n = some (.slot c i))
    (hscalar : ∀ x ∈ d.chain (.slot c i), (d.mem x).Scalar)
    (h : Informed d client n (.slot c i) v b) {canV64 : BitVec 64} {timestamp : Timeval}
    (hkeep : b.KeepsUpdate canV64 (.slot c i) timestamp) :
    Informed d client n (.slot c i)
      (lastGiven client n v (b.updateIviproperty canV64 (.slot c i) timestamp).2.1)
      (b.updateIviproperty canV64 (.slot c i) timestamp).1 := by
  have hlayout := h.sane.layout
  have hdec := h.sane.decodedInto hd canV64 c i timestamp
  obtain ⟨hroot, hn⟩ := hd.getPropertyDict_eq_some_iff.mp hres
  have hname : (b.decodedInto canV64 (.slot c i) timestamp).name (.slot c i) = n := by
    rw [hdec.layout.name_eq, hn]
  cases hnot : b.notifies canV64 (.slot c i) timestamp with
  | true =>
    obtain ⟨hstate, hout⟩ := updateIviproperty_of_notifies hnot
    have hsub : (b.decodedInto canV64 (.slot c i) timestamp).Subscribed client
        ((b.decodedInto canV64 (.slot c i) timestamp).name (.slot c i)) := by
      rw [hname]
      exact h.subscribed
    obtain ⟨cl, hcl, heq⟩ := hdec.events.notify_of_subscribed hsub
    rw [hstate, hout, heq]
    refine ⟨hdec, h.subscribed, ?_⟩
    show (if _ then _ else _) = _
    rw [hname, if_pos ⟨rfl, hcl⟩]
  | false =>
    obtain ⟨hstate, hout⟩ := updateIviproperty_of_not_notifies hnot
    rw [hstate, hout]
    refine ⟨hdec, h.subscribed, h.known.trans ?_⟩
    refine congrArg (fun o => Option.getD o Json.null) (Eq.symm ?_)
    refine (hlayout.wf hd).property2json_of_not_notifies h.sane.applied
      (hlayout.propertyRoot ▸ hroot) (fun x hx => ?_) hkeep hnot
    rw [hlayout.chain_eq] at hx
    rw [PropDef.Scalar, (hlayout.entry x).1]
    exact hscalar x hx

/-- Storing a received frame. -/
theorem Informed.keepFrame (hd : d.WF) (hres : d.getPropertyDict n = some (.slot c i))
    (h : Informed d client n (.slot c i) v b) (c' : CanId) (frame : CanFrame) :
    Informed d client n (.slot c i) v (b.keepFrame c' frame) := by
  have hroot : .slot c i ∈ b.propertyRoot := by
    rw [h.sane.layout.propertyRoot]
    exact (hd.getPropertyDict_eq_some_iff.mp hres).1
  have hsane := h.sane.setFrame c' frame
  have hjson := Dict.property2json_congr h.sane.applied hsane.applied
    (Dict.sameLayout_setInfo b.toDict c' frame) hroot (fun _ _ => rfl)
  exact ⟨hsane, h.subscribed, h.known.trans
    (congrArg (fun o => Option.getD o Json.null) hjson.symm)⟩

/-- **A frame for the CAN-ID of the property**: the updates of the slots before
it, its own, and those of the slots behind it. -/
theorem Informed.parseFrame_of_isFor (hconf : Dict.Configured cs d) (hdis : NamesDisjoint cs)
    (hres : d.getPropertyDict n = some (.slot c i)) (hkind : (d.info c).kind ≠ .send)
    (hc : c ∈ d.canidRoot) (hi : i < (d.info c).nData)
    (hscalar : ∀ x ∈ d.chain (.slot c i), (d.mem x).Scalar)
    (h : Informed d client n (.slot c i) v b) {frame : CanFrame} {timestamp : Timeval}
    (hfor : IsFor c frame)
    (hkeep : b.KeepsUpdate (canvalue2host frame.data) (.slot c i) timestamp) :
    Informed d client n (.slot c i) (lastGiven client n v (b.parseFrame frame timestamp).2.1)
      (b.parseFrame frame timestamp).1 := by
  have hd := hconf.sound.wf
  have hlayout := h.sane.layout
  have hroot : .slot c i ∈ b.propertyRoot := by
    rw [hlayout.propertyRoot]
    exact (hd.getPropertyDict_eq_some_iff.mp hres).1
  have hrange : ∀ j ∈ List.range i, j < (d.info c).nData ∧ Addr.slot c i ≠ .slot c j :=
    fun j hj => by
      have hlt := List.mem_range.mp hj
      exact ⟨by omega, fun heq => absurd (Addr.slot.inj heq).2 (by omega)⟩
  have hlater : ∀ j ∈ later (d.info c).nData i, j < (d.info c).nData
      ∧ Addr.slot c i ≠ .slot c j := fun j hj => by
    obtain ⟨hij, hj⟩ := mem_later.mp hj
    exact ⟨hj, fun heq => absurd (Addr.slot.inj heq).2 (by omega)⟩
  obtain ⟨hbefore, hgiven⟩ := (h.keepFrame hd hres c frame).others hconf hdis hres hc hi hc
    hrange (canvalue2host frame.data) timestamp
  -- the condition is on the state before the frame, and the slots before leave it alone
  have hkeep' : (b.upTo frame timestamp c i).KeepsUpdate (canvalue2host frame.data) (.slot c i)
      timestamp := by
    have hbelow : b.toDict.SameLayout (b.upTo frame timestamp c i).toDict :=
      (Dict.sameLayout_setInfo b.toDict c frame).trans
        (runRelation_sameLayout.parseCandata _ c timestamp _ (b.keepFrame c frame))
    refine hkeep.congr h.sane.applied hbelow hroot (fun x hx => ?_)
    rw [hlayout.chain_eq] at hx
    exact upTo_mem hd hlayout hc hi frame timestamp hx
  have hown := Informed.own hd hres hscalar hbefore hkeep'
  obtain ⟨hafter, hgiven'⟩ := hown.others hconf hdis hres hc hi hc hlater
    (canvalue2host frame.data) timestamp
  have hup : b.upTo frame timestamp c i = (parseCandata (canvalue2host frame.data) c timestamp
    (List.range i) (b.keepFrame c frame)).1 := rfl
  rw [Binder.parseFrame_of_isFor hd hlayout hc hkind hi hfor, hup]
  dsimp only
  rw [lastGiven_append, lastGiven_append, hgiven, hgiven']
  exact hafter

/-- A frame that is not for the CAN-ID of the property. -/
theorem Informed.parseFrame_of_not_isFor (hconf : Dict.Configured cs d)
    (hdis : NamesDisjoint cs) (hres : d.getPropertyDict n = some (.slot c i))
    (hc : c ∈ d.canidRoot) (hi : i < (d.info c).nData)
    (h : Informed d client n (.slot c i) v b) {frame : CanFrame} (hfor : ¬IsFor c frame)
    (timestamp : Timeval) :
    Informed d client n (.slot c i) (lastGiven client n v (b.parseFrame frame timestamp).2.1)
      (b.parseFrame frame timestamp).1 := by
  have hd := hconf.sound.wf
  rcases parseFrame_cases hd h.sane.layout frame timestamp with
    ⟨-, heq⟩ | ⟨c', hc', hfor', ⟨-, heq⟩ | ⟨-, heq⟩⟩
  · rw [heq]
    exact h
  · rw [heq]
    exact h.keepFrame hd hres c' frame
  · have hne : c ≠ c' := fun hcc => hfor (hcc ▸ hfor')
    have hslots : ∀ j ∈ List.range (d.info c').nData, j < (d.info c').nData
        ∧ Addr.slot c i ≠ .slot c' j := fun j hj =>
      ⟨List.mem_range.mp hj, fun hcc => hne (Addr.slot.inj hcc).1⟩
    obtain ⟨hall, hgiven⟩ := (h.keepFrame hd hres c' frame).others hconf hdis hres hc hi hc'
      hslots (canvalue2host frame.data) timestamp
    rw [heq]
    dsimp only
    rw [hgiven]
    exact hall

/-- **One frame.** -/
theorem Informed.parseFrame (hconf : Dict.Configured cs d) (hdis : NamesDisjoint cs)
    (hres : d.getPropertyDict n = some (.slot c i)) (hkind : (d.info c).kind ≠ .send)
    (hc : c ∈ d.canidRoot) (hi : i < (d.info c).nData)
    (hscalar : ∀ x ∈ d.chain (.slot c i), (d.mem x).Scalar)
    (h : Informed d client n (.slot c i) v b) {frame : CanFrame} {timestamp : Timeval}
    (hkeep : IsFor c frame → b.KeepsUpdate (canvalue2host frame.data) (.slot c i) timestamp) :
    Informed d client n (.slot c i) (lastGiven client n v (b.parseFrame frame timestamp).2.1)
      (b.parseFrame frame timestamp).1 := by
  by_cases hfor : IsFor c frame
  · exact h.parseFrame_of_isFor hconf hdis hres hkind hc hi hscalar hfor (hkeep hfor)
  · exact h.parseFrame_of_not_isFor hconf hdis hres hc hi hfor timestamp

end Informed

/-! ## Runs of frames -/

/-- A received frame as an input. -/
def received (f : CanFrame × Timeval) : Input := .frame f.1 f.2

/-- **The input keeps what is known of a property.** -/
def Keeps (a : Addr) (b : Binder) : Input → Prop
  | .frame frame timestamp => IsFor (b.mem a).mycanid frame →
      b.KeepsUpdate (canvalue2host frame.data) a timestamp
  | _ => True

/-- **No lost update.** Where every name belongs to one CAN-ID, a client that
subscribed to an integer or bool property to receive has the value that `get`
reports after any frames that keep it. -/
theorem last_given_eq {jobj : Json} {d : Dict} (hload : canDefineInit jobj = some d)
    {cs : List CanidDef} (hcs : configured jobj = some cs) (hdis : NamesDisjoint cs)
    {n : String} {a : Addr} (hres : d.getPropertyDict n = some a)
    (hkind : (d.mem a).propertyKind = .readonly) (hscalar : ∀ x ∈ d.chain a, (d.mem x).Scalar)
    {past : List Input} {b₀ : Binder} {outs₀ : List Output}
    (hpast : run (start d) past = some (b₀, outs₀)) {client : Client} {event : Option String}
    {answers : DaemonAnswers} {b₁ : Binder} {l : List (String × Json)}
    (hsub : b₀.subscribe client event answers
      = some (b₁, [.success client (some (.object l))])) {v : Json} (hv : (n, v) ∈ l)
    {frames : List (CanFrame × Timeval)}
    (hok : Machine.Meets step (Keeps a) b₁ (frames.map received))
    {b₂ : Binder} {outs : List Output} (hrun : run b₁ (frames.map received) = some (b₂, outs)) :
    b₂.getPropertyDict n = some a
      ∧ lastGiven client n v outs = (b₂.property2json a).getD .null := by
  obtain ⟨cs', hcs', hconf⟩ := Dict.configured_of_canDefineInit hload
  obtain rfl := Option.some.inj (hcs.symm.trans hcs')
  have hd := hconf.sound.wf
  obtain ⟨c, hc, i, hi, rfl⟩ := hd.slot a (hd.getPropertyDict_eq_some_iff.mp hres).1
  have hsend : (d.info c).kind ≠ .send := by
    rw [← hd.kind c hc i hi, hkind]
    exact CanPropertyKind.noConfusion
  have hsane : Sane d b₀ := sane_run hconf.sound hpast
  have hstart : Informed d client n (.slot c i) v b₁ := by
    obtain ⟨hsubscribed, a, ha, hval⟩ := hsane.answered_subscribe hsub n v hv
    have hsane₁ := hsane.subscribe hsub
    rw [hsane₁.layout.getPropertyDict, hres] at ha
    cases ha
    exact ⟨hsane₁, hsubscribed, hval⟩
  -- the invariant is about the outputs so far, not about the last step
  have hend : Informed d client n (.slot c i) (lastGiven client n v outs) b₂ := by
    refine Machine.run_history (fun _ outs b => Informed d client n (.slot c i)
      (lastGiven client n v outs) b) ?_ hstart (hok.and_of_mem (P := fun e => ∃ f, received f = e)
      (fun e he => (List.mem_map.mp he).imp (fun f hf => hf.2))) hrun
    rintro _ outs b _ b' out h ⟨⟨f, rfl⟩, hkeep⟩ hstep
    have hmy : (b.mem (.slot c i)).mycanid = c := by
      rw [(h.sane.layout.entry (.slot c i)).2.1, hd.mycanid c hc i hi]
    have hframe : Informed d client n (.slot c i)
        (lastGiven client n (lastGiven client n v outs) (b.parseFrame f.1 f.2).2.1)
        (b.parseFrame f.1 f.2).1 :=
      h.parseFrame hconf hdis hres hsend hc hi hscalar (fun hfor => hkeep (hmy.symm ▸ hfor))
    cases hstep
    rw [lastGiven_append]
    exact hframe
  exact ⟨hend.sane.layout.getPropertyDict n ▸ hres, hend.known⟩

/-- The number in a report. -/
def reportedInt : Json → Option ℤ
  | .object [("value", .int i)] => some i
  | _ => none

/-- The value in the reply to a client that subscribed to one name. -/
def repliedTo (client : Client) (n : String) : List Output → Option Json
  | [.success client' (some (.object [(n', v)]))] =>
    if client' = client ∧ n' = n then some v else none
  | _ => none

theorem eq_of_repliedTo {client : Client} {n : String} {outs : List Output} {v : Json}
    (h : repliedTo client n outs = some v) :
    outs = [.success client (some (.object [(n, v)]))] := by
  unfold repliedTo at h
  split at h
  · split_ifs at h with heq
    cases h
    obtain ⟨rfl, rfl⟩ := heq
    rfl
  · cases h

/-- A frame that sets the sample speed. -/
def speedFrame : CanFrame × Timeval := (⟨0x100#32, 8#8, fun _ => 1#8⟩, ⟨3, 0⟩)

theorem last_given_eq_sample :
    ∃ d b₁ v b₂ outs, canDefineInit sampleConfig = some d
      ∧ (start d).subscribe 1 (some "speed") {}
        = some (b₁, [.success 1 (some (.object [("speed", v)]))])
      ∧ run b₁ ([speedFrame].map received) = some (b₂, outs)
      ∧ lastGiven 1 "speed" v outs = (b₂.property2json (.slot 0x100#16 0)).getD .null := by
  have hload : (canDefineInit sampleConfig).bind (fun d =>
      ((start d).subscribe 1 (some "speed") {}).bind (fun r =>
        (repliedTo 1 "speed" r.2).map (fun _ =>
          (d.getPropertyDict "speed", d.mem (.slot 0x100#16 0)))))
      = some (some (.slot 0x100#16 0),
        ⟨⟨"speed", .readonly, 2#8, 0#8, 16#8, .int16, none, 0⟩, 0x100#16, none, none, ⟨0, 0⟩,
          DataContent.zero⟩) := by
    decide
  have hnames : (configured sampleConfig).map (fun cs => decide (NamesDisjoint cs))
      = some true := by
    decide
  obtain ⟨d, hd, hload⟩ := Option.bind_eq_some_iff.mp hload
  obtain ⟨⟨b₁, outs₁⟩, hsub, hload⟩ := Option.bind_eq_some_iff.mp hload
  obtain ⟨v, hv, hval⟩ := Option.map_eq_some_iff.mp hload
  obtain ⟨cs, hcs, hdis⟩ := Option.map_eq_some_iff.mp hnames
  obtain ⟨hres, hmem⟩ := Prod.mk.inj hval
  obtain rfl := eq_of_repliedTo hv
  have hnext : (d.mem (.slot 0x100#16 0)).next = none := by
    rw [hmem]
  have hb₁ : b₁.toDict = d := subscribe_toDict hsub
  have hok : Machine.Meets step (Keeps (.slot 0x100#16 0)) b₁ ([speedFrame].map received) :=
    ⟨fun _ => Or.inl (by rw [hb₁]; exact hnext), fun _ _ _ => trivial⟩
  refine ⟨d, b₁, v, _, _, hd, hsub, rfl, (last_given_eq hd hcs (of_decide_eq_true hdis) hres
    (by rw [hmem]) (fun x hx => ?_) (Machine.run_nil _) hsub List.mem_cons_self hok rfl).2⟩
  rw [Dict.chain_of_next_none hnext, List.mem_singleton] at hx
  rw [hx, hmem]
  unfold PropDef.Scalar
  decide

/-- A frame that activates the first entry, and one a tenth of a second later
that activates none. -/
def idleFrames : List (CanFrame × Timeval) :=
  [(⟨0x100#32, 8#8, fun i => if i.val = 0 then 1#8 else 0#8⟩, ⟨10, 0⟩),
    (⟨0x100#32, 8#8, fun _ => 0#8⟩, ⟨10, 100000⟩)]

/-- The second frame sets the property to zero, and the client still has the
value of the first. -/
theorem not_last_given_eq_idle :
    ∃ d cs b₁ v b₂ outs, canDefineInit chainConfig = some d
      ∧ configured chainConfig = some cs ∧ NamesDisjoint cs
      ∧ d.getPropertyDict "mode" = some (.slot 0x100#16 0)
      ∧ (d.mem (.slot 0x100#16 0)).propertyKind = .readonly
      ∧ (∀ x ∈ d.chain (.slot 0x100#16 0), (d.mem x).Scalar)
      ∧ (start d).subscribe 1 (some "mode") {}
        = some (b₁, [.success 1 (some (.object [("mode", v)]))])
      ∧ run b₁ (idleFrames.map received) = some (b₂, outs)
      ∧ lastGiven 1 "mode" v outs ≠ (b₂.property2json (.slot 0x100#16 0)).getD .null := by
  have hload : (canDefineInit chainConfig).bind (fun d =>
      ((start d).subscribe 1 (some "mode") {}).bind (fun r =>
        (repliedTo 1 "mode" r.2).bind (fun v =>
          (run r.1 (idleFrames.map received)).map (fun r' =>
            ((d.getPropertyDict "mode", (d.mem (.slot 0x100#16 0)).propertyKind,
                (d.chain (.slot 0x100#16 0)).map (fun x => (d.mem x).varType)),
              reportedInt (lastGiven 1 "mode" v r'.2),
              reportedInt ((r'.1.property2json (.slot 0x100#16 0)).getD .null))))))
      = some ((some (.slot 0x100#16 0), .readonly, [.int8, .int8]), some 1, some 0) := by
    decide
  have hnames : (configured chainConfig).map (fun cs => decide (NamesDisjoint cs))
      = some true := by
    decide
  obtain ⟨d, hd, hload⟩ := Option.bind_eq_some_iff.mp hload
  obtain ⟨⟨b₁, outs₁⟩, hsub, hload⟩ := Option.bind_eq_some_iff.mp hload
  obtain ⟨v, hv, hload⟩ := Option.bind_eq_some_iff.mp hload
  obtain ⟨⟨b₂, outs⟩, hrun, hval⟩ := Option.map_eq_some_iff.mp hload
  obtain ⟨cs, hcs, hdis⟩ := Option.map_eq_some_iff.mp hnames
  simp only [Prod.mk.injEq] at hval
  obtain ⟨⟨hres, hkind, htypes⟩, hgiven, hget⟩ := hval
  obtain rfl := eq_of_repliedTo hv
  refine ⟨d, cs, b₁, v, b₂, outs, hd, hcs, of_decide_eq_true hdis, hres, hkind,
    fun x hx => ?_, hsub, hrun, fun heq => ?_⟩
  · have htype := List.mem_map_of_mem (f := fun x => (d.mem x).varType) hx
    rw [htypes] at htype
    unfold PropDef.Scalar
    rw [show (d.mem x).varType = .int8 by simpa using htype]
    decide
  · rw [heq, hget] at hgiven
    cases hgiven

end Binder
