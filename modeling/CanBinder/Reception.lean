import CanBinder.Events

/-!
# One frame and one slot

A frame is decoded into the slots of the array of its CAN-ID, one after the
other. For one of them the frame is a single update: the slots before it
leave its chain alone, and so do the slots after it and the frames for other
CAN-IDs. `Binder.upTo` is the state in which its turn comes.
-/

namespace Binder

/-- Decoding into the first slot and then into the rest. -/
theorem parseCandata_cons (canV64 : BitVec 64) (c : CanId) (timestamp : Timeval) (i : ℕ)
    (slots : List ℕ) (b : Binder) :
    parseCandata canV64 c timestamp (i :: slots) b =
      let u := b.updateIviproperty canV64 (.slot c i) timestamp
      let r := parseCandata canV64 c timestamp slots u.1
      (r.1, u.2.1 ++ r.2) := rfl

/-- Decoding into the slots of two lists. -/
theorem parseCandata_append (canV64 : BitVec 64) (c : CanId) (timestamp : Timeval)
    (slots slots' : List ℕ) (b : Binder) :
    parseCandata canV64 c timestamp (slots ++ slots') b =
      let r := parseCandata canV64 c timestamp slots b
      let r' := parseCandata canV64 c timestamp slots' r.1
      (r'.1, r.2 ++ r'.2) := by
  induction slots generalizing b with
  | nil => rfl
  | cons i slots ih =>
    simp only [List.cons_append, parseCandata_cons, ih, List.append_assoc]

/-- The slots after one. -/
def later (n i : ℕ) : List ℕ := (List.range n).drop (i + 1)

theorem mem_later {n i j : ℕ} : j ∈ later n i ↔ i < j ∧ j < n := by
  unfold later
  rw [List.range_eq_range', List.drop_range', List.mem_range'_1]
  omega

/-- The slots before, a slot, and those after. -/
theorem range_eq_later {n i : ℕ} (h : i < n) : List.range n = List.range i ++ i :: later n i := by
  have hi : i < (List.range n).length := by rwa [List.length_range]
  conv_lhs => rw [← List.take_append_drop i (List.range n)]
  rw [List.take_range, min_eq_left h.le, List.drop_eq_getElem_cons hi, List.getElem_range]
  rfl

/-- The state in which `parse_frame` comes to a slot. -/
def upTo (b : Binder) (frame : CanFrame) (timestamp : Timeval) (c : CanId) (i : ℕ) : Binder :=
  (parseCandata (canvalue2host frame.data) c timestamp (List.range i) (b.keepFrame c frame)).1

section Slot

variable {d : Dict} {b : Binder} {c : CanId} {i : ℕ}

/-- **The other slots leave a slot alone.** -/
theorem parseCandata_mem (hd : d.WF) (hb : d.SameLayout b.toDict) (hc : c ∈ d.canidRoot)
    (hi : i < (d.info c).nData) {c' : CanId} (hc' : c' ∈ d.canidRoot) {slots : List ℕ}
    (hslots : ∀ j ∈ slots, j < (d.info c').nData ∧ Addr.slot c i ≠ .slot c' j)
    (canV64 : BitVec 64) (timestamp : Timeval) {x : Addr} (hx : x ∈ d.chain (.slot c i)) :
    (parseCandata canV64 c' timestamp slots b).1.mem x = b.mem x := by
  induction slots generalizing b with
  | nil => rfl
  | cons j slots ih =>
    obtain ⟨hj, hne⟩ := hslots j List.mem_cons_self
    have hstep : d.SameLayout (b.updateIviproperty canV64 (.slot c' j) timestamp).1.toDict := by
      rw [updateIviproperty_toDict]
      exact hb.trans (b.toDict.touches_updateProperty canV64 (.slot c' j) timestamp).sameLayout
    have hmem : (b.updateIviproperty canV64 (.slot c' j) timestamp).1.mem x = b.mem x := by
      show (b.updateIviproperty canV64 (.slot c' j) timestamp).1.toDict.mem x = _
      rw [updateIviproperty_toDict]
      refine (hb.wf hd).updateProperty_mem (c := c) (i := i) ?_ ?_ ?_ ?_ hne canV64 timestamp ?_
      · exact hb.canidRoot ▸ hc
      · exact hb.canidRoot ▸ hc'
      · exact (hb.info_eq c).2.1 ▸ hi
      · exact (hb.info_eq c').2.1 ▸ hj
      · exact (hb.chain_eq (.slot c i)).symm ▸ hx
    exact (ih hstep (fun k hk => hslots k (List.mem_cons_of_mem j hk))).trans hmem

/-- A slot's turn comes with its entries as they were. -/
theorem upTo_mem (hd : d.WF) (hb : d.SameLayout b.toDict) (hc : c ∈ d.canidRoot)
    (hi : i < (d.info c).nData) (frame : CanFrame) (timestamp : Timeval) {x : Addr}
    (hx : x ∈ d.chain (.slot c i)) : (b.upTo frame timestamp c i).mem x = b.mem x := by
  refine parseCandata_mem (b := b.keepFrame c frame) hd
    (hb.trans (Dict.sameLayout_setInfo b.toDict c frame)) hc hi hc (fun j hj => ?_) _ timestamp hx
  have hlt := List.mem_range.mp hj
  exact ⟨by omega, fun h => absurd (Addr.slot.inj h).2 (by omega)⟩

theorem upTo_sameLayout (hb : d.SameLayout b.toDict) (frame : CanFrame) (timestamp : Timeval)
    (c : CanId) (i : ℕ) : d.SameLayout (b.upTo frame timestamp c i).toDict :=
  (hb.trans (Dict.sameLayout_setInfo b.toDict c frame)).trans
    (runRelation_sameLayout.parseCandata _ c timestamp _ (b.keepFrame c frame))

/-- **A frame for the CAN-ID of a slot is one update of the slot**, in the
state in which its turn comes, between those of the other slots. -/
theorem parseFrame_of_isFor (hd : d.WF) (hb : d.SameLayout b.toDict) (hc : c ∈ d.canidRoot)
    (hkind : (d.info c).kind ≠ .send) (hi : i < (d.info c).nData) {frame : CanFrame}
    (hfor : IsFor c frame) (timestamp : Timeval) :
    b.parseFrame frame timestamp =
      let before := parseCandata (canvalue2host frame.data) c timestamp (List.range i)
        (b.keepFrame c frame)
      let u := (b.upTo frame timestamp c i).updateIviproperty (canvalue2host frame.data)
        (.slot c i) timestamp
      let after := parseCandata (canvalue2host frame.data) c timestamp
        (later (d.info c).nData i) u.1
      (after.1, before.2 ++ (u.2.1 ++ after.2), 0) := by
  rcases parseFrame_cases hd hb frame timestamp with ⟨hnone, -⟩ | ⟨c', -, hfor', ⟨hs, -⟩ | ⟨-, heq⟩⟩
  · exact absurd ⟨c, hc, hfor⟩ hnone
  · obtain rfl : c = c' := hfor.2.symm.trans hfor'.2
    exact absurd hs hkind
  · obtain rfl : c = c' := hfor.2.symm.trans hfor'.2
    rw [heq, range_eq_later hi, parseCandata_append]
    rfl

/-- A frame for another CAN-ID leaves the slot alone. -/
theorem parseFrame_mem_of_not_isFor (hd : d.WF) (hb : d.SameLayout b.toDict)
    (hc : c ∈ d.canidRoot) (hi : i < (d.info c).nData) {frame : CanFrame}
    (hfor : ¬IsFor c frame) (timestamp : Timeval) {x : Addr} (hx : x ∈ d.chain (.slot c i)) :
    (b.parseFrame frame timestamp).1.mem x = b.mem x := by
  rcases parseFrame_cases hd hb frame timestamp with
    ⟨-, heq⟩ | ⟨c', hc', hfor', ⟨-, heq⟩ | ⟨-, heq⟩⟩
  · rw [heq]
  · rw [heq]
    rfl
  · have hne : c ≠ c' := fun h => hfor (h ▸ hfor')
    rw [heq]
    exact parseCandata_mem (b := b.keepFrame c' frame) hd
      (hb.trans (Dict.sameLayout_setInfo b.toDict c' frame)) hc hi hc'
      (fun j hj => ⟨List.mem_range.mp hj, fun h => hne (Addr.slot.inj h).1⟩) _ timestamp hx

/-- **What a frame for the CAN-ID leaves of a slot** is what the update left. -/
theorem parseFrame_mem_of_isFor (hd : d.WF) (hb : d.SameLayout b.toDict) (hc : c ∈ d.canidRoot)
    (hkind : (d.info c).kind ≠ .send) (hi : i < (d.info c).nData) {frame : CanFrame}
    (hfor : IsFor c frame) (timestamp : Timeval) {x : Addr} (hx : x ∈ d.chain (.slot c i)) :
    (b.parseFrame frame timestamp).1.mem x
      = ((b.upTo frame timestamp c i).updateProperty (canvalue2host frame.data) (.slot c i)
          timestamp).1.mem x := by
  have hup := upTo_sameLayout hb frame timestamp c i
  have hlayout := hup.trans ((b.upTo frame timestamp c i).touches_updateProperty
    (canvalue2host frame.data) (.slot c i) timestamp).sameLayout
  rw [parseFrame_of_isFor hd hb hc hkind hi hfor, ← updateIviproperty_toDict]
  rw [← updateIviproperty_toDict] at hlayout
  refine parseCandata_mem hd hlayout hc hi hc (fun j hj => ?_) _ timestamp hx
  obtain ⟨hij, hj⟩ := mem_later.mp hj
  exact ⟨hj, fun h => absurd (Addr.slot.inj h).2 (by omega)⟩

end Slot

end Binder
