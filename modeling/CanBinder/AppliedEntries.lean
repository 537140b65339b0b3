import CanBinder.Configuration
import CanBinder.Events

/-!
# Applied entries over a run

Two pointers of an entry could lead astray: `next`, which the loader sets when it
appends a copy, and `applyinfo`, which a frame sets to the entry that was active
last. The loader is done with the first before any frame comes, so the chains of a
run are those of the loaded data. The second is only ever set in a slot of an array,
and only to an entry of the chain that starts there (`Dict.Applies`); from data in
which nothing is applied, that is what holds of every state of a run. So
`property2json` asks at most one other entry, and one of the same property
(`Binder.chains_inOrder`).
-/

namespace Dict

/-- **What may become of the applied entries**: each is as before, or a slot has got
one of its own chain. -/
structure Applies (d d' : Dict) : Prop where
  layout : SameLayout d d'
  applyinfo : ∀ x, (d'.mem x).applyinfo = (d.mem x).applyinfo
    ∨ (∃ c i, x = .slot c i) ∧ ∃ m ∈ d.chain x, (d'.mem x).applyinfo = some m

/-- A change that applies nothing. -/
theorem applies_of_eq {d d' : Dict} (h : SameLayout d d')
    (hap : ∀ x, (d'.mem x).applyinfo = (d.mem x).applyinfo) : Applies d d' :=
  ⟨h, fun x => Or.inl (hap x)⟩

theorem Applies.trans {d d' d'' : Dict} (h : Applies d d') (h' : Applies d' d'') :
    Applies d d'' := by
  refine ⟨h.layout.trans h'.layout, fun x => ?_⟩
  obtain heq | ⟨hslot, m, hm, heq⟩ := h'.applyinfo x
  · rw [heq]
    exact h.applyinfo x
  · rw [h.layout.chain_eq] at hm
    exact Or.inr ⟨hslot, m, hm, heq⟩

/-- **A frame applies an entry of the chain it is decoded into.** -/
theorem applies_updateProperty (d : Dict) (canV64 : BitVec 64) (c : CanId) (i : ℕ)
    (timestamp : Timeval) :
    Applies d (d.updateProperty canV64 (.slot c i) timestamp).1 := by
  obtain ⟨hother, hself⟩ := d.updateProperty_applyinfo canV64 (.slot c i) timestamp
  refine ⟨(d.touches_updateProperty canV64 (.slot c i) timestamp).sameLayout, fun x => ?_⟩
  by_cases hx : x = .slot c i
  · rw [hx]
    exact hself.imp_right (fun hm => ⟨⟨c, i, rfl⟩, hm⟩)
  · exact Or.inl (hother x hx)

end Dict

namespace Binder

/-- **Every change of the data applies entries in this way.** -/
theorem runRelation_applies : RunRelation Dict.Applies where
  refl d := Dict.applies_of_eq (Dict.SameLayout.refl d) (fun _ => rfl)
  trans := Dict.Applies.trans
  update := Dict.applies_updateProperty
  frame d c f := Dict.applies_of_eq (Dict.sameLayout_setInfo d c f) (fun _ => rfl)
  send d a data v :=
    Dict.applies_of_eq (runRelation_sameLayout.send d a data v)
      (Dict.setBit_applyinfo (property2canframe_applyinfo (d.mem a) data v))

end Binder

namespace Dict

/-! ## Chains in order -/

/-- **The chain from an entry is in order**: it ends, meets no entry twice, and has
one name and one CAN-ID; the entry has none or one of the chain applied, and the
others have none; and from each of them the recursion of `property2json` goes at
most one entry further and reports one of the chain. -/
structure InOrder (d : Dict) (a : Addr) (l : List Addr) : Prop where
  chain : PtrChain.IsChain d.next (some a) l
  nodup : l.Nodup
  name : ∀ x ∈ l, d.name x = d.name a
  mycanid : ∀ x ∈ l, (d.mem x).mycanid = (d.mem a).mycanid
  applied : (d.mem a).applyinfo = none ∨ ∃ m ∈ l, (d.mem a).applyinfo = some m
  unapplied : ∀ x ∈ l, x ≠ a → (d.mem x).applyinfo = none
  reports : ∀ x ∈ l, ∃ m ∈ l, ∀ depth ≥ 2, d.property2jsonAux depth x = report (d.mem m)

/-- **The chain of a slot** of an array: copies of one name and one CAN-ID behind
it. -/
theorem WF.chain_slot {d : Dict} (h : d.WF) {c : CanId} (hc : c ∈ d.canidRoot) {i : ℕ}
    (hi : i < (d.info c).nData) :
    ∃ l, PtrChain.IsChain d.next (some (.slot c i)) (.slot c i :: l)
      ∧ d.chain (.slot c i) = .slot c i :: l
      ∧ ∀ x ∈ l, (∃ k, x = .cell k) ∧ d.name x = d.name (.slot c i)
        ∧ (d.mem x).mycanid = (d.mem (.slot c i)).mycanid := by
  rcases h.resolves c hc i hi with hroot | ⟨hnext, -⟩
  · obtain ⟨l, hl, hcells⟩ := h.chains _ hroot
    refine ⟨l, ⟨rfl, hl⟩, chain_eq hl (fun x hx => (hcells x hx).1), fun x hx => ?_⟩
    obtain ⟨⟨k, -, hk⟩, hname, hcanid, -⟩ := hcells x hx
    exact ⟨⟨k, hk⟩, hname, hcanid⟩
  · exact ⟨[], ⟨rfl, hnext⟩, chain_of_next_none hnext, fun x hx => absurd hx List.not_mem_nil⟩

/-- **Chains are in order** where nothing was applied but entries of their own
chains, since nothing was applied at all. -/
theorem Applies.inOrder {d d' : Dict} (h : Applies d d') (hd : d.WF) (hp : d.Pristine)
    {c : CanId} (hc : c ∈ d'.canidRoot) {i : ℕ} (hi : i < (d'.info c).nData) :
    ∃ l, d'.InOrder (.slot c i) l := by
  have hd' := h.layout.wf hd
  obtain ⟨l, hchain, hlist, hcells⟩ := hd'.chain_slot hc hi
  -- every entry has none applied, or is a slot and has one of its chain
  have hap : ∀ x, (d'.mem x).applyinfo = none
      ∨ (∃ c i, x = .slot c i) ∧ ∃ m ∈ d'.chain x, (d'.mem x).applyinfo = some m := by
    intro x
    have hx := h.applyinfo x
    rwa [(hp x).1, ← h.layout.chain_eq] at hx
  have hcopy : ∀ x ∈ l, (d'.mem x).applyinfo = none := by
    intro x hx
    obtain ⟨⟨k, rfl⟩, -⟩ := hcells x hx
    exact (hap _).resolve_right (fun ⟨⟨_, _, hslot⟩, _⟩ => Addr.noConfusion hslot)
  have hhead : (d'.mem (.slot c i)).applyinfo = none
      ∨ ∃ m ∈ Addr.slot c i :: l, (d'.mem (.slot c i)).applyinfo = some m := by
    rw [← hlist]
    exact (hap _).imp_right And.right
  have hother : ∀ x ∈ Addr.slot c i :: l, x ≠ .slot c i → (d'.mem x).applyinfo = none :=
    fun x hx hne => hcopy x ((List.mem_cons.mp hx).resolve_left hne)
  refine ⟨.slot c i :: l, hchain, hchain.nodup, fun x hx => ?_, fun x hx => ?_, hhead, hother,
    fun x hx => ?_⟩
  · rcases List.mem_cons.mp hx with rfl | hx
    · rfl
    · exact (hcells x hx).2.1
  · rcases List.mem_cons.mp hx with rfl | hx
    · rfl
    · exact (hcells x hx).2.2
  · have hin : d'.applied x ∈ Addr.slot c i :: l := by
      unfold applied
      by_cases hxa : x = .slot c i
      · subst hxa
        obtain hnone | ⟨m, hm, hsome⟩ := hhead
        · rw [hnone]
          exact hx
        · rw [hsome]
          exact hm
      · rw [hother x hx hxa]
        exact hx
    refine ⟨d'.applied x, hin, fun depth hdepth => ?_⟩
    obtain ⟨k, rfl⟩ := Nat.exists_eq_add_of_le' hdepth
    refine property2jsonAux_eq (fun m hm hne => ?_) k
    have hm' : d'.applied x = m := by
      unfold applied
      rw [hm]
      rfl
    rw [hm'] at hin
    by_cases hxa : x = .slot c i
    · exact hother m hin (hxa ▸ hne)
    · exact absurd (hm.symm.trans (hother x hx hxa)) (Option.some_ne_none m)

end Dict

namespace Binder

/-- **In every state of every run, every chain is in order**: that of each entry of
an array, and so that of each property. -/
theorem chains_inOrder {jobj : Json} {d : Dict} (hload : canDefineInit jobj = some d)
    {ins : List Input} {b : Binder} {outs : List Output}
    (hr : run (start d) ins = some (b, outs)) :
    (∀ c ∈ b.canidRoot, ∀ i < (b.info c).nData, ∃ l, b.InOrder (.slot c i) l)
      ∧ ∀ name a, b.getPropertyDict name = some a → b.name a = name ∧ ∃ l, b.InOrder a l := by
  obtain ⟨cs, -, hconf⟩ := Dict.configured_of_canDefineInit hload
  have happlies : d.Applies b.toDict := runRelation_applies.run hr
  have hslots : ∀ c ∈ b.canidRoot, ∀ i < (b.info c).nData, ∃ l, b.InOrder (.slot c i) l :=
    fun c hc i hi => happlies.inOrder hconf.sound.wf hconf.sound.pristine hc hi
  refine ⟨hslots, fun name a ha => ?_⟩
  have hb := happlies.layout.wf hconf.sound.wf
  obtain ⟨hroot, hname⟩ := hb.getPropertyDict_eq_some_iff.mp ha
  obtain ⟨c, hc, i, hi, rfl⟩ := hb.slot a hroot
  exact ⟨hname, hslots c hc i hi⟩

/-- A property of two entries, after a frame that activates the second. -/
theorem chains_inOrder_sample :
    ∃ d b outs, canDefineInit chainConfig = some d
      ∧ run (start d) [.frame ⟨0x100#32, 8#8, fun i => if i.val = 1 then 1#8 else 0#8⟩ ⟨10, 0⟩]
        = some (b, outs)
      ∧ b.chain (.slot 0x100#16 0) = [.slot 0x100#16 0, .cell 0]
      ∧ (b.mem (.slot 0x100#16 0)).applyinfo = some (.cell 0)
      ∧ b.name (.slot 0x100#16 0) = "mode" ∧ ∃ l, b.InOrder (.slot 0x100#16 0) l := by
  have hload : (canDefineInit chainConfig).bind (fun d =>
      (run (start d) [.frame ⟨0x100#32, 8#8, fun i => if i.val = 1 then 1#8 else 0#8⟩ ⟨10, 0⟩]).map
        (fun r => (r.1.getPropertyDict "mode", r.1.chain (.slot 0x100#16 0),
          (r.1.mem (.slot 0x100#16 0)).applyinfo)))
      = some (some (.slot 0x100#16 0), [.slot 0x100#16 0, .cell 0], some (.cell 0)) := by
    decide
  obtain ⟨d, hd, hload⟩ := Option.bind_eq_some_iff.mp hload
  obtain ⟨⟨b, outs⟩, hr, hval⟩ := Option.map_eq_some_iff.mp hload
  simp only [Prod.mk.injEq] at hval
  obtain ⟨hget, hchain, happlied⟩ := hval
  exact ⟨d, b, outs, hd, hr, hchain, happlied, (chains_inOrder hd hr).2 "mode" _ hget⟩

end Binder
