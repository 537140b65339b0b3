import CanBinder.CanJson
import CanBinder.Registration

/-!
# The data between registrations

A registration that goes through keeps the data well formed (`WF`), the list
of supported properties in step with the property tree (`NamesListed`) and
every entry without a value (`Pristine`). `Registered` are the data that
registrations lead to, and the loader only ever makes registrations, so all
of this holds of a loaded configuration.
-/

namespace Dict

/-! ## The loop from its start -/

/-- The invariant holds before the loop: nothing was dealt with, and the new
array is in memory. -/
theorem LoopInv.start {d : Dict} {c : CanidDef} (hd : d.WF) (hl : NamesListed d)
    (hnew : c.info.canid ∉ d.canidRoot) :
    LoopInv d c.info.canid [] c.property 0 (d.install c) := by
  have huntouched : ∀ a, Untouched d c.info.canid a → (d.install c).mem a = d.mem a := by
    intro a ha
    unfold install
    cases a with
    | cell k => rfl
    | slot c' i =>
      dsimp only
      rw [if_neg ha]
  have hname : ∀ a ∈ d.propertyRoot, (d.install c).name a = d.name a := fun a ha =>
    congrArg (fun p => p.name) (huntouched a (untouched_of_mem hd hnew ha))
  refine ⟨rfl, le_refl _, huntouched, fun j e hj => ?_, fun j hj => absurd hj (Nat.not_lt_zero j),
    fun j hj => absurd hj (Nat.not_lt_zero j), fun j hj => absurd hj (Nat.not_lt_zero j),
    fun a => ?_, hd.propertyTree.congr (fun a ha => (hname a ha).symm),
    fun e he => absurd he List.not_mem_nil, hl.congr rfl rfl hname⟩
  · unfold install
    dsimp only
    rw [if_pos rfl, Nat.zero_add, List.getD_eq_getElem?_getD, hj]
    rfl
  · constructor
    · exact Or.inl
    · rintro (ha | ⟨j, hj, -⟩)
      · exact ha
      · exact absurd hj (Nat.not_lt_zero j)

/-- **What the loop keeps**, if registering one entry and moving the array
both keep it. -/
theorem addLoop_invariant {P : Dict → Prop} {c : CanId}
    (hadd : ∀ d i, P d → P (d.addPropertyDict (.slot c i)).1)
    (hmove : ∀ d i m, P d → P (d.moveSlots c i m)) {n : ℕ} {d d' : Dict} {i m m' : ℕ}
    {w w' : Bool} (h : addLoop c n d i m w = some (d', m', w')) (hd : P d) : P d' := by
  induction n generalizing d i m w with
  | zero => cases h
  | succ n ih =>
    by_cases hi : i < m
    · have hd₁ := hadd d i hd
      by_cases hret : 0 < (d.addPropertyDict (.slot c i)).2
      · rw [addLoop_of_pos hi rfl hret] at h
        split_ifs at h
        · exact ih h (hmove _ i m hd₁)
        · exact ih h hd₁
      · rw [addLoop_of_nonpos hi rfl (not_lt.mp hret)] at h
        exact ih h hd₁
    · rw [addLoop, if_neg hi] at h
      cases h
      exact hd

/-- Registering an entry changes neither the CAN-IDs nor the timers. -/
theorem addPropertyDict_frame (d : Dict) (a : Addr) :
    (d.addPropertyDict a).1.canidRoot = d.canidRoot ∧ (d.addPropertyDict a).1.info = d.info
      ∧ (d.addPropertyDict a).1.timers = d.timers := by
  rcases addPropertyDict_cases d a with ⟨-, ret, -, h⟩ | ⟨v, -, -, h⟩ | ⟨v, -, -, h⟩
  all_goals
    rw [h]
    exact ⟨rfl, rfl, rfl⟩

/-- The loop changes neither the CAN-IDs nor the timers. -/
theorem addLoop_frame {c : CanId} {n : ℕ} {d d' : Dict} {i m m' : ℕ} {w w' : Bool}
    (h : addLoop c n d i m w = some (d', m', w')) :
    d'.canidRoot = d.canidRoot ∧ d'.info = d.info ∧ d'.timers = d.timers := by
  refine addLoop_invariant (P := fun x => x.canidRoot = d.canidRoot ∧ x.info = d.info
    ∧ x.timers = d.timers) (fun x i hx => ?_) (fun x i m hx => hx) h ⟨rfl, rfl, rfl⟩
  obtain ⟨h₁, h₂, h₃⟩ := addPropertyDict_frame x (.slot c i)
  exact ⟨h₁.trans hx.1, h₂.trans hx.2.1, h₃.trans hx.2.2⟩

/-- The invariant does not speak of the CAN-IDs. -/
theorem LoopInv.setInfo {d₀ d : Dict} {cid : CanId} {pre rest : List PropDef} {i : ℕ}
    (h : LoopInv d₀ cid pre rest i d) (c : CanId) (info : CanidInfo) :
    LoopInv d₀ cid pre rest i (d.setInfo c info) :=
  ⟨h.index, h.ncell_le, h.untouched, h.todo, h.done, h.refused, h.chained, h.root, h.tree,
    h.known, h.listed⟩

/-- **A registration that goes through**: the loop ends with its invariant,
and the CAN-ID is recorded with the slots that stay in use. -/
theorem addCANIDDict_of_notMem {d : Dict} {c : CanidDef} (hd : d.WF) (hl : NamesListed d)
    (hnew : c.info.canid ∉ d.canidRoot) :
    ∃ d₁ m, addLoop c.info.canid (c.info.nData + 1) (d.install c) 0 c.info.nData false
        = some (d₁, m, false)
      ∧ d.addCANIDDict c = some (d₁.setInfo c.info.canid { c.info with nData := m }, 0)
      ∧ LoopInv d c.info.canid c.property [] m
          (d₁.setInfo c.info.canid { c.info with nData := m })
      ∧ (d₁.setInfo c.info.canid { c.info with nData := m }).info
          = Function.update d.info c.info.canid { c.info with nData := m }
      ∧ d₁.canidRoot = (d.install c).canidRoot ∧ d₁.timers = d.timers := by
  have hloop := (LoopInv.start hd hl hnew).addLoop hd hnew (Nat.lt_succ_self _)
  rw [Nat.zero_add, ← c.nData_eq, List.nil_append] at hloop
  obtain ⟨d₁, m, heq, hinv⟩ := hloop
  obtain ⟨hroot, hinfo, htimers⟩ := addLoop_frame heq
  refine ⟨d₁, m, heq, ?_, hinv.setInfo _ _, ?_, hroot, htimers⟩
  · have hself : d₁.info c.info.canid = c.info := by
      rw [hinfo]
      exact Function.update_self ..
    unfold addCANIDDict
    rw [getCANIDDict_eq_none_iff.mpr hnew]
    dsimp only
    rw [heq]
    dsimp only
    rw [hself]
  · show Function.update d₁.info _ _ = _
    rw [hinfo]
    exact Function.update_idem ..

/-! ## What a registration keeps -/

section Register

variable {d d₁ : Dict} {cid : CanId} {es : List PropDef} {m : ℕ}

/-- The slots of the new CAN-ID have its kind. -/
theorem LoopInv.propertyKind_eq (h : LoopInv d cid es [] m d₁) {kind : CanPropertyKind}
    (hkind : ∀ e ∈ es, e.propertyKind = kind) {i : ℕ} (hi : i < m) :
    (d₁.mem (.slot cid i)).propertyKind = kind :=
  hkind _ (mem_of_mem_heads (List.mem_of_getElem? (h.done i hi).1))

/-- The slots of the CAN-IDs that were there are what they were. -/
theorem LoopInv.slot_of_mem (h : LoopInv d cid es [] m d₁) (hnew : cid ∉ d.canidRoot)
    {x : CanId} (hx : x ∈ d.canidRoot) (i : ℕ) : d₁.mem (.slot x i) = d.mem (.slot x i) :=
  h.untouched _ (fun hxc : x = cid => hnew (hxc ▸ hx))

/-- A slot of the new CAN-ID is in the tree, or its name was there before. -/
theorem LoopInv.resolves_new (h : LoopInv d cid es [] m d₁) (hd : d.WF)
    (hnew : cid ∉ d.canidRoot) {i : ℕ} (hi : i < m) :
    .slot cid i ∈ d₁.propertyRoot
      ∨ d₁.next (.slot cid i) = none
        ∧ ∃ a ∈ d₁.propertyRoot, d₁.name a = d₁.name (.slot cid i) ∧ (d₁.mem a).mycanid ≠ cid := by
  cases hk : d.knows (d₁.name (.slot cid i)) with
  | true =>
    obtain ⟨a, ha₀, ha, han⟩ := h.exists_of_knows hd hnew hk
    exact Or.inr ⟨h.refused i hi hk, a, ha, han, h.mycanid_ne hd hnew ha₀⟩
  | false => exact Or.inl ((h.root _).mpr (Or.inr ⟨i, hi, rfl, hk⟩))

/-- A slot that was there is in the tree, or was refused before. -/
theorem LoopInv.resolves_old (h : LoopInv d cid es [] m d₁) (hd : d.WF)
    (hnew : cid ∉ d.canidRoot) {x : CanId} (hx : x ∈ d.canidRoot) {i : ℕ}
    (hi : i < (d.info x).nData) :
    .slot x i ∈ d₁.propertyRoot
      ∨ d₁.next (.slot x i) = none
        ∧ ∃ a ∈ d₁.propertyRoot, d₁.name a = d₁.name (.slot x i) ∧ (d₁.mem a).mycanid ≠ x := by
  have hold := h.slot_of_mem hnew hx i
  rcases hd.resolves x hx i hi with hr | ⟨hn, a, ha, han, hac⟩
  · exact Or.inl ((h.root _).mpr (Or.inl hr))
  · have heq := h.mem_eq hd hnew ha
    refine Or.inr ⟨?_, a, (h.root _).mpr (Or.inl ha), ?_, ?_⟩
    · show (d₁.mem _).next = none
      rw [hold]
      exact hn
    · show (d₁.mem a).name = (d₁.mem _).name
      rw [hold, heq]
      exact han
    · rw [heq]
      exact hac

/-- The chain of an entry that was there is what it was. -/
theorem LoopInv.chains_old (h : LoopInv d cid es [] m d₁) (hd : d.WF)
    (hnew : cid ∉ d.canidRoot) {a : Addr} (ha : a ∈ d.propertyRoot) :
    ∃ l, PtrChain.IsChain d₁.next (d₁.next a) l
      ∧ ∀ x ∈ l, (∃ k < d₁.ncell, x = .cell k) ∧ d₁.name x = d₁.name a
        ∧ (d₁.mem x).mycanid = (d₁.mem a).mycanid
        ∧ (d₁.mem x).propertyKind = (d₁.mem a).propertyKind := by
  obtain ⟨l, hl, hcells⟩ := hd.chains a ha
  have heq := h.mem_eq hd hnew ha
  have heqs : ∀ x ∈ l, d₁.mem x = d.mem x := fun x hx => by
    obtain ⟨⟨k, hk, rfl⟩, -⟩ := hcells x hx
    exact h.untouched _ hk
  refine ⟨l, ?_, fun x hx => ?_⟩
  · show PtrChain.IsChain d₁.next (d₁.mem a).next l
    rw [heq]
    exact hl.congr (fun x hx => congrArg (fun p => p.next) (heqs x hx).symm)
  · obtain ⟨⟨k, hk, rfl⟩, hrest⟩ := hcells x hx
    refine ⟨⟨k, Nat.lt_of_lt_of_le hk h.ncell_le, rfl⟩, ?_⟩
    show (d₁.mem _).name = (d₁.mem a).name ∧ (d₁.mem _).mycanid = (d₁.mem a).mycanid
      ∧ (d₁.mem _).propertyKind = (d₁.mem a).propertyKind
    rw [heq, heqs _ hx]
    exact hrest

/-- The chain of a new name runs through copies of entries of the array. -/
theorem LoopInv.chains_new (h : LoopInv d cid es [] m d₁) {kind : CanPropertyKind}
    (hkind : ∀ e ∈ es, e.propertyKind = kind) {j : ℕ} (hj : j < m)
    (hk : d.knows (d₁.name (.slot cid j)) = false) :
    ∃ l, PtrChain.IsChain d₁.next (d₁.next (.slot cid j)) l
      ∧ ∀ x ∈ l, (∃ k < d₁.ncell, x = .cell k) ∧ d₁.name x = d₁.name (.slot cid j)
        ∧ (d₁.mem x).mycanid = (d₁.mem (.slot cid j)).mycanid
        ∧ (d₁.mem x).propertyKind = (d₁.mem (.slot cid j)).propertyKind := by
  obtain ⟨l, hl, hcells, hmap⟩ := h.chained j hj hk
  refine ⟨l, hl, fun x hx => ?_⟩
  obtain ⟨⟨k, -, hk', rfl⟩, hmy⟩ := hcells x hx
  have hmem : (d₁.mem (.cell k)).toPropDef
      ∈ es.filter (fun e => e.name = d₁.name (.slot cid j)) :=
    hmap ▸ List.mem_map_of_mem (List.mem_cons_of_mem _ hx)
  have hkk : (d₁.mem (.cell k)).propertyKind = kind := hkind _ (List.mem_filter.mp hmem).1
  exact ⟨⟨k, hk', rfl⟩, name_of_chained hmap _ (List.mem_cons_of_mem _ hx),
    hmy.trans (h.done j hj).2.symm, hkk.trans (h.propertyKind_eq hkind hj).symm⟩

end Register

/-- **A registration keeps the data well formed.** -/
theorem WF.register {d d₁ : Dict} {c : CanidDef} {m : ℕ} (hd : d.WF)
    (hnew : c.info.canid ∉ d.canidRoot) (h : LoopInv d c.info.canid c.property [] m d₁)
    (hinfo : d₁.info = Function.update d.info c.info.canid { c.info with nData := m })
    (hroot : d₁.canidRoot = (d.install c).canidRoot) : d₁.WF := by
  have hfind : SearchTree.tfind BitVec.toNat c.info.canid.toNat d.canidRoot = none :=
    getCANIDDict_eq_none_iff.mpr hnew
  have hmemroot : ∀ x, x ∈ d₁.canidRoot ↔ x = c.info.canid ∨ x ∈ d.canidRoot := fun x => by
    rw [hroot]
    exact SearchTree.mem_tsearch hfind
  have hself : d₁.info c.info.canid = { c.info with nData := m } := by
    rw [hinfo]
    exact Function.update_self ..
  have hother : ∀ x ∈ d.canidRoot, d₁.info x = d.info x := fun x hx => by
    rw [hinfo]
    exact Function.update_of_ne (fun hxc => hnew (by rwa [← hxc])) _ _
  -- each clause splits into the new CAN-ID and those that were there
  refine ⟨?_, h.tree, fun x hx => ?_, fun a ha => ?_, fun x hx i hi => ?_, fun x hx i hi => ?_,
    fun x hx i hi => ?_, fun a ha => ?_⟩
  · show SearchTree.IsTree BitVec.toNat d₁.canidRoot
    rw [hroot]
    exact hd.canidTree.tsearch _
  · rcases (hmemroot x).mp hx with rfl | hx
    · rw [hself]
    · rw [hother x hx, hd.canid x hx]
  · rcases (h.root a).mp ha with ha | ⟨j, hj, rfl, -⟩
    · obtain ⟨x, hx, i, hi, rfl⟩ := hd.slot a ha
      exact ⟨x, (hmemroot x).mpr (Or.inr hx), i, by rwa [hother x hx], rfl⟩
    · exact ⟨_, (hmemroot _).mpr (Or.inl rfl), j, by rwa [hself], rfl⟩
  · rcases (hmemroot x).mp hx with rfl | hx
    · rw [hself] at hi
      exact (h.done i hi).2
    · rw [hother x hx] at hi
      rw [h.slot_of_mem hnew hx]
      exact hd.mycanid x hx i hi
  · rcases (hmemroot x).mp hx with rfl | hx
    · rw [hself] at hi ⊢
      exact h.propertyKind_eq c.kind_eq hi
    · rw [hother x hx] at hi ⊢
      rw [h.slot_of_mem hnew hx]
      exact hd.kind x hx i hi
  · rcases (hmemroot x).mp hx with rfl | hx
    · rw [hself] at hi
      exact h.resolves_new hd hnew hi
    · rw [hother x hx] at hi
      exact h.resolves_old hd hnew hx hi
  · rcases (h.root a).mp ha with ha | ⟨j, hj, rfl, hk⟩
    · exact h.chains_old hd hnew ha
    · exact h.chains_new c.kind_eq hj hk

/-- Overwriting an entry by one that has seen nothing. -/
theorem Pristine.setBit {d : Dict} (h : Pristine d) (a : Addr) {p : CanBit}
    (hp : p.Pristine) : Pristine (d.setBit a p) := by
  intro x
  by_cases hx : x = a
  · rwa [hx, setBit_mem_self]
  · rw [setBit_mem_of_ne d hx]
    exact h x

/-- **A registration gives no entry a value.** -/
theorem Pristine.register {d d₁ : Dict} {c : CanidDef} {n i m m' : ℕ} {w w' : Bool}
    (hd : Pristine d) (h : addLoop c.info.canid n (d.install c) i m w = some (d₁, m', w')) :
    Pristine d₁ := by
  refine addLoop_invariant (P := Pristine) (fun x j hx => ?_) (fun x j k hx a => ?_) h ?_
  · rcases addPropertyDict_cases x (.slot c.info.canid j) with
      ⟨-, ret, -, heq⟩ | ⟨v, -, -, heq⟩ | ⟨v, -, -, heq⟩
    · rw [heq]
      exact hx
    · rw [heq]
      exact hx
    · rw [heq]
      have hcopy : Pristine { x.setBit (.cell x.ncell) (x.mem (.slot c.info.canid j)) with
          ncell := x.ncell + 1 } := hx.setBit _ (hx _)
      exact hcopy.setBit _ (hcopy _)
  · unfold moveSlots
    cases a with
    | cell k' => exact hx _
    | slot c' j' =>
      dsimp only
      split_ifs
      · exact hx _
      · exact hx _
  · intro a
    unfold install
    cases a with
    | cell k => exact hd _
    | slot c' j =>
      dsimp only
      split_ifs
      · exact ⟨rfl, rfl, rfl⟩
      · exact hd _

/-- **The layout decides well-formedness**: the two trees, the definitions and
links of the entries, and of the CAN-IDs the identifier, the array and the
kind. -/
theorem WF.congr {d d' : Dict} (hd : d.WF) (hcanid : d'.canidRoot = d.canidRoot)
    (hroot : d'.propertyRoot = d.propertyRoot) (hcell : d'.ncell = d.ncell)
    (hentry : ∀ a, (d'.mem a).toPropDef = (d.mem a).toPropDef
      ∧ (d'.mem a).mycanid = (d.mem a).mycanid ∧ (d'.mem a).next = (d.mem a).next)
    (hinfo : ∀ c, (d'.info c).canid = (d.info c).canid ∧ (d'.info c).nData = (d.info c).nData
      ∧ (d'.info c).kind = (d.info c).kind) : d'.WF := by
  have hname : d'.name = d.name := funext (fun a => congrArg PropDef.name (hentry a).1)
  have hnext : d'.next = d.next := funext (fun a => (hentry a).2.2)
  have hkind : ∀ a, (d'.mem a).propertyKind = (d.mem a).propertyKind :=
    fun a => congrArg PropDef.propertyKind (hentry a).1
  refine ⟨?_, ?_, fun c hc => ?_, fun a ha => ?_, fun c hc i hi => ?_, fun c hc i hi => ?_,
    fun c hc i hi => ?_, fun a ha => ?_⟩
  · rw [hcanid]
    exact hd.canidTree
  · rw [hroot, hname]
    exact hd.propertyTree
  · rw [(hinfo c).1]
    exact hd.canid c (hcanid ▸ hc)
  · obtain ⟨c, hc, i, hi, rfl⟩ := hd.slot a (hroot ▸ ha)
    exact ⟨c, hcanid ▸ hc, i, (hinfo c).2.1 ▸ hi, rfl⟩
  · rw [(hentry _).2.1]
    exact hd.mycanid c (hcanid ▸ hc) i ((hinfo c).2.1 ▸ hi)
  · rw [hkind, (hinfo c).2.2]
    exact hd.kind c (hcanid ▸ hc) i ((hinfo c).2.1 ▸ hi)
  · rw [hroot, hnext, hname]
    rcases hd.resolves c (hcanid ▸ hc) i ((hinfo c).2.1 ▸ hi) with h | ⟨hn, a, ha, han, hac⟩
    · exact Or.inl h
    · exact Or.inr ⟨hn, a, ha, han, by rwa [(hentry a).2.1]⟩
  · obtain ⟨l, hl, hcells⟩ := hd.chains a (hroot ▸ ha)
    rw [hnext, hname, hcell]
    refine ⟨l, hl, fun x hx => ?_⟩
    rw [(hentry x).2.1, (hentry a).2.1, hkind, hkind]
    exact hcells x hx

/-! ## Reachable data -/

/-- **The data that registrations lead to.** -/
inductive Registered : Dict → Prop
  | empty : Registered Dict.empty
  | add {d d' : Dict} {c : CanidDef} {ret : ℤ} (h : Registered d)
      (hd : d.addCANIDDict c = some (d', ret)) : Registered d'
  | timer {d : Dict} (h : Registered d) (c : CanId) : Registered (d.addSendTimer c)

/-- What is said of the data between registrations. -/
structure Sound (d : Dict) : Prop where
  wf : d.WF
  listed : NamesListed d
  pristine : Pristine d

/-- The empty data is sound. -/
theorem sound_empty : Sound Dict.empty where
  wf := ⟨List.Pairwise.nil, List.Pairwise.nil, fun _ h => absurd h List.not_mem_nil,
    fun _ h => absurd h List.not_mem_nil, fun _ h => absurd h List.not_mem_nil,
    fun _ h => absurd h List.not_mem_nil, fun _ h => absurd h List.not_mem_nil,
    fun _ h => absurd h List.not_mem_nil⟩
  listed := ⟨[], List.nodup_nil, fun n => by simp [Dict.empty], rfl⟩
  pristine := fun _ => ⟨rfl, rfl, rfl⟩

/-- **The two outcomes of `addCANID_dict`**: the CAN-ID is there already, or
its entries are where the invariant of the loop says. -/
theorem Sound.addCANIDDict_cases {d : Dict} (hd : Sound d) (c : CanidDef) :
    c.info.canid ∈ d.canidRoot ∧ d.addCANIDDict c = some (d, -1)
      ∨ c.info.canid ∉ d.canidRoot ∧ ∃ d' m, d.addCANIDDict c = some (d', 0)
        ∧ LoopInv d c.info.canid c.property [] m d'
        ∧ d'.info = Function.update d.info c.info.canid { c.info with nData := m }
        ∧ d'.canidRoot = (d.install c).canidRoot ∧ d'.timers = d.timers ∧ Sound d' := by
  by_cases hc : c.info.canid ∈ d.canidRoot
  · refine Or.inl ⟨hc, ?_⟩
    have hfind : d.getCANIDDict c.info.canid = some c.info.canid :=
      hd.wf.getCANIDDict_eq_some_iff.mpr ⟨hc, rfl⟩
    unfold addCANIDDict
    rw [hfind]
  · obtain ⟨d₁, m, hloop, heq, hinv, hinfo, hroot, htimers⟩ :=
      addCANIDDict_of_notMem hd.wf hd.listed hc
    have hpristine : Pristine d₁ := hd.pristine.register hloop
    exact Or.inr ⟨hc, _, m, heq, hinv, hinfo, hroot, htimers,
      hd.wf.register hc hinv hinfo hroot, hinv.listed, hpristine⟩

/-- Creating a timer changes the descriptor of a CAN-ID alone. -/
theorem addSendTimer_info (d : Dict) (c x : CanId) :
    (d.addSendTimer c).info x
      = if x = c then { d.info c with timerfd := d.timers.length + 1 } else d.info x :=
  Function.update_apply ..

theorem Sound.addSendTimer {d : Dict} (hd : Sound d) (c : CanId) : Sound (d.addSendTimer c) := by
  refine ⟨hd.wf.congr rfl rfl rfl (fun a => ⟨rfl, rfl, rfl⟩) (fun x => ?_), hd.listed,
    hd.pristine⟩
  rw [addSendTimer_info]
  split_ifs with hx
  · rw [hx]
    exact ⟨rfl, rfl, rfl⟩
  · exact ⟨rfl, rfl, rfl⟩

/-- **The data that registrations lead to is sound.** -/
theorem Registered.sound {d : Dict} (h : Registered d) : Sound d := by
  induction h with
  | empty => exact sound_empty
  | @add d d' c ret _ heq ih =>
    rcases ih.addCANIDDict_cases c with ⟨-, heq'⟩ | ⟨-, d₁, m, heq', -, -, -, -, hsound⟩
    · cases heq'.symm.trans heq
      exact ih
    · cases heq'.symm.trans heq
      exact hsound
  | timer _ c ih => exact ih.addSendTimer c

/-! ## The loader -/

/-- **What `parse_caninfo` does**: nothing for a CAN-ID that is known or has no
`DATA` array, else one registration, with a timer behind it where the CAN-ID is
to send. -/
theorem parseCaninfo_cases {d d' : Dict} {canid : CanId} {obj : Json} {kind : CanPropertyKind}
    {e : ℕ} (h : parseCaninfo d canid obj kind = some (d', e)) :
    (d.getCANIDDict canid ≠ none ∨ ∀ array, obj.objectGet "DATA" ≠ .array array) ∧ d' = d
      ∨ d.getCANIDDict canid = none ∧ ∃ array ps err,
        obj.objectGet "DATA" = .array array ∧
        ∃ hps : addPropertyMapping array kind = some (ps, err), ∃ d₁ ret,
          d.addCANIDDict (CanidDef.ofMapping canid obj kind ps
            (addPropertyMapping_propertyKind hps)) = some (d₁, ret)
          ∧ (d' = d₁ ∨ ret = 0 ∧ kind = .send
            ∧ d' = d₁.addSendTimer (caninfoHeader canid obj kind).canid) := by
  unfold parseCaninfo at h
  split at h
  · rename_i c hget
    cases h
    exact Or.inl ⟨Or.inl (hget ▸ Option.some_ne_none c), rfl⟩
  · rename_i hget
    split at h
    · rename_i array hdata
      split at h
      · cases h
      · rename_i ps err hps
        refine Or.inr ⟨hget, array, ps, err, hdata, hps, ?_⟩
        dsimp only at h
        split at h
        · cases h
        · rename_i d₁ ret heq
          refine ⟨d₁, ret, heq, ?_⟩
          split_ifs at h with hret hsend
          · cases h
            exact Or.inl rfl
          · cases h
            exact Or.inr ⟨not_not.mp hret, hsend.2, rfl⟩
          · cases h
            exact Or.inl rfl
    · rename_i hdata
      cases h
      exact Or.inl ⟨Or.inr hdata, rfl⟩

/-- **A CAN-ID that is new and has an array to read** is registered. -/
theorem parseCaninfo_of_array {d d₁ : Dict} {canid : CanId} {obj : Json}
    {kind : CanPropertyKind} {array : List Json} {ps : List PropDef} {err : ℕ}
    (hget : d.getCANIDDict canid = none) (hdata : obj.objectGet "DATA" = .array array)
    (hps : addPropertyMapping array kind = some (ps, err))
    (hadd : d.addCANIDDict (CanidDef.ofMapping canid obj kind ps
      (addPropertyMapping_propertyKind hps)) = some (d₁, 0)) :
    parseCaninfo d canid obj kind
      = some (if err = 0 ∧ kind = .send then
          d₁.addSendTimer (caninfoHeader canid obj kind).canid else d₁, err) := by
  unfold parseCaninfo
  rw [hget, hdata]
  dsimp only
  split
  · rename_i hnone
    exact absurd (hps.symm.trans hnone) (Option.some_ne_none _)
  · rename_i ps' err' hps'
    cases hps.symm.trans hps'
    rw [hadd]
    dsimp only
    rw [if_neg (not_not.mpr rfl)]
    split_ifs <;> rfl

/-- The direction of a block is one to receive or one to send. -/
theorem blockKind_readonly_or_send (key : String) :
    (if key = "RECEPTION" then CanPropertyKind.readonly else .send) = .readonly
      ∨ (if key = "RECEPTION" then CanPropertyKind.readonly else .send) = .send := by
  by_cases hr : key = "RECEPTION"
  · exact Or.inl (if_pos hr)
  · exact Or.inr (if_neg hr)

section Loader

variable {P : Dict → Prop}

/-- What every CAN-ID keeps, a block of CAN-IDs keeps. -/
theorem parseCanidDef_invariant {kind : CanPropertyKind}
    (hP : ∀ d canid obj d' e, P d → parseCaninfo d canid obj kind = some (d', e) → P d')
    {l : List (String × Json)} {d d' : Dict} {err e : ℕ}
    (h : parseCanidDef kind l (d, err) = some (d', e)) (hd : P d) : P d' := by
  induction l generalizing d err with
  | nil =>
    cases h
    exact hd
  | cons kv l ih =>
    obtain ⟨key, val⟩ := kv
    rw [parseCanidDef] at h
    split at h
    · cases h
    · rename_i d₁ e₁ heq
      exact ih h (hP d _ val d₁ e₁ hd heq)

/-- What every block of CAN-IDs keeps, a direction keeps. -/
theorem parseReceptAndTransmission_invariant {kind : CanPropertyKind}
    (hP : ∀ l d d' err e, P d → parseCanidDef kind l (d, err) = some (d', e) → P d')
    {l : List (String × Json)} {d d' : Dict} {err e : ℕ}
    (h : parseReceptAndTransmission kind l (d, err) = some (d', e)) (hd : P d) : P d' := by
  induction l generalizing d err with
  | nil =>
    cases h
    exact hd
  | cons kv l ih =>
    obtain ⟨key, val⟩ := kv
    rw [parseReceptAndTransmission] at h
    split_ifs at h
    · split at h
      · cases h
      · rename_i defs _
        split at h
        · cases h
        · rename_i d₁ e₁ heq
          exact ih h (hP defs d d₁ 0 e₁ hd heq)
    · exact ih h hd
    · exact ih h hd

/-- What every block keeps, a configuration keeps. -/
theorem parseJson_invariant
    (hP : ∀ kind l d d' err e, kind = .readonly ∨ kind = .send → P d →
      parseCanidDef kind l (d, err) = some (d', e) → P d')
    {l : List (String × Json)} {d d' : Dict} {err e : ℕ}
    (h : parseJson l (d, err) = some (d', e)) (hd : P d) : P d' := by
  induction l generalizing d err with
  | nil =>
    cases h
    exact hd
  | cons kv l ih =>
    obtain ⟨key, val⟩ := kv
    rw [parseJson] at h
    by_cases hkey : key = "RECEPTION" ∨ key = "TRANSMISSION"
    · rw [if_pos hkey] at h
      split at h
      · cases h
      · dsimp only at h
        split at h
        · cases h
        · rename_i d₁ e₁ heq
          exact ih h (parseReceptAndTransmission_invariant
            (fun l d d' err e => hP _ l d d' err e (blockKind_readonly_or_send key)) heq hd)
    · rw [if_neg hkey] at h
      exact ih h hd

/-- What holds of the empty data and is kept by every block read holds of a loaded
configuration. -/
theorem canDefineInit_invariant_of_blocks
    (hP : ∀ kind l d d' err e, kind = .readonly ∨ kind = .send → P d →
      parseCanidDef kind l (d, err) = some (d', e) → P d')
    {jobj : Json} {d : Dict} (h : canDefineInit jobj = some d) (h0 : P Dict.empty) : P d := by
  unfold canDefineInit at h
  split at h
  · cases h
  · obtain ⟨⟨d', e⟩, heq, rfl⟩ := Option.map_eq_some_iff.mp h
    exact parseJson_invariant hP heq h0

/-- **Invariants of the loader**: what holds of the empty data and is kept by
every CAN-ID read holds of a loaded configuration. -/
theorem canDefineInit_invariant
    (hP : ∀ d canid obj kind d' e, kind = .readonly ∨ kind = .send → P d →
      parseCaninfo d canid obj kind = some (d', e) → P d')
    {jobj : Json} {d : Dict} (h : canDefineInit jobj = some d) (h0 : P Dict.empty) : P d :=
  canDefineInit_invariant_of_blocks (fun _ _ _ _ _ _ hkind hd hl => parseCanidDef_invariant
    (fun d canid obj d' e => hP d canid obj _ d' e hkind) hl hd) h h0

end Loader

/-- **A loaded configuration is made by registrations.** -/
theorem registered_of_canDefineInit {jobj : Json} {d : Dict}
    (h : canDefineInit jobj = some d) : Registered d := by
  refine canDefineInit_invariant (fun d canid obj kind d' e _ hd hp => ?_) h Registered.empty
  obtain ⟨-, rfl⟩ | ⟨-, array, ps, err, -, hps, d₁, ret, heq, rfl | ⟨-, -, rfl⟩⟩ :=
    parseCaninfo_cases hp
  · exact hd
  · exact hd.add heq
  · exact (hd.add heq).timer _

end Dict
