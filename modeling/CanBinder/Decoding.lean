import CanBinder.Locality

/-!
# A frame and a property

What `update_iviproperty` makes of a frame, in closed form. A property of a
single entry is decoded over its old value. The entries of a chain are reset
first, so that what a frame makes of each of them is a function of its
definition and the frame (`PropDef.decoded`); an entry is active if that
counts as an update, and the last active entry of the chain is the one
marked. The loops over the chain come to one map over the memory
(`Dict.storeAll`) and one last element of a filtered list.
-/

namespace PropDef

/-- The raw value of an entry in a frame. -/
def raw (p : PropDef) (canV64 : BitVec 64) : BitVec 32 := (p.field canV64).setWidth 32

/-- What a frame makes of an entry that was reset. -/
def decoded (p : PropDef) (canV64 : BitVec 64) : UpdateStat × DataContent :=
  p.decode DataContent.zero (p.raw canV64)

/-- **The frame activates the entry.** -/
def active (p : PropDef) (canV64 : BitVec 64) : Bool := (p.decoded canV64).1 = .updated

/-- The frame has a value for the entry that it cannot take. -/
def unreadable (p : PropDef) (canV64 : BitVec 64) : Bool := p.rejects (p.raw canV64)

end PropDef

/-- Decoding stores what the decoder on values says. -/
theorem canframe2property_eq (canV64 : BitVec 64) (p : CanBit) :
    canframe2property canV64 p = ((p.decode p.curValue (p.raw canV64)).1,
      { p with curValue := (p.decode p.curValue (p.raw canV64)).2 }) :=
  updatePropertyValue_eq p (p.raw canV64)

namespace Dict

/-- **`update_iviproperty` calls `notify_property_changed`** at the frame. -/
def notifies (d : Dict) (canV64 : BitVec 64) (a : Addr) (timestamp : Timeval) : Bool :=
  (d.updateProperty canV64 a timestamp).2.any (fun update => update ≠ 0)

/-! ## One entry -/

/-- The chain of a single entry. -/
theorem chain_of_next_none {d : Dict} {a : Addr} (h : (d.mem a).next = none) :
    d.chain a = [a] := by
  have hchain : PtrChain.IsChain d.next (some a) [a] := ⟨rfl, h⟩
  exact PtrChain.walk_eq hchain (Nat.succ_le_succ (Nat.zero_le _))

/-- **A frame and a single entry.** -/
theorem updateProperty_single {d : Dict} {a : Addr} (h : (d.mem a).next = none)
    (canV64 : BitVec 64) (timestamp : Timeval) :
    d.updateProperty canV64 a timestamp =
      match (d.mem a).decode (d.mem a).curValue ((d.mem a).raw canV64) with
      | (.error, c) => (d.setBit a { d.mem a with curValue := c }, none)
      | (.updated, c) =>
        (d.setBit a { d.mem a with curValue := c, updatetime := timestamp }, some 1)
      | (.noUpdated, c) =>
        if (d.info (d.mem a).mycanid).cycle ≤ elapsMs (d.mem a).updatetime timestamp then
          (d.setBit a { d.mem a with curValue := c, updatetime := timestamp }, some 1)
        else (d.setBit a { d.mem a with curValue := c }, some 0) := by
  unfold updateProperty
  rw [chain_of_next_none h, h]
  dsimp only [Option.isSome_none]
  rw [if_neg Bool.false_ne_true, decodeChain, canframe2property_eq]
  cases hdec : (d.mem a).decode (d.mem a).curValue ((d.mem a).raw canV64) with
  | mk st c =>
    cases st with
    | error => rfl
    | updated => rfl
    | noUpdated =>
      dsimp only
      by_cases hc : (d.info (d.mem a).mycanid).cycle ≤ elapsMs (d.mem a).updatetime timestamp
      · rw [if_pos ⟨rfl, hc⟩, if_pos hc]
        rfl
      · rw [if_neg (fun h => hc h.2), if_neg hc]
        rfl

/-- The value a frame leaves in a single entry. -/
theorem updateProperty_single_curValue {d : Dict} {a : Addr} (h : (d.mem a).next = none)
    (canV64 : BitVec 64) (timestamp : Timeval) :
    ((d.updateProperty canV64 a timestamp).1.mem a).curValue
      = ((d.mem a).decode (d.mem a).curValue ((d.mem a).raw canV64)).2 := by
  rw [updateProperty_single h]
  cases (d.mem a).decode (d.mem a).curValue ((d.mem a).raw canV64) with
  | mk st c =>
    cases st with
    | error => simp
    | updated => simp
    | noUpdated =>
      dsimp only
      split_ifs <;> simp

/-! ## Chains -/

/-- The memory after every entry of a list was given a value. -/
def storeAll (f : PropDef → DataContent) (l : List Addr) (d : Dict) : Dict :=
  { d with
    mem := fun x =>
      if x ∈ l then { d.mem x with curValue := f (d.mem x).toPropDef } else d.mem x }

theorem storeAll_mem_of_mem {f : PropDef → DataContent} {l : List Addr} {d : Dict} {x : Addr}
    (h : x ∈ l) :
    (storeAll f l d).mem x = { d.mem x with curValue := f (d.mem x).toPropDef } := if_pos h

/-- Giving values to the first entry and then to the rest. -/
theorem storeAll_cons (f : PropDef → DataContent) (p : Addr) (l : List Addr) (d : Dict) :
    storeAll f (p :: l) d
      = storeAll f l (d.setBit p { d.mem p with curValue := f (d.mem p).toPropDef }) := by
  unfold storeAll setBit
  congr 1
  funext x
  dsimp only
  by_cases hp : x = p
  · subst hp
    rw [Function.update_self]
    by_cases hl : x ∈ l
    · rw [if_pos hl, if_pos List.mem_cons_self]
    · rw [if_neg hl, if_pos List.mem_cons_self]
  · rw [Function.update_of_ne hp]
    by_cases hl : x ∈ l
    · rw [if_pos hl, if_pos (List.mem_cons_of_mem _ hl)]
    · rw [if_neg hl, if_neg (fun hm => (List.mem_cons.mp hm).elim hp hl)]

/-- **The reset of a chain.** -/
theorem resetChain_eq (l : List Addr) (d : Dict) :
    resetChain l d = storeAll (fun _ => DataContent.zero) l d := by
  induction l generalizing d with
  | nil =>
    unfold resetChain storeAll
    simp
  | cons p l ih => rw [resetChain, ih, storeAll_cons]

/-- One turn of the decode loop at an entry that was reset and that takes its
value: an active entry is marked and counts. -/
theorem decodeChain_cons (elaps cycle : BitVec 32) (canV64 : BitVec 64) (timestamp : Timeval)
    {p : Addr} {d : Dict} (hzero : (d.mem p).curValue = DataContent.zero)
    (hread : (d.mem p).unreadable canV64 = false) (l : List Addr) (mark : Option Addr)
    (update : ℕ) :
    decodeChain true elaps cycle canV64 timestamp (p :: l) d mark update
      = decodeChain true elaps cycle canV64 timestamp l
          (d.setBit p { d.mem p with curValue := ((d.mem p).decoded canV64).2 })
          (if (d.mem p).active canV64 then some p else mark)
          (if (d.mem p).active canV64 then update + 1 else update) := by
  have hne : ((d.mem p).decoded canV64).1 ≠ .error := by
    intro herr
    have hrej := (PropDef.decode_fst_eq_error_iff _ _ _).mp herr
    exact Bool.false_ne_true (hread.symm.trans hrej)
  rw [decodeChain, canframe2property_eq, hzero]
  unfold PropDef.active
  cases hdec : (d.mem p).decoded canV64 with
  | mk st c =>
    have hdec' : (d.mem p).decode DataContent.zero ((d.mem p).raw canV64) = (st, c) := hdec
    rw [hdec']
    rw [hdec] at hne
    cases st with
    | error => exact absurd rfl hne
    | updated => rfl
    | noUpdated =>
      dsimp only
      rw [if_neg (fun h => Bool.false_ne_true h.1.symm)]
      rfl

/-- **The decode loop over a chain that was reset**: every entry gets its
decoded value, the last active one is marked, and every active one counts. -/
theorem decodeChain_eq (elaps cycle : BitVec 32) (canV64 : BitVec 64) (timestamp : Timeval)
    {l : List Addr} {d : Dict} (hnd : l.Nodup)
    (hzero : ∀ x ∈ l, (d.mem x).curValue = DataContent.zero)
    (hread : ∀ x ∈ l, (d.mem x).unreadable canV64 = false) (mark : Option Addr) (update : ℕ) :
    decodeChain true elaps cycle canV64 timestamp l d mark update
      = (storeAll (fun p => (p.decoded canV64).2) l d,
          some ((l.filter (fun x => (d.mem x).active canV64)).getLast?.or mark,
            update + (l.filter (fun x => (d.mem x).active canV64)).length)) := by
  induction l generalizing d mark update with
  | nil =>
    unfold decodeChain storeAll
    simp
  | cons p l ih =>
    obtain ⟨hp, hl⟩ := List.nodup_cons.mp hnd
    -- the turn for `p` leaves the entries to come as they were
    have hset : ∀ x ∈ l, ∀ q, (d.setBit p q).mem x = d.mem x := fun x hx q =>
      setBit_mem_of_ne d (by rintro rfl; exact hp hx) q
    have hfilter : ∀ q, l.filter (fun x => ((d.setBit p q).mem x).active canV64)
        = l.filter (fun x => (d.mem x).active canV64) := fun q =>
      List.filter_congr (fun x hx => by rw [hset x hx])
    rw [decodeChain_cons elaps cycle canV64 timestamp (hzero p List.mem_cons_self)
      (hread p List.mem_cons_self), storeAll_cons,
      ih hl (fun x hx => by rw [hset x hx]; exact hzero x (List.mem_cons_of_mem p hx))
        (fun x hx => by rw [hset x hx]; exact hread x (List.mem_cons_of_mem p hx)), hfilter]
    cases hact : (d.mem p).active canV64 with
    | true =>
      have hf : (p :: l).filter (fun x => (d.mem x).active canV64)
          = p :: l.filter (fun x => (d.mem x).active canV64) := List.filter_cons_of_pos hact
      rw [hf, List.getLast?_cons, List.length_cons, if_pos rfl, if_pos rfl]
      refine congrArg (Prod.mk _) (congrArg some (Prod.ext ?_ (by omega)))
      cases (l.filter (fun x => (d.mem x).active canV64)).getLast? <;> rfl
    | false =>
      have hf : (p :: l).filter (fun x => (d.mem x).active canV64)
          = l.filter (fun x => (d.mem x).active canV64) :=
        List.filter_cons_of_neg (by rw [hact]; exact Bool.false_ne_true)
      rw [hf, if_neg Bool.false_ne_true, if_neg Bool.false_ne_true]

/-- Values given twice are the ones given last. -/
theorem storeAll_storeAll (f g : PropDef → DataContent) (l : List Addr) (d : Dict) :
    storeAll f l (storeAll g l d) = storeAll f l d := by
  unfold storeAll
  congr 1
  funext x
  dsimp only
  split_ifs <;> rfl

/-- Values do not change definitions. -/
theorem storeAll_toPropDef (f : PropDef → DataContent) (l : List Addr) (d : Dict) (x : Addr) :
    ((storeAll f l d).mem x).toPropDef = (d.mem x).toPropDef := by
  unfold storeAll
  dsimp only
  split_ifs <;> rfl

theorem storeAll_updatetime (f : PropDef → DataContent) (l : List Addr) (d : Dict) (x : Addr) :
    ((storeAll f l d).mem x).updatetime = (d.mem x).updatetime := by
  unfold storeAll
  dsimp only
  split_ifs <;> rfl

theorem storeAll_applyinfo (f : PropDef → DataContent) (l : List Addr) (d : Dict) (x : Addr) :
    ((storeAll f l d).mem x).applyinfo = (d.mem x).applyinfo := by
  unfold storeAll
  dsimp only
  split_ifs <;> rfl

/-- The value of the entry applied last, as `update_iviproperty` keeps it
before the reset. -/
def preApValue (d : Dict) (a : Addr) : DataContent :=
  match (d.mem a).applyinfo with
  | some b => (d.mem b).curValue
  | none => DataContent.zero

/-- **A frame and a chain** all of whose entries it can be decoded into: the
chain gets the decoded values, and the last active entry is the one to
apply. -/
theorem updateProperty_chain {d : Dict} {a : Addr} {canV64 : BitVec 64}
    (hnext : (d.mem a).next.isSome = true) (hnd : (d.chain a).Nodup)
    (hread : ∀ x ∈ d.chain a, (d.mem x).unreadable canV64 = false) (timestamp : Timeval) :
    d.updateProperty canV64 a timestamp =
      let actives := (d.chain a).filter (fun x => (d.mem x).active canV64)
      let r := (storeAll (fun p => (p.decoded canV64).2) (d.chain a) d).applyMark a
        (elapsMs (d.mem a).updatetime timestamp) (d.info (d.mem a).mycanid).cycle
        (d.preApValue a) timestamp actives.getLast? actives.length
      (r.1, some r.2) := by
  have hfilter : (d.chain a).filter
        (fun x => ((resetChain (d.chain a) d).mem x).active canV64)
      = (d.chain a).filter (fun x => (d.mem x).active canV64) :=
    List.filter_congr (fun x _ => by rw [resetChain_eq, storeAll_toPropDef])
  have hdecode := fun elaps cycle => decodeChain_eq elaps cycle canV64 timestamp
    (d := resetChain (d.chain a) d) hnd
    (fun x hx => by rw [resetChain_eq, storeAll_mem_of_mem hx])
    (fun x hx => by rw [resetChain_eq, storeAll_toPropDef]; exact hread x hx) none 0
  unfold updateProperty
  dsimp only
  rw [if_pos hnext, hnext, hdecode, hfilter, resetChain_eq, storeAll_storeAll,
    storeAll_updatetime, Option.or_none, Nat.zero_add]
  dsimp only
  rw [if_pos rfl]
  rfl

/-! ## Applied entries -/

/-- **Applied entries are entries of their chain**: an entry of the tree has
none or one of its own chain applied, and the other entries of a chain have
none. -/
def AppliedInChain (d : Dict) : Prop :=
  ∀ a ∈ d.propertyRoot, (∀ m, (d.mem a).applyinfo = some m → m ∈ d.chain a)
    ∧ ∀ x ∈ d.chain a, x ≠ a → (d.mem x).applyinfo = none

/-- The entry whose value a property reports. -/
def applied (d : Dict) (a : Addr) : Addr := (d.mem a).applyinfo.getD a

/-- A single entry reports itself. -/
theorem applied_of_next_none {d : Dict} {a : Addr} (hnext : (d.mem a).next = none)
    (hap : ∀ m, (d.mem a).applyinfo = some m → m ∈ d.chain a) : d.applied a = a := by
  unfold applied
  cases h : (d.mem a).applyinfo with
  | none => rfl
  | some m =>
    have hm := hap m h
    rwa [chain_of_next_none hnext, List.mem_singleton] at hm

/-- The value object of one entry. -/
def report (p : CanBit) : Option Json := (valueObject p).map (fun v => .object [("value", v)])

/-- **The recursion goes at most one entry further**, if the applied entry has none
applied itself. -/
theorem property2jsonAux_eq {d : Dict} {a : Addr}
    (h : ∀ m, (d.mem a).applyinfo = some m → m ≠ a → (d.mem m).applyinfo = none) (depth : ℕ) :
    d.property2jsonAux (depth + 2) a = report (d.mem (d.applied a)) := by
  unfold applied report
  rw [property2jsonAux]
  cases hap : (d.mem a).applyinfo with
  | none => rfl
  | some b =>
    dsimp only [Option.getD_some]
    by_cases hb : b = a
    · rw [if_neg (not_not.mpr hb), hb]
    · rw [if_pos hb, property2jsonAux, h b hap hb]

/-- **What a property reports** is the value of its applied entry. -/
theorem property2json_eq {d : Dict} (h : AppliedInChain d) {a : Addr} (ha : a ∈ d.propertyRoot) :
    d.property2json a = report (d.mem (d.applied a)) := by
  obtain ⟨hin, hnone⟩ := h a ha
  exact property2jsonAux_eq (fun m hm => hnone m (hin m hm)) d.ncell

/-- Overwriting an entry by one with the same applied entry. -/
theorem setBit_applyinfo {d : Dict} {a : Addr} {p : CanBit}
    (h : p.applyinfo = (d.mem a).applyinfo) (x : Addr) :
    ((d.setBit a p).mem x).applyinfo = (d.mem x).applyinfo := by
  by_cases hx : x = a
  · rw [hx, setBit_mem_self, h]
  · rw [setBit_mem_of_ne d hx]

theorem decodeChain_applyinfo (multi : Bool) (elaps cycle : BitVec 32) (canV64 : BitVec 64)
    (timestamp : Timeval) (entries : List Addr) (d : Dict) (mark : Option Addr) (update : ℕ)
    (x : Addr) :
    ((decodeChain multi elaps cycle canV64 timestamp entries d mark update).1.mem x).applyinfo
      = (d.mem x).applyinfo := by
  induction entries generalizing d mark update with
  | nil => rfl
  | cons p entries ih =>
    rw [decodeChain, canframe2property_eq]
    have hset : ∀ q : CanBit, q.applyinfo = (d.mem p).applyinfo →
        ((d.setBit p q).mem x).applyinfo = (d.mem x).applyinfo :=
      fun q hq => setBit_applyinfo hq x
    cases ((d.mem p).decode (d.mem p).curValue ((d.mem p).raw canV64)).1 with
    | error => exact hset _ rfl
    | updated =>
      cases multi
      · exact (ih _ _ _).trans (hset _ rfl)
      · exact (ih _ _ _).trans (hset _ rfl)
    | noUpdated =>
      dsimp only
      split_ifs
      · exact (ih _ _ _).trans (hset _ rfl)
      · exact (ih _ _ _).trans (hset _ rfl)

/-- `applyMark` applies the marked entry or changes no applied entry. -/
theorem applyMark_applyinfo (d : Dict) (a : Addr) (elaps cycle : BitVec 32)
    (preApValue : DataContent) (timestamp : Timeval) (mark : Option Addr) (update : ℕ) :
    (∀ x, x ≠ a → ((d.applyMark a elaps cycle preApValue timestamp mark update).1.mem
        x).applyinfo = (d.mem x).applyinfo)
      ∧ (((d.applyMark a elaps cycle preApValue timestamp mark update).1.mem a).applyinfo
          = (d.mem a).applyinfo
        ∨ mark.isSome = true
          ∧ ((d.applyMark a elaps cycle preApValue timestamp mark update).1.mem a).applyinfo
            = mark) := by
  have hstamp : ∀ (d : Dict) y x, ((d.stamp y timestamp).mem x).applyinfo
      = (d.mem x).applyinfo := fun d y x =>
    setBit_applyinfo (p := { d.mem y with updatetime := timestamp }) rfl x
  unfold applyMark
  cases mark with
  | none =>
    dsimp only
    split_ifs
    · exact ⟨fun x _ => hstamp d a x, Or.inl (hstamp d a a)⟩
    · exact ⟨fun _ _ => rfl, Or.inl rfl⟩
  | some m =>
    dsimp only
    split_ifs
    · refine ⟨fun x hx => ?_, Or.inr ⟨rfl, ?_⟩⟩
      · rw [hstamp, hstamp, setBit_mem_of_ne d hx]
      · rw [hstamp, hstamp, setBit_mem_self]
    · exact ⟨fun x _ => hstamp d a x, Or.inl (hstamp d a a)⟩
    · exact ⟨fun _ _ => rfl, Or.inl rfl⟩

/-- **A frame applies an entry of the chain**, and only to the property
itself. -/
theorem updateProperty_applyinfo (d : Dict) (canV64 : BitVec 64) (a : Addr)
    (timestamp : Timeval) :
    (∀ x, x ≠ a → ((d.updateProperty canV64 a timestamp).1.mem x).applyinfo
        = (d.mem x).applyinfo)
      ∧ (((d.updateProperty canV64 a timestamp).1.mem a).applyinfo = (d.mem a).applyinfo
        ∨ ∃ m ∈ d.chain a,
          ((d.updateProperty canV64 a timestamp).1.mem a).applyinfo = some m) := by
  unfold updateProperty
  dsimp only
  have hreset : ∀ x, ((if (d.mem a).next.isSome = true then resetChain (d.chain a) d
      else d).mem x).applyinfo = (d.mem x).applyinfo := by
    intro x
    split_ifs
    · rw [resetChain_eq, storeAll_applyinfo]
    · rfl
  generalize (if (d.mem a).next.isSome = true then resetChain (d.chain a) d else d) = d₁
    at hreset ⊢
  have hdecode := fun x => (decodeChain_applyinfo (d.mem a).next.isSome
    (elapsMs (d₁.mem a).updatetime timestamp) (d.info (d.mem a).mycanid).cycle canV64 timestamp
    (d.chain a) d₁ none 0 x).trans (hreset x)
  split
  · rename_i d₂ heq
    rw [heq] at hdecode
    exact ⟨fun x _ => hdecode x, Or.inl (hdecode a)⟩
  · rename_i d₂ mark update heq
    rw [heq] at hdecode
    split_ifs
    · obtain ⟨hother, hself⟩ := d₂.applyMark_applyinfo a
        (elapsMs (d₁.mem a).updatetime timestamp) (d.info (d.mem a).mycanid).cycle
        (match (d.mem a).applyinfo with
          | some b => (d.mem b).curValue
          | none => DataContent.zero) timestamp mark update
      refine ⟨fun x hx => (hother x hx).trans (hdecode x), ?_⟩
      rcases hself with hself | ⟨hmark, hself⟩
      · exact Or.inl (hself.trans (hdecode a))
      · obtain ⟨m, rfl⟩ := Option.isSome_iff_exists.mp hmark
        exact Or.inr ⟨m, (mem_of_decodeChain heq).resolve_left (by simp), hself⟩
    · exact ⟨fun x _ => hdecode x, Or.inl (hdecode a)⟩

/-! ## Chains of loaded data -/

section WF

variable {d : Dict}

/-- The entries of a chain have one name, and but for the first they are
copies. -/
theorem WF.mem_chain (h : d.WF) {a x : Addr} (ha : a ∈ d.propertyRoot) (hx : x ∈ d.chain a) :
    d.name x = d.name a ∧ (x = a ∨ ∃ k, x = .cell k) := by
  obtain ⟨l, hl, hcells⟩ := h.chains a ha
  rw [chain_eq hl (fun x hx => (hcells x hx).1)] at hx
  rcases List.mem_cons.mp hx with rfl | hx
  · exact ⟨rfl, Or.inl rfl⟩
  · obtain ⟨⟨k, -, rfl⟩, hn, -⟩ := hcells x hx
    exact ⟨hn, Or.inr ⟨k, rfl⟩⟩

theorem WF.nodup_chain (h : d.WF) {a : Addr} (ha : a ∈ d.propertyRoot) : (d.chain a).Nodup := by
  obtain ⟨l, hl, hcells⟩ := h.chains a ha
  rw [chain_eq hl (fun x hx => (hcells x hx).1)]
  have hwhole : PtrChain.IsChain d.next (some a) (a :: l) := ⟨rfl, hl⟩
  exact hwhole.nodup

/-- **Different properties have no entry in common.** -/
theorem WF.notMem_chain (h : d.WF) {a a' x : Addr} (ha : a ∈ d.propertyRoot)
    (ha' : a' ∈ d.propertyRoot) (hne : a ≠ a') (hx : x ∈ d.chain a) : x ∉ d.chain a' := by
  intro hx'
  refine hne (h.propertyTree.eq_of_key_eq ha ha' ?_)
  rw [← (h.mem_chain ha hx).1, (h.mem_chain ha' hx').1]

/-- A slot that is in use is a property or was refused, and then is a chain by
itself. -/
theorem WF.slot_cases (h : d.WF) {c : CanId} (hc : c ∈ d.canidRoot) {i : ℕ}
    (hi : i < (d.info c).nData) :
    .slot c i ∈ d.propertyRoot
      ∨ .slot c i ∉ d.propertyRoot ∧ d.chain (.slot c i) = [.slot c i] := by
  by_cases hr : .slot c i ∈ d.propertyRoot
  · exact Or.inl hr
  · rcases h.resolves c hc i hi with hr' | ⟨hn, -⟩
    · exact Or.inl hr'
    · exact Or.inr ⟨hr, chain_of_next_none hn⟩

/-- A refused slot is in no chain. -/
theorem WF.notMem_chain_of_refused (h : d.WF) {a : Addr} (ha : a ∈ d.propertyRoot) {c : CanId}
    {i : ℕ} (hr : .slot c i ∉ d.propertyRoot) : .slot c i ∉ d.chain a := by
  intro hx
  rcases (h.mem_chain ha hx).2 with rfl | ⟨k, hk⟩
  · exact hr ha
  · exact Addr.noConfusion hk

/-- The chains of different slots in use have no entry in common. -/
theorem WF.notMem_chain_slot (h : d.WF) {c c' : CanId} (hc : c ∈ d.canidRoot)
    (hc' : c' ∈ d.canidRoot) {i j : ℕ} (hi : i < (d.info c).nData) (hj : j < (d.info c').nData)
    (hne : Addr.slot c i ≠ .slot c' j) {x : Addr} (hx : x ∈ d.chain (.slot c i)) :
    x ∉ d.chain (.slot c' j) := by
  rcases h.slot_cases hc' hj with hr' | ⟨hr', hchain'⟩
  · rcases h.slot_cases hc hi with hr | ⟨hr, hchain⟩
    · exact h.notMem_chain hr hr' hne hx
    · rw [hchain, List.mem_singleton] at hx
      rw [hx]
      exact h.notMem_chain_of_refused hr' hr
  · rw [hchain', List.mem_singleton]
    rintro rfl
    rcases h.slot_cases hc hi with hr | ⟨-, hchain⟩
    · exact h.notMem_chain_of_refused hr hr' hx
    · rw [hchain, List.mem_singleton] at hx
      exact hne hx.symm

/-- **A frame for one slot leaves the entries of the others alone.** -/
theorem WF.updateProperty_mem (h : d.WF) {c c' : CanId} (hc : c ∈ d.canidRoot)
    (hc' : c' ∈ d.canidRoot) {i j : ℕ} (hi : i < (d.info c).nData) (hj : j < (d.info c').nData)
    (hne : Addr.slot c i ≠ .slot c' j) (canV64 : BitVec 64) (timestamp : Timeval) {x : Addr}
    (hx : x ∈ d.chain (.slot c i)) :
    (d.updateProperty canV64 (.slot c' j) timestamp).1.mem x = d.mem x :=
  (d.touches_updateProperty canV64 (.slot c' j) timestamp).same x
    (h.notMem_chain_slot hc hc' hi hj hne hx)

/-- Applied entries are a matter of the layout and the entries applied. -/
theorem AppliedInChain.congr {d' : Dict} (hap : AppliedInChain d) (hlayout : d.SameLayout d')
    (h : ∀ x, (d'.mem x).applyinfo = (d.mem x).applyinfo) : AppliedInChain d' := by
  intro a ha
  rw [hlayout.propertyRoot] at ha
  rw [hlayout.chain_eq, h a]
  refine ⟨(hap a ha).1, fun x hx hxa => ?_⟩
  rw [h x]
  exact (hap a ha).2 x hx hxa

/-- **Applied entries stay in their chains.** -/
theorem AppliedInChain.updateProperty (hap : AppliedInChain d) (h : d.WF) (c : CanId) (i : ℕ)
    (canV64 : BitVec 64) (timestamp : Timeval) :
    AppliedInChain (d.updateProperty canV64 (.slot c i) timestamp).1 := by
  have hlayout := (d.touches_updateProperty canV64 (.slot c i) timestamp).sameLayout
  obtain ⟨hother, hself⟩ := d.updateProperty_applyinfo canV64 (.slot c i) timestamp
  intro a ha
  rw [hlayout.propertyRoot] at ha
  rw [hlayout.chain_eq]
  obtain ⟨hin, hnone⟩ := hap a ha
  refine ⟨fun m hm => ?_, fun x hx hxa => ?_⟩
  · by_cases hs : a = .slot c i
    · subst hs
      rcases hself with hself | ⟨m', hm', hself⟩
      · exact hin m (hself ▸ hm)
      · rw [hself] at hm
        exact Option.some.inj hm ▸ hm'
    · rw [hother a hs] at hm
      exact hin m hm
  · have hxs : x ≠ .slot c i := by
      rcases (h.mem_chain ha hx).2 with rfl | ⟨k, rfl⟩
      · exact absurd rfl hxa
      · exact Addr.noConfusion
    rw [hother x hxs]
    exact hnone x hx hxa

/-- Nothing is applied before the first frame. -/
theorem Pristine.appliedInChain (h : Pristine d) : AppliedInChain d := fun a _ =>
  ⟨fun m hm => absurd ((h a).1.symm.trans hm) (by simp), fun x _ _ => (h x).1⟩

end WF

end Dict
