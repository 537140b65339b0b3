import CanBinder.ChainUpdate
import CanBinder.ConversionTables
import CanBinder.IntReports
import CanBinder.Sending

/-!
# What a property with a table reports

A frame selects an entry of the conversion table by the number in the field of a
property, and leaves the property alone where there is no such entry. So over a run
a property of a single entry reports the last entry that was selected
(`Binder.reports_table`), and what it was loaded with until then. Nothing of the
other inputs has a part in it, but a `set` on the property itself.
-/

/-! ## One entry of a table -/

/-- **The number is one of the type.** -/
def VarType.Fits (t : VarType) (i : ℤ) : Prop :=
  match t with
  | .int8 => -2 ^ 7 ≤ i ∧ i < 2 ^ 7
  | .int16 => -2 ^ 15 ≤ i ∧ i < 2 ^ 15
  | .void | .int | .int32 => -2 ^ 31 ≤ i ∧ i < 2 ^ 31
  | .int64 => -2 ^ 63 ≤ i ∧ i < 2 ^ 63
  | .uint8 => 0 ≤ i ∧ i < 2 ^ 8
  | .uint16 => 0 ≤ i ∧ i < 2 ^ 16
  | .uint | .uint32 => 0 ≤ i ∧ i < 2 ^ 32
  | .uint64 => 0 ≤ i ∧ i < 2 ^ 64
  | .string | .bool | .array | .enable1 => True

/-- **The entry of a table, as it is reported**: a string itself, the truth of a
number for `bool`, and a number itself where it is one of the type. -/
def ConvTable.Reports (conv : ConvTable) (t : VarType) (x : ℕ) (report : Option Json) : Prop :=
  match conv with
  | .strings l => ∃ s, l[x]? = some s ∧ report = some (.object [("value", .string s)])
  | .ints l => ∃ e, l[x]? = some e
    ∧ (t = .bool → report = some (.object [("value", .bool (e ≠ 0#32))]))
    ∧ (t ≠ .bool → t.Fits e.toInt → report = some (.object [("value", .int e.toInt)]))

/-- A number of a type stays what it is when it is cast to the type. -/
theorem VarType.cast_of_fits {t : VarType} {e : BitVec 32} {l : List (BitVec 32)}
    (ht : (ConvTable.ints l).Matches t) (hbool : t ≠ .bool) (hfits : t.Fits e.toInt) :
    t.cast e = .int e.toInt := by
  have hlt := e.isLt
  have hint := BitVec.toInt_eq_toNat_cond e
  cases t with
  | int8 | int16 =>
    refine congrArg Value.int ?_
    rw [BitVec.toInt_setWidth, Int.bmod_def]
    unfold VarType.Fits at hfits
    omega
  | uint8 | uint16 =>
    refine congrArg Value.int ?_
    rw [BitVec.toNat_setWidth]
    unfold VarType.Fits at hfits
    omega
  | uint | uint32 =>
    refine congrArg Value.int ?_
    unfold VarType.Fits at hfits
    omega
  | int | int32 | enable1 => rfl
  | bool => exact absurd rfl hbool
  | _ => simp [ConvTable.Matches] at ht

/-- The raw value of a field that is no longer than 32 bits is its number. -/
theorem PropDef.Valid.raw_toNat {p : PropDef} (h : p.Valid) (canV64 : BitVec 64) :
    (p.raw canV64).toNat = (p.field canV64).toNat := by
  have hlt := p.field_lt canV64
  have hpow : 2 ^ p.bitLen.toNat ≤ 2 ^ 32 := Nat.pow_le_pow_right (by decide) h.bitLen_le
  unfold raw
  rw [BitVec.toNat_setWidth, Nat.mod_eq_of_lt (by omega)]

/-- **A raw value is taken** if there is an entry for it. -/
theorem PropDef.Valid.rejects_eq {p : PropDef} (h : p.Valid) {conv : ConvTable}
    (hconv : p.dataconv = some conv) (canV64 : BitVec 64) :
    p.rejects (p.raw canV64) = decide (conv.length ≤ (p.field canV64).toNat) := by
  unfold rejects
  rw [hconv, (h.table conv hconv).2, h.raw_toNat]

namespace Dict

/-- What a string is reported as. -/
theorem report_of_text {p : CanBit} {s : String} (ht : p.varType = .string)
    (h : p.value = .text (some s)) : report p = some (.object [("value", .string s)]) := by
  unfold CanBit.value PropDef.valueOf at h
  rw [ht] at h
  obtain ⟨ptr, hptr, rfl⟩ := Option.map_eq_some_iff.mp (Value.text.inj h)
  unfold report valueObject
  rw [ht, hptr]
  rfl

/-- What a truth value is reported as. -/
theorem report_of_truth {p : CanBit} {t : Bool} (ht : p.varType = .bool)
    (h : p.value = .truth t) : report p = some (.object [("value", .bool t)]) := by
  unfold CanBit.value PropDef.valueOf at h
  rw [ht] at h
  unfold report valueObject
  rw [ht]
  exact congrArg (fun b => some (Json.object [("value", .bool b)])) (Value.truth.inj h)

/-- What a number is reported as, if it is an `int`. -/
theorem report_of_int {p : CanBit} {w : ℕ} {i : ℤ} (hw : p.varType.intWidth = some w)
    (h : p.value = .int i) (hint : i.bmod (2 ^ 32) = i) :
    report p = some (.object [("value", .int i)]) := by
  have hread := propertyValueInt_of_value h
  rw [hint, ite_self] at hread
  unfold report
  rw [valueObject_of_intWidth hw, hread]
  rfl

end Dict

/-- A property with a table of numbers is one to report as a number, but for
`bool`. -/
theorem ConvTable.Matches.exists_intWidth {t : VarType} {l : List (BitVec 32)}
    (h : (ConvTable.ints l).Matches t) (hbool : t ≠ .bool) : ∃ w, t.intWidth = some w := by
  cases t with
  | int8 | uint8 => exact ⟨8, rfl⟩
  | int16 | uint16 => exact ⟨16, rfl⟩
  | int | int32 | uint | uint32 | enable1 => exact ⟨32, rfl⟩
  | bool => exact absurd rfl hbool
  | _ => simp [ConvTable.Matches] at h

/-- **A property that holds the meaning of an index reports its entry.** -/
theorem PropDef.Valid.reports_of_value {p : CanBit} (h : p.Valid) {conv : ConvTable}
    (hconv : p.dataconv = some conv) {v : BitVec 32} (hv : v.toNat < conv.length)
    (hvalue : p.value = p.meaning v) :
    conv.Reports p.varType v.toNat (Dict.report p) := by
  have hmatch := (h.table conv hconv).1
  unfold PropDef.meaning at hvalue
  rw [hconv] at hvalue
  dsimp only at hvalue
  cases conv with
  | strings l =>
    have hlt : v.toNat < l.length := hv
    have ht : p.varType = .string := hmatch
    have hentry : (ConvTable.stringAt (.strings l) v.toNat).text = l[v.toNat] :=
      (List.getElem_eq_getD "").symm
    rw [if_pos ht, hentry] at hvalue
    exact ⟨l[v.toNat], List.getElem?_eq_getElem hlt, Dict.report_of_text ht hvalue⟩
  | ints l =>
    have hlt : v.toNat < l.length := hv
    have hstring : p.varType ≠ .string := fun ht => by
      rw [ht] at hmatch
      simp [ConvTable.Matches] at hmatch
    have hentry : (ConvTable.ints l).intAt v.toNat = l[v.toNat] :=
      (List.getElem_eq_getD 0#32).symm
    rw [if_neg hstring, hentry] at hvalue
    refine ⟨l[v.toNat], List.getElem?_eq_getElem hlt, fun ht => ?_, fun ht hfits => ?_⟩
    · rw [ht] at hvalue
      exact Dict.report_of_truth ht hvalue
    · obtain ⟨w, hw⟩ := hmatch.exists_intWidth ht
      rw [VarType.cast_of_fits hmatch ht hfits] at hvalue
      -- the entries are of type `int`, so reading an unsigned one as `int` is no change
      exact Dict.report_of_int hw hvalue (BitVec.toInt_bmod_cancel _)

/-! ## One input -/

/-- The name a `set` request gives. -/
def Input.setName : Input → Option String
  | .set _ event _ _ => event
  | _ => none

/-- **The entry an input selects**: the number in the field of a frame for the
CAN-ID, if there is an entry for it. -/
def PropDef.selects (p : PropDef) (c : CanId) (conv : ConvTable) : Input → Option ℕ
  | .frame frame _ =>
    let x := (p.field (canvalue2host frame.data)).toNat
    if Binder.IsFor c frame ∧ x < conv.length then some x else none
  | _ => none

/-- **The entry selected last.** -/
def PropDef.lastSelected (p : PropDef) (c : CanId) (conv : ConvTable) (ins : List Input) :
    Option ℕ :=
  (ins.filterMap (p.selects c conv)).getLast?

/-- One more input. -/
theorem PropDef.lastSelected_concat (p : PropDef) (c : CanId) (conv : ConvTable)
    (ins : List Input) (input : Input) :
    p.lastSelected c conv (ins ++ [input])
      = (p.selects c conv input).or (p.lastSelected c conv ins) := by
  unfold lastSelected
  rw [List.filterMap_append]
  cases hs : p.selects c conv input with
  | none => simp [hs]
  | some x => simp [hs]

/-- **A slot to receive that is a single entry with a table.** -/
structure Dict.HasTable (d : Dict) (c : CanId) (i : ℕ) (conv : ConvTable) : Prop where
  canid : c ∈ d.canidRoot
  slot : i < (d.info c).nData
  kind : (d.info c).kind ≠ .send
  single : (d.mem (.slot c i)).next = none
  valid : (d.mem (.slot c i)).Valid
  table : (d.mem (.slot c i)).dataconv = some conv

namespace Binder

section Slot

variable {d : Dict} {b : Binder} {c : CanId} {i : ℕ} {conv : ConvTable}

/-- **A frame without an entry for the property is none for it**: when its turn
comes, the update fails and changes nothing, and nobody is notified. -/
theorem updateIviproperty_beyond_table (hb : d.SameLayout b.toDict) (ht : d.HasTable c i conv)
    {canV64 : BitVec 64} (hbeyond : conv.length ≤ ((d.mem (.slot c i)).field canV64).toNat)
    (timestamp : Timeval) :
    (b.toDict.updateProperty canV64 (.slot c i) timestamp = (b.toDict, none))
      ∧ b.updateIviproperty canV64 (.slot c i) timestamp = (b, [], 1) := by
  have hnext : (b.mem (.slot c i)).next = none := by
    rw [(hb.entry _).2.2, ht.single]
  have hrej : (b.mem (.slot c i)).unreadable canV64 = true := by
    unfold PropDef.unreadable
    rw [(hb.entry (.slot c i)).1, ht.valid.rejects_eq ht.table]
    exact decide_eq_true hbeyond
  have hupdate := Dict.updateProperty_single_of_unreadable (d := b.toDict) hnext hrej timestamp
  refine ⟨hupdate, ?_⟩
  unfold updateIviproperty
  rw [hupdate]

/-- **A `set` on another property** leaves the property as it is. -/
theorem set_mem_of_name_ne (hd : d.WF) (hb : d.SameLayout b.toDict) {event : Option String}
    (hname : event ≠ some (d.name (.slot c i))) (client : Client) (value : Option String)
    (sent : Bool) :
    (b.set client event value sent).1.mem (.slot c i) = b.mem (.slot c i) := by
  by_cases hres : ∃ n v a, event = some n ∧ value = some v ∧ b.getPropertyDict n = some a
  · obtain ⟨n, v, a, rfl, rfl, hn⟩ := hres
    have hna : d.name a = n := by
      rw [hb.getPropertyDict] at hn
      exact (hd.getPropertyDict_eq_some_iff.mp hn).2
    have hne : Addr.slot c i ≠ a := by
      rintro rfl
      exact hname (congrArg some hna.symm)
    rw [(set_of_resolves hn client v sent).1]
    show (b.canSignalSend a _ sent).1.toDict.mem (.slot c i) = _
    rw [canSignalSend_toDict]
    exact Dict.setBit_mem_of_ne _ hne _
  · obtain ⟨status, heq⟩ := set_of_not_resolves hres client sent
    rw [heq]

/-- **An input that selects no entry** leaves the property as it is. -/
theorem Sane.step_of_selects_none (hd : d.WF) (h : Sane d b) (ht : d.HasTable c i conv)
    {input : Input}
    (hset : input.setName ≠ some (d.name (.slot c i)))
    (hsel : (d.mem (.slot c i)).selects c conv input = none) {b' : Binder} {out : List Output}
    (hs : b.step input = some (b', out)) : b'.mem (.slot c i) = b.mem (.slot c i) := by
  cases input with
  | frame frame timestamp =>
    have hself : Addr.slot c i ∈ d.chain (.slot c i) := d.self_mem_chain (.slot c i)
    rw [← (step_frame hs).1]
    by_cases hfor : IsFor c frame
    · have hbeyond : conv.length
          ≤ ((d.mem (.slot c i)).field (canvalue2host frame.data)).toNat := by
        refine Nat.le_of_not_lt (fun hx => ?_)
        exact absurd (hsel.symm.trans (if_pos ⟨hfor, hx⟩)) (Option.some_ne_none _).symm
      rw [parseFrame_mem_of_isFor hd h.layout ht.canid ht.kind ht.slot hfor timestamp hself,
        (updateIviproperty_beyond_table (upTo_sameLayout h.layout frame timestamp c i) ht hbeyond
          timestamp).1]
      exact upTo_mem hd h.layout ht.canid ht.slot frame timestamp hself
    · exact parseFrame_mem_of_not_isFor hd h.layout ht.canid ht.slot hfor timestamp hself
  | timer c sent =>
    cases hs
    rfl
  | get client event =>
    cases hs
    rfl
  | set client event value sent =>
    have hmem := @set_mem_of_name_ne d b c i hd h.layout event hset client value sent
    rwa [step_set hs] at hmem
  | list client =>
    cases hs
    rfl
  | subscribe client event answers =>
    exact congrFun (congrArg Dict.mem (subscribe_toDict hs)) _
  | unsubscribe client args answers =>
    exact congrFun (congrArg Dict.mem (unsubscribe_toDict hs)) _

/-- **An input that selects an entry** leaves its meaning, whatever the property
held before. -/
theorem Sane.step_of_selects (hd : d.WF) (h : Sane d b) (ht : d.HasTable c i conv)
    {input : Input} {x : ℕ} (hsel : (d.mem (.slot c i)).selects c conv input = some x)
    {b' : Binder} {out : List Output} (hs : b.step input = some (b', out)) :
    x < conv.length ∧ ∃ v : BitVec 32, v.toNat = x
      ∧ (b'.mem (.slot c i)).value = (d.mem (.slot c i)).meaning v := by
  cases input with
  | frame frame timestamp =>
    have hself : Addr.slot c i ∈ d.chain (.slot c i) := d.self_mem_chain (.slot c i)
    rw [← (step_frame hs).1]
    unfold PropDef.selects at hsel
    dsimp only at hsel
    split_ifs at hsel with hx
    obtain ⟨hfor, hlt⟩ := hx
    cases hsel
    refine ⟨hlt, (d.mem (.slot c i)).raw (canvalue2host frame.data), ht.valid.raw_toNat _, ?_⟩
    have hup := upTo_sameLayout h.layout frame timestamp c i
    have hupnext : ((b.upTo frame timestamp c i).mem (.slot c i)).next = none := by
      rw [(hup.entry _).2.2, ht.single]
    have hrej : (d.mem (.slot c i)).rejects
        ((d.mem (.slot c i)).raw (canvalue2host frame.data)) = false := by
      rw [ht.valid.rejects_eq ht.table]
      exact decide_eq_false (by omega)
    have hdef := (((b.upTo frame timestamp c i).touches_updateProperty
      (canvalue2host frame.data) (.slot c i) timestamp).sameLayout.entry (.slot c i)).1
    unfold CanBit.value
    rw [parseFrame_mem_of_isFor hd h.layout ht.canid ht.kind ht.slot hfor timestamp hself,
      Dict.updateProperty_single_curValue hupnext, hdef, (hup.entry (.slot c i)).1]
    exact PropDef.valueOf_decode _ hrej
  | timer c sent => cases hsel
  | get client event => cases hsel
  | set client event value sent => cases hsel
  | list client => cases hsel
  | subscribe client event answers => cases hsel
  | unsubscribe client args answers => cases hsel

end Slot

/-! ## Runs -/

/-- **A property holds what the inputs so far selected**: the meaning of the last
entry, and what it was loaded with if there is none. -/
structure HoldsSelected (d : Dict) (c : CanId) (i : ℕ) (conv : ConvTable) (past : List Input)
    (b : Binder) : Prop where
  initial : (d.mem (.slot c i)).lastSelected c conv past = none →
    b.mem (.slot c i) = d.mem (.slot c i)
  entry : ∀ x, (d.mem (.slot c i)).lastSelected c conv past = some x →
    x < conv.length ∧ ∃ v : BitVec 32, v.toNat = x
      ∧ (b.mem (.slot c i)).value = (d.mem (.slot c i)).meaning v

section Run

variable {d : Dict} {b : Binder} {c : CanId} {i : ℕ} {conv : ConvTable}

/-- One more input. -/
theorem HoldsSelected.step (hd : d.WF) (h : Sane d b) (ht : d.HasTable c i conv)
    {past : List Input} (hpast : HoldsSelected d c i conv past b) {input : Input}
    (hset : input.setName ≠ some (d.name (.slot c i))) {b' : Binder} {out : List Output}
    (hs : b.step input = some (b', out)) : HoldsSelected d c i conv (past ++ [input]) b' := by
  have hlast := (d.mem (.slot c i)).lastSelected_concat c conv past input
  cases hsel : (d.mem (.slot c i)).selects c conv input with
  | none =>
    rw [hsel, Option.none_or] at hlast
    have hmem := h.step_of_selects_none hd ht hset hsel hs
    exact ⟨fun hnone => hmem.trans (hpast.initial (hlast.symm.trans hnone)),
      fun x hx => hmem ▸ hpast.entry x (hlast.symm.trans hx)⟩
  | some y =>
    rw [hsel, Option.some_or] at hlast
    refine ⟨fun hnone => absurd (hlast.symm.trans hnone) (Option.some_ne_none _), fun x hx => ?_⟩
    obtain rfl := Option.some.inj (hlast.symm.trans hx)
    exact h.step_of_selects hd ht hsel hs

/-- **Every run** without a `set` on the property. -/
theorem holdsSelected_run (hd : Dict.Sound d) (ht : d.HasTable c i conv) {ins : List Input}
    {outs : List Output} (hset : ∀ input ∈ ins, input.setName ≠ some (d.name (.slot c i)))
    (hrun : run (start d) ins = some (b, outs)) : HoldsSelected d c i conv ins b := by
  have hstart : Sane d (start d) ∧ HoldsSelected d c i conv [] (start d) :=
    ⟨sane_start hd.pristine, fun _ => rfl, fun x hx => absurd hx.symm (Option.some_ne_none _)⟩
  exact (Machine.run_history (fun past _ s => Sane d s ∧ HoldsSelected d c i conv past s)
    (fun _ _ _ _ _ _ hs hok hstep =>
      ⟨hs.1.step hd.wf hstep, hs.2.step hd.wf hs.1 ht hok.1 hstep⟩) hstart
    ((Machine.meets_of_forall (fun _ _ => trivial) _ ins).and_of_mem hset) hrun).2

/-- **What a property with a table reports.** The table has the elements it is read
with and the length recorded for it. After a run without a `set` on the property,
the property reports the entry selected last, and what it did when it was loaded if
none was. And a frame without an entry for the property is none for it. -/
structure ReportsTable (d : Dict) (c : CanId) (i : ℕ) (conv : ConvTable) : Prop where
  kind : conv.Matches (d.mem (.slot c i)).varType
  length : (d.mem (.slot c i)).nconv = conv.length
  entry : ∀ ins b outs, run (start d) ins = some (b, outs) →
    (∀ input ∈ ins, input.setName ≠ some (d.name (.slot c i))) →
      ∀ x, (d.mem (.slot c i)).lastSelected c conv ins = some x →
        conv.Reports (d.mem (.slot c i)).varType x (b.property2json (.slot c i))
  initial : ∀ ins b outs, run (start d) ins = some (b, outs) →
    (∀ input ∈ ins, input.setName ≠ some (d.name (.slot c i))) →
      (d.mem (.slot c i)).lastSelected c conv ins = none →
        b.property2json (.slot c i) = d.property2json (.slot c i)
  beyond : ∀ ins b outs, run (start d) ins = some (b, outs) → ∀ frame timestamp,
    IsFor c frame → conv.length ≤ ((d.mem (.slot c i)).field (canvalue2host frame.data)).toNat →
      (b.upTo frame timestamp c i).updateIviproperty (canvalue2host frame.data) (.slot c i)
          timestamp = (b.upTo frame timestamp c i, [], 1)
        ∧ (b.parseFrame frame timestamp).1.mem (.slot c i) = b.mem (.slot c i)

/-- **Every property to receive with a table reports it**, in a loaded configuration
and for a property of a single entry. -/
theorem reports_table {jobj : Json} (hload : canDefineInit jobj = some d)
    (hjson : jobj.distinct = true) (ha : .slot c i ∈ d.propertyRoot)
    (hkind : (d.mem (.slot c i)).propertyKind = .readonly)
    (hnext : (d.mem (.slot c i)).next = none) (hconv : (d.mem (.slot c i)).dataconv = some conv) :
    ReportsTable d c i conv := by
  obtain ⟨cs, -, hconf⟩ := Dict.configured_of_canDefineInit hload
  have hd := hconf.sound.wf
  obtain ⟨c', hc, i', hi, heq⟩ := hd.slot _ ha
  cases heq
  have hvalid := Dict.propDefValid_of_canDefineInit hload hjson hc hi
  have hrecv : (d.info c).kind ≠ .send := by
    rw [← hd.kind c hc i hi, hkind]
    exact CanPropertyKind.noConfusion
  have ht : d.HasTable c i conv := ⟨hc, hi, hrecv, hnext, hvalid, hconv⟩
  have hloaded : d.property2json (.slot c i) = Dict.report (d.mem (.slot c i)) := by
    have hap := hconf.sound.pristine.appliedInChain
    rw [Dict.property2json_eq hap ha, Dict.applied_of_next_none hnext (hap _ ha).1]
  have hreport : ∀ ins b outs, run (start d) ins = some (b, outs) →
      b.property2json (.slot c i) = Dict.report (b.mem (.slot c i)) := by
    intro ins b outs hrun
    have h := sane_run hconf.sound hrun
    have ha' : Addr.slot c i ∈ b.propertyRoot := h.layout.propertyRoot ▸ ha
    have hnext' : (b.mem (.slot c i)).next = none := (h.layout.entry _).2.2.trans hnext
    rw [Dict.property2json_eq h.applied ha', Dict.applied_of_next_none hnext' (h.applied _ ha').1]
  refine ⟨(hvalid.table conv hconv).1, (hvalid.table conv hconv).2,
    fun ins b outs hrun hset x hx => ?_, fun ins b outs hrun hset hnone => ?_,
    fun ins b outs hrun frame timestamp hfor hbeyond => ?_⟩
  · obtain ⟨hlt, v, rfl, hvalue⟩ := (holdsSelected_run hconf.sound ht hset hrun).entry x hx
    have hdef := ((sane_run hconf.sound hrun).layout.entry (.slot c i)).1
    rw [hreport ins b outs hrun, ← hdef]
    rw [← hdef] at hvalue hvalid hconv
    exact hvalid.reports_of_value hconv hlt hvalue
  · rw [hreport ins b outs hrun, (holdsSelected_run hconf.sound ht hset hrun).initial hnone,
      hloaded]
  · have hb := (sane_run hconf.sound hrun).layout
    have hupdate := updateIviproperty_beyond_table (upTo_sameLayout hb frame timestamp c i) ht
      hbeyond timestamp
    have hself := d.self_mem_chain (.slot c i)
    refine ⟨hupdate.2, ?_⟩
    rw [parseFrame_mem_of_isFor hd hb hc hrecv hi hfor timestamp hself, hupdate.1]
    exact upTo_mem hd hb hc hi frame timestamp hself

end Run

/-- A door, by a table of two strings. -/
def doorConfig : Json :=
  configFile [("100", configCanid "CAN_THINOUT_NON" 0
    [.object [("PROPERTY", .string "door"), ("TYPE", .string "string"),
      ("SET-DATA", .array [.string "closed", .string "open"]), ("POS", .int 1), ("OFFS", .int 0),
      ("LEN", .int 8)]])] []

/-- A frame for the door, by its first byte. -/
def doorFrame (v : BitVec 8) : CanFrame :=
  ⟨0x100#32, 8#8, fun i => if i.val = 0 then v else 0#8⟩

/-- The door is open, and stays so with a value that is not in the table. -/
theorem reports_table_door :
    ∃ d, canDefineInit doorConfig = some d
      ∧ ∀ b outs, run (start d) [.frame (doorFrame 1#8) ⟨3, 0⟩, .frame (doorFrame 7#8) ⟨4, 0⟩]
          = some (b, outs) →
        b.property2json (.slot 0x100#16 0) = some (.object [("value", .string "open")]) := by
  have hload : (canDefineInit doorConfig).map (fun d => (d.propertyRoot, d.mem (.slot 0x100#16 0)))
      = some ([.slot 0x100#16 0],
          ⟨⟨"door", .readonly, 1#8, 0#8, 8#8, .string, some (.strings ["closed", "open"]), 2⟩,
            0x100#16, none, none, ⟨0, 0⟩, DataContent.zero⟩) := by
    decide
  obtain ⟨d, hd, hval⟩ := Option.map_eq_some_iff.mp hload
  simp only [Prod.mk.injEq] at hval
  obtain ⟨hroot, hmem⟩ := hval
  have hreports : ReportsTable d 0x100#16 0 (.strings ["closed", "open"]) :=
    reports_table hd (by decide) (by rw [hroot]; decide) (by rw [hmem]) (by rw [hmem])
      (by rw [hmem])
  refine ⟨d, hd, fun b outs hrun => ?_⟩
  obtain ⟨s, hs, hreport⟩ := hreports.entry _ b outs hrun (by simp [Input.setName]) 1
    (by rw [hmem]; decide)
  cases hs
  exact hreport

end Binder
