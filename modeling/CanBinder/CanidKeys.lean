import CanBinder.Configuration
import CanBinder.Numerals

/-!
# The identifier a key stands for

The keys of a `STANDARD` block are CAN-IDs in hexadecimal. On its way from the text
to the tree the identifier is read by `strtol`, cut to sixteen bits, looked up as it
is, masked to eleven bits where it is stored and not masked in the header of the
frame to send. For the keys that denote a standard CAN-ID (`KeyDenotes`) all of
these are the same number. For the others they are not, and nothing stops the
registration: a key that is reported as invalid goes on to `parse_caninfo` like any
other, and registers whatever eleven bits are left of it (`Dict.keyExact_iff`).
-/

/-- **A key denotes a standard CAN-ID**: as a whole it is a hexadecimal number from
1 to 7FF. -/
def KeyDenotes (key : String) (c : CanId) : Prop :=
  CLib.hexNumber key = some (c.toNat : ℤ) ∧ 1 ≤ c.toNat ∧ c.toNat ≤ 0x7ff

/-- The identifier `parse_caninfo` is given. -/
def keyCanid (key : String) : CanId := BitVec.ofInt 16 (CLib.strtol key 16)

/-- The identifier that is stored. -/
def maskedKey (key : String) : CanId := keyCanid key &&& CAN_SFF_MASK.setWidth 16

/-- There is a `DATA` array, and its entries can be read. -/
def Json.HasData (obj : Json) (kind : CanPropertyKind) : Prop :=
  ∃ array, obj.objectGet "DATA" = .array array ∧ addPropertyMapping array kind ≠ none

/-! ## The identifier of a key -/

/-- **A key that denotes a CAN-ID is read as it.** -/
theorem KeyDenotes.strtol_eq {key : String} {c : CanId} (h : KeyDenotes key c) :
    CLib.strtol key 16 = c.toNat := by
  have hlt := c.isLt
  refine CLib.strtol_of_hexNumber h.1 ?_ ?_
  · unfold CLib.longMin
    omega
  · unfold CLib.longMax
    omega

theorem KeyDenotes.keyCanid_eq {key : String} {c : CanId} (h : KeyDenotes key c) :
    keyCanid key = c := by
  rw [keyCanid, h.strtol_eq, BitVec.ofInt_natCast, BitVec.ofNat_toNat, BitVec.setWidth_eq]

/-- The masked identifier of such a key is the same. -/
theorem KeyDenotes.maskedKey_eq {key : String} {c : CanId} (h : KeyDenotes key c) :
    maskedKey key = c := by
  rw [maskedKey, h.keyCanid_eq, and_sff_of_le h.2.2]

namespace Dict

/-! ## The states of the loader -/

/-- **The states in which the loader reads a key**: what the keys before it have
left, of the block it stands in and of those before. -/
inductive Loading : Dict → Prop
  | empty : Loading Dict.empty
  | keys {kind : CanPropertyKind} {l : List (String × Json)} {d d' : Dict} {err err' : ℕ} :
    (kind = .readonly ∨ kind = .send) → Loading d →
      parseCanidDef kind l (d, err) = some (d', err') → Loading d'

theorem Loading.configured {d : Dict} (h : Loading d) : ∃ cs, Configured cs d := by
  induction h with
  | empty => exact ⟨[], configured_empty⟩
  | keys hkind _ hl ih =>
    obtain ⟨cs, hcs⟩ := ih
    obtain ⟨cs', -, hcs'⟩ := hcs.canidDef hkind hl
    exact ⟨cs', hcs'⟩

/-- **A loaded configuration is the last of these states.** -/
theorem loading_of_canDefineInit {jobj : Json} {d : Dict} (h : canDefineInit jobj = some d) :
    Loading d :=
  canDefineInit_invariant_of_blocks (fun _ _ _ _ _ _ hkind hd hl => hd.keys hkind hl) h
    Loading.empty

/-! ## One key -/

/-- **A frame definition becomes registered** under `c`: the key is read, and the
tree has `c` afterwards but not before. -/
def Registers (d : Dict) (kind : CanPropertyKind) (key : String) (obj : Json) (d' : Dict)
    (c : CanId) : Prop :=
  (∃ err, parseCanidDef kind [(key, obj)] (d, 0) = some (d', err))
    ∧ c ∈ d'.canidRoot ∧ c ∉ d.canidRoot

/-- The result of a key, and whether it is reported. -/
theorem parseCanidDef_singleton (kind : CanPropertyKind) (key : String) (obj : Json)
    (d : Dict) :
    parseCanidDef kind [(key, obj)] (d, 0)
      = (parseCaninfo d (keyCanid key) obj kind).map
          (fun r => (r.1, if CLib.strtol key 16 ≤ 0 then 1 else 0)) := by
  rw [parseCanidDef]
  cases h : parseCaninfo d (keyCanid key) obj kind with
  | none =>
    rw [keyCanid] at h
    simp [h]
  | some r =>
    rw [keyCanid] at h
    simp [h, parseCanidDef]

/-- The registered identifiers have eleven bits. -/
theorem Configured.and_sff {cs : List CanidDef} {d : Dict} (h : Configured cs d) {c : CanId}
    (hc : c ∈ d.canidRoot) : c &&& CAN_SFF_MASK.setWidth 16 = c := by
  obtain ⟨x, hx, rfl⟩ := (h.canids c).mp hc
  obtain ⟨canid, obj, kind, -, hinfo⟩ := h.header x hx
  have hcanid : x.info.canid = canid &&& CAN_SFF_MASK.setWidth 16 := by
    rw [hinfo]
    rfl
  rw [hcanid, BitVec.and_assoc, BitVec.and_self]

/-- **What is registered** is the masked identifier, with the header that was given
it unmasked. -/
theorem Configured.of_registers {cs : List CanidDef} {d : Dict} (h : Configured cs d)
    {kind : CanPropertyKind} {key : String} {obj : Json} {d' : Dict} {c : CanId}
    (hreg : d.Registers kind key obj d' c) :
    c = maskedKey key ∧ obj.HasData kind ∧ (d'.info c).canid = c
      ∧ (d'.info c).canrawFrame.canId = (keyCanid key).setWidth 32 := by
  obtain ⟨⟨err, hread⟩, hc', hc⟩ := hreg
  rw [parseCanidDef_singleton] at hread
  obtain ⟨⟨d'', e⟩, hp, heq⟩ := Option.map_eq_some_iff.mp hread
  obtain ⟨rfl, -⟩ := Prod.mk.inj heq.symm
  obtain ⟨-, rfl⟩ | ⟨-, array, ps, err', hdata, hps, d₁, ret, hadd, hd'⟩ := parseCaninfo_cases hp
  · exact absurd hc' hc
  have hmasked : (CanidDef.ofMapping (keyCanid key) obj kind ps
      (addPropertyMapping_propertyKind hps)).info.canid = maskedKey key := rfl
  have hframe : (CanidDef.ofMapping (keyCanid key) obj kind ps
      (addPropertyMapping_propertyKind hps)).info.canrawFrame.canId
        = (keyCanid key).setWidth 32 := rfl
  generalize CanidDef.ofMapping (keyCanid key) obj kind ps
    (addPropertyMapping_propertyKind hps) = x at hadd hmasked hframe
  have hdata' : obj.HasData kind := ⟨array, hdata, hps ▸ Option.some_ne_none _⟩
  obtain ⟨-, heq'⟩ | ⟨hnew, d₂, m, heq', -, hinfo, hroot, -, -⟩ := h.sound.addCANIDDict_cases x
  · -- the masked identifier was there already
    cases heq'.symm.trans hadd
    obtain rfl | ⟨hret, -⟩ := hd'
    · exact absurd hc' hc
    · exact absurd hret (by decide)
  · cases heq'.symm.trans hadd
    have hself : d₁.info x.info.canid = { x.info with nData := m } := by
      rw [hinfo]
      exact Function.update_self ..
    -- a timer changes neither the tree nor the header
    have hafter : d'.canidRoot = d₁.canidRoot
        ∧ (d'.info x.info.canid).canid = x.info.canid
        ∧ (d'.info x.info.canid).canrawFrame = x.info.canrawFrame := by
      obtain rfl | ⟨-, -, rfl⟩ := hd'
      · exact ⟨rfl, by rw [hself], by rw [hself]⟩
      · obtain ⟨fd, hinfo'⟩ := d₁.addSendTimer_info_eq _ x.info.canid
        rw [hinfo', hself]
        exact ⟨rfl, rfl, rfl⟩
    obtain ⟨hroot', hcanid, hcanraw⟩ := hafter
    rw [hroot', hroot, mem_canidRoot_install hnew] at hc'
    obtain rfl := hc'.resolve_right hc
    exact ⟨hmasked, hdata', hcanid, hcanraw ▸ hframe⟩

/-- **A key whose masked identifier is new is registered**, if there is an array to
read. -/
theorem Configured.exists_registers {cs : List CanidDef} {d : Dict} (h : Configured cs d)
    {kind : CanPropertyKind} {key : String} {obj : Json} (hnew : maskedKey key ∉ d.canidRoot)
    (hdata : obj.HasData kind) : ∃ d', d.Registers kind key obj d' (maskedKey key) := by
  obtain ⟨array, hdata, hmap⟩ := hdata
  obtain ⟨⟨ps, err⟩, hps⟩ := Option.ne_none_iff_exists'.mp hmap
  have hget : d.getCANIDDict (keyCanid key) = none := by
    rw [getCANIDDict_eq_none_iff]
    intro hc
    refine hnew ?_
    rw [maskedKey, h.and_sff hc]
    exact hc
  have hmasked : (CanidDef.ofMapping (keyCanid key) obj kind ps
      (addPropertyMapping_propertyKind hps)).info.canid = maskedKey key := rfl
  obtain ⟨hmem, -⟩ | ⟨hnot, d₁, m, hadd, -, -, hroot, -, -⟩ :=
    h.sound.addCANIDDict_cases (CanidDef.ofMapping (keyCanid key) obj kind ps
      (addPropertyMapping_propertyKind hps))
  · exact absurd (hmasked ▸ hmem) hnew
  have hin : maskedKey key ∈ d₁.canidRoot := by
    rw [hroot, mem_canidRoot_install hnot]
    exact Or.inl hmasked.symm
  have hread : parseCanidDef kind [(key, obj)] (d, 0)
      = some (if err = 0 ∧ kind = .send then
          d₁.addSendTimer (caninfoHeader (keyCanid key) obj kind).canid else d₁,
        if CLib.strtol key 16 ≤ 0 then 1 else 0) := by
    rw [parseCanidDef_singleton, parseCaninfo_of_array hget hdata hps hadd]
    rfl
  refine ⟨_, ⟨_, hread⟩, ?_, hnew⟩
  -- a timer changes nothing of the tree
  split_ifs
  · exact hin
  · exact hin

/-- A key that is reported as invalid. -/
theorem reported_iff {d d' : Dict} {kind : CanPropertyKind} {key : String} {obj : Json}
    {err : ℕ} (h : parseCanidDef kind [(key, obj)] (d, 0) = some (d', err)) :
    err ≠ 0 ↔ CLib.strtol key 16 ≤ 0 := by
  rw [parseCanidDef_singleton] at h
  obtain ⟨r, -, heq⟩ := Option.map_eq_some_iff.mp h
  rw [← (Prod.mk.inj heq).2]
  split_ifs with hle <;> simp [hle]

/-! ## Keys that mean what they say -/

/-- **A key registers what it denotes**, and nothing else: a definition becomes
registered exactly if the key denotes a standard CAN-ID that is new and has a
`DATA` array, it is registered under that CAN-ID and sent with it; a key that is
reported registers nothing, and one above 7FF nothing under another identifier. -/
structure KeyExact (d : Dict) (kind : CanPropertyKind) (key : String) (obj : Json) : Prop where
  registers_iff : (∃ d' c, d.Registers kind key obj d' c)
    ↔ ∃ c, KeyDenotes key c ∧ c ∉ d.canidRoot ∧ obj.HasData kind
  denoted : ∀ d' c, d.Registers kind key obj d' c →
    KeyDenotes key c ∧ (d'.info c).canid = c ∧ (d'.info c).canrawFrame.canId = c.setWidth 32
  reported : ∀ d' err, parseCanidDef kind [(key, obj)] (d, 0) = some (d', err) → err ≠ 0 →
    ∀ c ∈ d'.canidRoot, c ∈ d.canidRoot
  above : 0x7ff < CLib.strtol key 16 → ∀ d' c, d.Registers kind key obj d' c →
    (c.toNat : ℤ) = CLib.strtol key 16
      ∧ ((d'.info c).canrawFrame.canId.toNat : ℤ) = CLib.strtol key 16

/-- **A key registers what it denotes exactly if it denotes a standard CAN-ID**, or
nothing could be registered: the eleven bits that are left of it are taken, or there
is no array to read. -/
theorem keyExact_iff {d : Dict} (hd : Loading d) (kind : CanPropertyKind) (key : String)
    (obj : Json) :
    d.KeyExact kind key obj
      ↔ (∃ c, KeyDenotes key c) ∨ maskedKey key ∈ d.canidRoot ∨ ¬obj.HasData kind := by
  obtain ⟨cs, h⟩ := hd.configured
  constructor
  · intro hexact
    by_contra hcon
    rw [not_or, not_or, not_not] at hcon
    obtain ⟨hdenotes, hnew, hdata⟩ := hcon
    obtain ⟨d', hreg⟩ := h.exists_registers hnew hdata
    exact hdenotes ⟨_, (hexact.denoted d' _ hreg).1⟩
  · intro hcond
    -- whatever is registered is denoted by the key
    have hdenoted : ∀ d' c, d.Registers kind key obj d' c → KeyDenotes key c := by
      intro d' c hreg
      obtain ⟨hc, hdata, -⟩ := h.of_registers hreg
      obtain ⟨x, hx⟩ | hmem | hnot := hcond
      · rw [hc, hx.maskedKey_eq]
        exact hx
      · exact absurd (hc ▸ hmem) hreg.2.2
      · exact absurd hdata hnot
    refine ⟨⟨fun ⟨d', c, hreg⟩ => ?_, fun ⟨c, hc, hnew, hdata⟩ => ?_⟩, fun d' c hreg => ?_,
      fun d' err hread hne c hc => ?_, fun habove d' c hreg => ?_⟩
    · exact ⟨c, hdenoted d' c hreg, hreg.2.2, (h.of_registers hreg).2.1⟩
    · rw [← hc.maskedKey_eq] at hnew
      obtain ⟨d', hreg⟩ := h.exists_registers hnew hdata
      exact ⟨d', _, hreg⟩
    · have hc := hdenoted d' c hreg
      obtain ⟨-, -, hcanid, hframe⟩ := h.of_registers hreg
      rw [hc.keyCanid_eq] at hframe
      exact ⟨hc, hcanid, hframe⟩
    · by_contra hnew
      have hden := hdenoted d' c ⟨⟨err, hread⟩, hc, hnew⟩
      have hle := (reported_iff hread).mp hne
      have hpos := hden.2.1
      rw [hden.strtol_eq] at hle
      omega
    · have hden := hdenoted d' c hreg
      have hle := hden.2.2
      rw [hden.strtol_eq] at habove
      omega

/-- The first key of the sample configuration. -/
theorem keyExact_iff_sample :
    Dict.empty.KeyExact .readonly "100"
      (configCanid "CAN_THINOUT_CHG" 1000 [configData "speed" "int16_t" 2 0 16]) :=
  (keyExact_iff Loading.empty .readonly "100" _).mpr
    (Or.inl ⟨0x100#16, by unfold KeyDenotes; decide⟩)

/-- A CAN-ID to send, for the keys below. -/
def lampObj : Json := configCanid "CAN_THINOUT_NON" 0 [configData "lamp" "bool" 1 0 1]

/-- A key above 7FF is registered as its eleven bits and sent as it is, and one that
is no number is reported and registered as zero. -/
theorem not_keyExact_lamp :
    ((parseCanidDef .send [("8ff", lampObj)] (Dict.empty, 0)).map
        (fun r => (r.1.canidRoot, (r.1.info 0x0ff#16).canrawFrame.canId, r.2))
      = some ([0x0ff#16], 0x8ff#32, 0) ∧ ¬Dict.empty.KeyExact .send "8ff" lampObj)
      ∧ (parseCanidDef .send [("lamp", lampObj)] (Dict.empty, 0)).map
          (fun r => (r.1.canidRoot, r.2)) = some ([0#16], 1)
        ∧ ¬Dict.empty.KeyExact .send "lamp" lampObj := by
  have hlarge : (parseCanidDef .send [("8ff", lampObj)] (Dict.empty, 0)).map
      (fun r => (r.1.canidRoot, (r.1.info 0x0ff#16).canrawFrame.canId, r.2))
        = some ([0x0ff#16], 0x8ff#32, 0) := by decide
  have hinvalid : (parseCanidDef .send [("lamp", lampObj)] (Dict.empty, 0)).map
      (fun r => (r.1.canidRoot, r.2)) = some ([0#16], 1) := by decide
  refine ⟨⟨hlarge, fun h => ?_⟩, hinvalid, fun h => ?_⟩
  · obtain ⟨⟨d', err⟩, hread, hval⟩ := Option.map_eq_some_iff.mp hlarge
    have hroot : d'.canidRoot = [0x0ff#16] := congrArg Prod.fst hval
    have hreg : Dict.empty.Registers .send "8ff" lampObj d' 0x0ff#16 :=
      ⟨⟨err, hread⟩, hroot ▸ List.mem_singleton_self _, List.not_mem_nil⟩
    exact absurd (h.above (by decide) d' _ hreg).1 (by decide)
  · obtain ⟨⟨d', err⟩, hread, hval⟩ := Option.map_eq_some_iff.mp hinvalid
    have hroot : d'.canidRoot = [0#16] := congrArg Prod.fst hval
    have herr : err = 1 := congrArg Prod.snd hval
    exact absurd (h.reported d' err hread (herr ▸ Nat.one_ne_zero) 0#16
      (hroot ▸ List.mem_singleton_self _)) List.not_mem_nil

end Dict
