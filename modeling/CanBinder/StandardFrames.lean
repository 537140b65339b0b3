import CanBinder.Configuration
import CanBinder.Reception

/-!
# Which frames drive the properties

`parse_frame` looks a frame up by the low eleven bits of its identifier and
asks for nothing else. The flags of an extended frame, a remote request or an
error frame stand above those bits, so each of these is taken for the data
frame of the same eleven bits. For a frame without a flag the lookup is
exact: what it drives is a CAN-ID to receive that is registered under its
identifier.
-/

/-- **The identifier of a standard data frame** has no flag. -/
def IsStandard (canId : BitVec 32) : Prop :=
  canId &&& (CAN_EFF_FLAG ||| CAN_RTR_FLAG ||| CAN_ERR_FLAG) = 0#32

namespace Binder

/-- **The frame drives properties**: it changes the state of an entry, or
something is pushed. -/
def Drives (b : Binder) (frame : CanFrame) (timestamp : Timeval) : Prop :=
  (∃ a, (b.parseFrame frame timestamp).1.mem a ≠ b.mem a)
    ∨ (b.parseFrame frame timestamp).2.1 ≠ []

/-- The identifier of the frame is that of a registered CAN-ID to receive. -/
def Receives (b : Binder) (frame : CanFrame) : Prop :=
  ∃ c ∈ b.canidRoot, c.setWidth 32 = frame.canId &&& CAN_SFF_MASK ∧ (b.info c).kind = .readonly

/-- **Only standard data frames drive properties**, at one frame. -/
def OnlyStandard (b : Binder) (frame : CanFrame) (timestamp : Timeval) : Prop :=
  b.Drives frame timestamp → IsStandard frame.canId ∧ b.Receives frame

/-- The sixteen bits of the lookup lose none of the eleven. -/
theorem setWidth_sff (canId : BitVec 32) :
    ((canId &&& CAN_SFF_MASK).setWidth 16).setWidth 32 = canId &&& CAN_SFF_MASK := by
  have hmask : canId.toNat &&& 2047 = canId.toNat % 2048 :=
    Nat.and_two_pow_sub_one_eq_mod canId.toNat 11
  refine BitVec.eq_of_toNat_eq ?_
  simp only [CAN_SFF_MASK, BitVec.toNat_setWidth, BitVec.toNat_and, BitVec.toNat_ofNat,
    Nat.reduceMod, Nat.reducePow, hmask]
  omega

/-- **What drives properties is at most eight bytes for a registered CAN-ID to
receive**, whatever its flags. -/
theorem Drives.receives {cs : List CanidDef} {d : Dict} (hd : Dict.Configured cs d)
    {b : Binder} (hb : Sane d b) {frame : CanFrame} {timestamp : Timeval}
    (h : b.Drives frame timestamp) : ¬8#8 < frame.canDlc ∧ b.Receives frame := by
  rcases parseFrame_cases hd.sound.wf hb.layout frame timestamp with
    ⟨-, heq⟩ | ⟨c, hc, hfor, ⟨-, heq⟩ | ⟨hsend, -⟩⟩
  · rw [Drives, heq] at h
    exact absurd h (by simp)
  · rw [Drives, heq] at h
    exact absurd h (by simp [keepFrame])
  · refine ⟨hfor.1, c, hb.layout.canidRoot ▸ hc, ?_, ?_⟩
    · rw [← hfor.2, setWidth_sff]
    · rw [(hb.layout.info_eq c).2.2.1]
      exact (hd.kind hc).resolve_right hsend

end Binder

/-! ## A configuration for every identifier -/

/-- An identifier as a key of the configuration. -/
def hexKey (x : ℕ) : String :=
  String.ofList [Nat.digitChar (x / 256), Nat.digitChar (x / 16 % 16), Nat.digitChar (x % 16)]

/-- What the reader makes of a digit. -/
theorem digitChar_spec : ∀ i < 16,
    CLib.isspace (Nat.digitChar i) = false ∧ CLib.digitValue (Nat.digitChar i) = some i
      ∧ Nat.digitChar i ∉ ['-', '+', 'x', 'X'] := by
  decide

/-- **A key reads as the identifier it was written from.** -/
theorem strtol_hexKey {x : ℕ} (hx : x < 4096) : CLib.strtol (hexKey x) 16 = x := by
  obtain ⟨hspace, hvalue, hsign⟩ := digitChar_spec (x / 256) (by omega)
  obtain ⟨-, hvalue₁, hprefix⟩ := digitChar_spec (x / 16 % 16) (by omega)
  obtain ⟨-, hvalue₂, -⟩ := digitChar_spec (x % 16) (by omega)
  simp only [List.mem_cons, List.not_mem_nil, or_false, not_or] at hsign hprefix
  have hdigits : CLib.digits 16 (hexKey x).toList 0 = x := by
    rw [hexKey, String.toList_ofList]
    simp only [CLib.digits, hvalue, hvalue₁, hvalue₂, if_pos (show x / 256 < 16 by omega),
      if_pos (show x / 16 % 16 < 16 by omega), if_pos (show x % 16 < 16 by omega)]
    omega
  have hmagnitude : CLib.magnitude 16 (hexKey x).toList = x := by
    have hnone : CLib.afterHexPrefix (hexKey x).toList = none := by
      rw [hexKey, String.toList_ofList]
      unfold CLib.afterHexPrefix
      split
      · rename_i heq
        simp only [List.cons.injEq] at heq
        rw [← heq.2.1, if_neg (fun h => h.1.elim hprefix.2.2.1 hprefix.2.2.2)]
      · rfl
    unfold CLib.magnitude
    rw [hnone]
    exact hdigits
  have hdrop : (hexKey x).toList.dropWhile CLib.isspace = (hexKey x).toList := by
    rw [hexKey, String.toList_ofList, List.dropWhile_cons_of_neg (by simp [hspace])]
  unfold CLib.strtol
  rw [hdrop]
  split
  · rename_i heq
    rw [hexKey, String.toList_ofList] at heq
    exact absurd (List.cons.inj heq).1 hsign.1
  · rename_i heq
    rw [hexKey, String.toList_ofList] at heq
    exact absurd (List.cons.inj heq).1 hsign.2.1
  · rw [hmagnitude]
    unfold CLib.longMax
    omega

/-- A CAN-ID with one entry. -/
def speedObj : Json := configCanid "CAN_THINOUT_NON" 0 [configData "speed" "int16_t" 2 0 16]

/-- The entry. -/
def speedDef : PropDef where
  name := "speed"
  propertyKind := .readonly
  bytePos := 2#8
  bitPos := 0#8
  bitLen := 16#8
  varType := .int16
  dataconv := none
  nconv := 0

/-- The CAN-ID, to receive under an identifier. -/
def speedCanid (canid : CanId) : CanidDef :=
  CanidDef.ofMapping canid speedObj .readonly [speedDef]
    (fun _ hp => List.mem_singleton.mp hp ▸ rfl)

/-- An identifier of eleven bits is registered as it is. -/
theorem canid_speedCanid {x : ℕ} (hx : x < 2048) :
    (speedCanid (BitVec.ofNat 16 x)).info.canid = BitVec.ofNat 16 x := by
  show BitVec.ofNat 16 x &&& CAN_SFF_MASK.setWidth 16 = BitVec.ofNat 16 x
  refine and_sff_of_le ?_
  rw [BitVec.toNat_ofNat]
  omega

/-- Defining the CAN-ID is one registration. -/
theorem parseCaninfo_speedObj {canid : CanId} {d : Dict}
    (h : Dict.empty.addCANIDDict (speedCanid canid) = some (d, 0)) :
    parseCaninfo Dict.empty canid speedObj .readonly = some (d, 0) := by
  have hmap : addPropertyMapping [configData "speed" "int16_t" 2 0 16] .readonly
      = some ([speedDef], 0) := by decide
  have hdata : speedObj.objectGet "DATA" = .array [configData "speed" "int16_t" 2 0 16] := rfl
  have hmapped : CanidDef.ofMapping canid speedObj .readonly [speedDef]
      (addPropertyMapping_propertyKind hmap) = speedCanid canid := rfl
  exact Dict.parseCaninfo_of_array rfl hdata hmap (by rw [hmapped, h])

/-- **For every identifier there is a configuration** of one CAN-ID with that
identifier, to receive. -/
theorem exists_speedCanid {x : ℕ} (hx : x < 2048) :
    ∃ jobj d, canDefineInit jobj = some d
      ∧ Dict.Configured [speedCanid (BitVec.ofNat 16 x)] d
      ∧ Dict.Compacted Dict.empty (speedCanid (BitVec.ofNat 16 x)) d := by
  obtain ⟨d, hadd, hconf, -⟩ := Dict.configured_empty.add
    (c := speedCanid (BitVec.ofNat 16 x)) (fun _ h => absurd h List.not_mem_nil)
    ⟨BitVec.ofNat 16 x, speedObj, .readonly, Or.inl rfl, rfl⟩
  obtain ⟨-, d', hadd', hcompact⟩ :=
    Dict.Registered.empty.addCANIDDict_compacted (speedCanid (BitVec.ofNat 16 x)) rfl
  obtain rfl := (Prod.mk.inj (Option.some.inj (hadd.symm.trans hadd'))).1
  have hkey : CLib.strtol (hexKey x) 16 = x := strtol_hexKey (by omega)
  have hcanid : BitVec.ofInt 16 (x : ℤ) = BitVec.ofNat 16 x := BitVec.ofInt_natCast ..
  refine ⟨configFile [(hexKey x, speedObj)] [], d, ?_, hconf, hcompact⟩
  simp [canDefineInit, configFile, Json.objectForeach, parseJson, parseReceptAndTransmission,
    parseCanidDef, hkey, hcanid, parseCaninfo_speedObj hadd]

/-- **The only entry of the CAN-ID** is a single one. -/
theorem speed_slot {canid : CanId} {d : Dict}
    (h : Dict.Compacted Dict.empty (speedCanid canid) d) :
    (d.info (speedCanid canid).info.canid).nData = 1
      ∧ (d.mem (.slot (speedCanid canid).info.canid 0)).toPropDef = speedDef
      ∧ (d.mem (.slot (speedCanid canid).info.canid 0)).next = none := by
  have hheads : Dict.heads Dict.empty.knows [] (speedCanid canid).property = [speedDef] := rfl
  have hslots := h.slots
  rw [hheads] at hslots
  have hn : (d.info (speedCanid canid).info.canid).nData = 1 := by
    simpa using congrArg List.length hslots
  rw [hn] at hslots
  have hdef : (d.mem (.slot (speedCanid canid).info.canid 0)).toPropDef = speedDef :=
    (List.cons.inj hslots).1
  refine ⟨hn, hdef, ?_⟩
  obtain ⟨hchain, hgroup⟩ := h.chain 0 (by omega)
  rw [hdef] at hgroup
  have hlen := congrArg List.length hgroup
  rw [List.length_map] at hlen
  obtain ⟨y, hy⟩ := List.length_eq_one_iff.mp
    (hlen.trans (by rfl : (Dict.group Dict.empty.knows (speedCanid canid).property
      speedDef).length = 1))
  rw [hy] at hchain
  obtain ⟨hhead, hnext⟩ := hchain
  obtain rfl := Option.some.inj hhead
  exact hnext

namespace Binder

/-- **A frame of the identifier drives the entry**, whatever its flags. -/
theorem drives_speed {canid : CanId} {d : Dict} (hconf : Dict.Configured [speedCanid canid] d)
    (hcompact : Dict.Compacted Dict.empty (speedCanid canid) d) {canId : BitVec 32}
    (hcanId : (canId &&& CAN_SFF_MASK).setWidth 16 = (speedCanid canid).info.canid)
    {dlc : BitVec 8} (hdlc : ¬8#8 < dlc) :
    (start d).Drives ⟨canId, dlc, fun _ => 1#8⟩ ⟨0, 0⟩ := by
  obtain ⟨hn, hdef, hnext⟩ := speed_slot hcompact
  generalize hc : (speedCanid canid).info.canid = c at *
  have hroot : c ∈ d.canidRoot :=
    (hconf.canids c).mpr ⟨speedCanid canid, List.mem_singleton_self _, hc⟩
  have hkind : (d.info c).kind ≠ .send := by
    obtain ⟨m, fd, hinfo⟩ := hconf.info _ (List.mem_singleton_self _)
    rw [hc] at hinfo
    rw [hinfo]
    exact (by decide : CanPropertyKind.readonly ≠ .send)
  have hd := hconf.sound.wf
  have hi : 0 < (d.info c).nData := by omega
  have hself := d.self_mem_chain (.slot c 0)
  have hzero : (d.mem (.slot c 0)).curValue = DataContent.zero := (hconf.sound.pristine _).2.2
  refine Or.inl ⟨.slot c 0, fun heq => ?_⟩
  rw [parseFrame_mem_of_isFor (b := start d) hd (Dict.SameLayout.refl d) hroot hkind hi
    ⟨hdlc, hcanId⟩ ⟨0, 0⟩ hself] at heq
  have hup := upTo_mem (b := start d) hd (Dict.SameLayout.refl d) hroot hi
    ⟨canId, dlc, fun _ => 1#8⟩ ⟨0, 0⟩ hself
  -- the entry is not zero after the update
  have hval := Dict.updateProperty_single_curValue (by rw [hup]; exact hnext)
    (canvalue2host (fun _ => 1#8)) ⟨0, 0⟩
  rw [heq, hup, show (start d).mem = d.mem from rfl, hdef, hzero] at hval
  exact absurd hval (by decide)

/-- **Which frames drive properties**: the identifiers for which only standard
data frames do, in every state of every configuration, are those without a
flag, and those of frames that are too long. In a state without a CAN-ID to
receive of the low eleven bits no frame drives anything. -/
theorem only_standard_iff (canId : BitVec 32) (dlc : BitVec 8) :
    ((∀ jobj d ins b outs data timestamp, canDefineInit jobj = some d →
          run (start d) ins = some (b, outs) →
            b.OnlyStandard ⟨canId, dlc, data⟩ timestamp)
        ↔ IsStandard canId ∨ 8#8 < dlc)
      ∧ ∀ jobj d ins b outs data timestamp, canDefineInit jobj = some d →
          run (start d) ins = some (b, outs) → ¬b.Receives ⟨canId, dlc, data⟩ →
            b.OnlyStandard ⟨canId, dlc, data⟩ timestamp := by
  have hdrives : ∀ jobj d ins b outs data timestamp, canDefineInit jobj = some d →
      run (start d) ins = some (b, outs) → b.Drives ⟨canId, dlc, data⟩ timestamp →
        ¬8#8 < dlc ∧ b.Receives ⟨canId, dlc, data⟩ :=
    fun jobj d ins b outs data timestamp hd hr hdr => by
      obtain ⟨cs, -, hconf⟩ := Dict.configured_of_canDefineInit hd
      exact hdr.receives hconf (sane_run hconf.sound hr)
  refine ⟨⟨fun h => ?_, fun h => ?_⟩, ?_⟩
  · by_contra hcon
    rw [not_or] at hcon
    -- a configuration with a CAN-ID to receive of the low eleven bits
    have hx : (canId &&& CAN_SFF_MASK).toNat < 2048 := by
      rw [BitVec.toNat_and]
      exact Nat.lt_of_le_of_lt Nat.and_le_right (by decide)
    obtain ⟨jobj, d, hload, hconf, hcompact⟩ := exists_speedCanid hx
    have hcanid := canid_speedCanid hx
    refine hcon.1 (h jobj d [] (start d) [] (fun _ => 1#8) ⟨0, 0⟩ hload rfl
      (drives_speed hconf hcompact ?_ hcon.2)).1
    rw [hcanid]
    exact BitVec.eq_of_toNat_eq (by simp)
  · intro jobj d ins b outs data timestamp hd hr hdr
    obtain ⟨hdlc, hrec⟩ := hdrives jobj d ins b outs data timestamp hd hr hdr
    exact ⟨h.resolve_right hdlc, hrec⟩
  · intro jobj d ins b outs data timestamp hd hr hnot hdr
    exact absurd (hdrives jobj d ins b outs data timestamp hd hr hdr).2 hnot

/-- An extended frame whose low eleven bits are those of a CAN-ID to receive
sets its property. -/
theorem not_only_standard_extended :
    ∃ d, canDefineInit sampleConfig = some d
      ∧ ¬(start d).OnlyStandard ⟨0x80000100#32, 8#8, fun _ => 1#8⟩ ⟨0, 0⟩ := by
  have hload : (canDefineInit sampleConfig).map (fun d =>
      ((((start d).parseFrame ⟨0x80000100#32, 8#8, fun _ => 1#8⟩ ⟨0, 0⟩).1.mem
          (.slot 0x100#16 0)).curValue.word, (d.mem (.slot 0x100#16 0)).curValue.word))
      = some (0x101#32, 0#32) := by
    decide
  obtain ⟨d, hd, hval⟩ := Option.map_eq_some_iff.mp hload
  obtain ⟨hafter, hbefore⟩ := Prod.mk.inj hval
  refine ⟨d, hd, fun h => ?_⟩
  refine absurd (h (Or.inl ⟨.slot 0x100#16 0, fun heq => ?_⟩)).1
    (by unfold IsStandard; decide)
  rw [heq] at hafter
  exact absurd (hafter.symm.trans hbefore) (by decide)

end Binder
