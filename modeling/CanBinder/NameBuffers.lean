import CanBinder.CBuffer
import CanBinder.ZoneNames

/-!
# The buffers a name is built in

`_getZoneName` appends the words of the suffix to an array of 128 bytes, and
`add_propertyMember` prints the name, an `@` and the suffix into one of 256. Neither
asks for a length. The first array has room for the words of all zones together; the
second has room for what the configuration gives it only up to a length that nothing
checks (`nameInBounds_iff`). Where both have room, the name is that of the
dictionary (`entryName_eq`).
-/

section Buffers

open CBuffer

/-! ## The bytes of a text -/

/-- The bytes of a text. -/
def CLib.bytes (s : String) : List UInt8 := s.toList.flatMap String.utf8EncodeChar

/-- The string a `char *` to a text is: its bytes up to the first zero. -/
def CLib.chars (s : String) : List UInt8 := (bytes s).takeWhile (fun b => b ≠ 0)

namespace CLib

theorem zero_notMem_chars (s : String) : 0 ∉ chars s := fun h => by
  have hne := List.mem_takeWhile_imp h
  simp at hne

theorem chars_eq_bytes {s : String} (h : 0 ∉ bytes s) : chars s = bytes s :=
  List.takeWhile_eq_self_iff.mpr (fun _ hb => decide_eq_true (fun hc => h (hc ▸ hb)))

theorem bytes_append (s t : String) : bytes (s ++ t) = bytes s ++ bytes t := by
  rw [bytes, String.toList_append, List.flatMap_append]
  rfl

theorem bytes_join (l : List String) : bytes (String.join l) = (l.map bytes).flatten := by
  rw [bytes, String.toList_join, List.flatMap_assoc, List.flatMap_def]
  rfl

end CLib

/-! ## The suffix -/

/-- The appends of `_getZoneName`, one for each bit that is set. -/
def zoneNameLoop (zoneVal : ℕ) : List (ℕ × String) → Buffer 128 → Option (Buffer 128)
  | [], zoneName => some zoneName
  | (bit, word) :: l, zoneName =>
    if zoneVal &&& bit ≠ 0 then
      match strcat zoneName (CLib.chars word) with
      | none => none
      | some zoneName => zoneNameLoop zoneVal l zoneName
    else zoneNameLoop zoneVal l zoneName

/-- **`_getZoneName`**, with the array its result points to. -/
def getZoneNameBuffer : Json → Option (Option (Buffer 128))
  | .null => some none
  | .array zonelist =>
    match zonelist.mapM Json.getString with
    | none => none
    | some names =>
      let zoneVal := names.foldl zoneStep 0
      if zoneVal = 0 then some none
      else (zoneNameLoop zoneVal zoneWords (fun _ => 0)).map some
  | _ => none

/-- **The appends stay inside the array**, whichever bits are set, if there is room
for all the words. -/
theorem zoneNameLoop_holds {zoneVal : ℕ} {l : List (ℕ × String)} {zoneName : Buffer 128}
    {s : List UInt8} (h : Holds zoneName s)
    (hroom : s.length + (l.map (fun w => (CLib.chars w.2).length)).sum < 128) :
    ∃ zoneName', zoneNameLoop zoneVal l zoneName = some zoneName'
      ∧ Holds zoneName' (s ++ ((l.filter (fun w => zoneVal &&& w.1 ≠ 0)).map
          (fun w => CLib.chars w.2)).flatten) := by
  induction l generalizing zoneName s with
  | nil => exact ⟨zoneName, rfl, by simpa using h⟩
  | cons w l ih =>
    obtain ⟨bit, word⟩ := w
    rw [List.map_cons, List.sum_cons] at hroom
    dsimp only at hroom
    rw [zoneNameLoop, List.filter_cons]
    by_cases hbit : zoneVal &&& bit ≠ 0
    · rw [if_pos hbit, if_pos (decide_eq_true hbit)]
      obtain ⟨zoneName₁, hcat⟩ := Option.isSome_iff_exists.mp
        ((h.strcat_isSome_iff (t := CLib.chars word)).mpr (by omega))
      rw [hcat]
      dsimp only
      have h₁ := h.strcat (CLib.zero_notMem_chars word) hcat
      obtain ⟨zoneName', hloop, hholds⟩ := ih h₁ (by rw [List.length_append]; omega)
      refine ⟨zoneName', hloop, ?_⟩
      rw [List.map_cons, List.flatten_cons, ← List.append_assoc]
      exact hholds
    · rw [if_neg hbit, if_neg (by simpa using hbit)]
      exact ih h (by omega)

/-- The words of all zones fit. -/
theorem zoneWords_sum_lt : (zoneWords.map (fun w => (CLib.chars w.2).length)).sum < 128 := by
  decide

/-- The words of the zones a list denotes. -/
def wordsOf (names : List String) : List (ℕ × String) :=
  zoneWords.filter (fun w => zoneValue names &&& w.1 ≠ 0)

/-- **The suffix always fits**: `_getZoneName` writes inside its array, and the array
holds the words of the zones the list denotes. -/
theorem getZoneNameBuffer_eq {v : Json} {names : List String} (h : v.zoneTexts = some names) :
    ∃ zone, getZoneNameBuffer v = some zone
      ∧ (zoneValue names = 0 ∧ zone = none
        ∨ zoneValue names ≠ 0 ∧ ∃ zoneName, zone = some zoneName
          ∧ Holds zoneName ((wordsOf names).map (fun w => CLib.chars w.2)).flatten) := by
  cases v with
  | null =>
    cases h
    exact ⟨none, rfl, Or.inl ⟨rfl, rfl⟩⟩
  | array zonelist =>
    have hmap : zonelist.mapM Json.getString = some names := h
    rw [getZoneNameBuffer, hmap]
    dsimp only
    by_cases hzero : zoneValue names = 0
    · exact ⟨none, if_pos hzero, Or.inl ⟨hzero, rfl⟩⟩
    · have hroom : ([] : List UInt8).length
          + (zoneWords.map (fun w => (CLib.chars w.2).length)).sum < 128 := by
        simpa using zoneWords_sum_lt
      obtain ⟨zoneName, hloop, hholds⟩ :=
        @zoneNameLoop_holds (zoneValue names) _ _ _ (holds_zero (by decide)) hroom
      refine ⟨some zoneName, ?_, Or.inr ⟨hzero, zoneName, rfl, hholds⟩⟩
      rw [show names.foldl zoneStep 0 = zoneValue names from rfl, if_neg hzero, hloop]
      rfl
  | _ => cases h

/-! ## The name -/

/-- `sprintf(buf, "%s@%s", name, zone)`. -/
def printName (buf : Buffer 256) (name : String) (zone : Buffer 128) : Option (Buffer 256) :=
  match contents zone with
  | none => none
  | some zone => strcpy buf (CLib.chars name ++ CLib.chars "@" ++ zone)

/-- **The name `add_propertyMember` stores**, built in its buffers. What is in `buf`
before is not known. -/
def entryName (buf : Buffer 256) (l : List (String × Json)) : Option (List UInt8) :=
  let name := (Json.lookup l "PROPERTY").getString.getD "Unknown"
  match getZoneNameBuffer (Json.lookup l "ZONE") with
  | none => none
  | some none => some (CLib.chars name)
  | some (some zone) =>
    match printName buf name zone with
    | none => none
    | some buf => contents buf

/-- **The name of an entry is built inside the buffers**: that of the suffix, and
that of the name whatever it has in it. -/
structure NameInBounds (l : List (String × Json)) : Prop where
  zoneName : (getZoneNameBuffer (Json.lookup l "ZONE")).isSome
  buf : ∀ buf, (entryName buf l).isSome

/-- The characters of the words for the zones a list denotes: those of each name
after its `Zone::`. -/
def suffixLength (names : List String) : ℕ :=
  ((zoneBits.filter (fun z => z.1 ∈ afterNone names)).map
    (fun z => z.1.length - "Zone::".length)).sum

/-- Each word has the length of the name of its zone, without the `Zone::`. -/
theorem zoneWords_lengths :
    zoneWords.map (fun w => (w.1, (CLib.chars w.2).length))
      = zoneBits.map (fun z => (z.2, z.1.length - "Zone::".length)) := by
  decide

/-- **The length of the suffix.** -/
theorem length_words (names : List String) :
    ((wordsOf names).map (fun w => CLib.chars w.2)).flatten.length = suffixLength names := by
  have hwords : ((wordsOf names).map (fun w => CLib.chars w.2)).map List.length
      = ((zoneWords.map (fun w => (w.1, (CLib.chars w.2).length))).filter
          (fun t => zoneValue names &&& t.1 ≠ 0)).map Prod.snd := by
    rw [wordsOf, List.filter_map, List.map_map, List.map_map]
    rfl
  have hbits : zoneBits.filter (fun z => z.1 ∈ afterNone names)
      = zoneBits.filter (fun z => zoneValue names &&& z.2 ≠ 0) := by
    refine List.filter_congr (fun z hz => ?_)
    rw [decide_eq_decide]
    exact (zoneValue_and hz names).symm
  rw [List.length_flatten, hwords, zoneWords_lengths, suffixLength, hbits, List.filter_map,
    List.map_map]
  rfl

/-- The name of an entry without a zone. -/
theorem entryName_of_none {l : List (String × Json)}
    (hzone : getZoneNameBuffer (Json.lookup l "ZONE") = some none) (buf : Buffer 256) :
    entryName buf l
      = some (CLib.chars ((Json.lookup l "PROPERTY").getString.getD "Unknown")) := by
  rw [entryName, hzone]

/-- **The name of an entry with a zone** is printed if there is room for it, its
`@`, the suffix and the terminator. -/
theorem entryName_of_some {l : List (String × Json)} {zoneName : Buffer 128}
    {suffix : List UInt8}
    (hzone : getZoneNameBuffer (Json.lookup l "ZONE") = some (some zoneName))
    (h : Holds zoneName suffix) (buf : Buffer 256) :
    entryName buf l
      = if (CLib.chars ((Json.lookup l "PROPERTY").getString.getD "Unknown")).length
            + suffix.length ≤ 254
          then some (CLib.chars ((Json.lookup l "PROPERTY").getString.getD "Unknown")
            ++ CLib.chars "@" ++ suffix)
          else none := by
  generalize hname : (Json.lookup l "PROPERTY").getString.getD "Unknown" = name
  have hat : (CLib.chars "@").length = 1 := by decide
  have hroom : (strcpy buf (CLib.chars name ++ CLib.chars "@" ++ suffix)).isSome
      ↔ (CLib.chars name).length + suffix.length ≤ 254 := by
    rw [strcpy_isSome_iff, List.length_append, List.length_append, hat]
    omega
  have hzero : 0 ∉ CLib.chars name ++ CLib.chars "@" ++ suffix := by
    simp [CLib.zero_notMem_chars, h.notMem]
  rw [entryName, hzone, hname]
  dsimp only
  rw [printName, h.contents_eq]
  dsimp only
  cases hcopy : strcpy buf (CLib.chars name ++ CLib.chars "@" ++ suffix) with
  | none =>
    rw [hcopy] at hroom
    rw [if_neg (fun hc => absurd (hroom.mpr hc) (by simp))]
  | some buf' =>
    rw [hcopy] at hroom
    rw [if_pos (hroom.mp rfl)]
    exact (holds_strcpy hzero hcopy).contents_eq

/-- An entry with a zone. -/
theorem nameInBounds_iff_of_some {l : List (String × Json)} {zoneName : Buffer 128}
    {suffix : List UInt8}
    (hzone : getZoneNameBuffer (Json.lookup l "ZONE") = some (some zoneName))
    (h : Holds zoneName suffix) :
    NameInBounds l
      ↔ (CLib.chars ((Json.lookup l "PROPERTY").getString.getD "Unknown")).length
          + suffix.length ≤ 254 := by
  constructor
  · intro hin
    have hsome := hin.buf (fun _ => 0)
    rw [entryName_of_some hzone h] at hsome
    by_contra hroom
    rw [if_neg hroom] at hsome
    cases hsome
  · intro hroom
    refine ⟨by rw [hzone]; rfl, fun buf => ?_⟩
    rw [entryName_of_some hzone h, if_pos hroom]
    rfl

/-- **The name of an entry is built inside the buffers exactly if it has no zone, or
is short enough**: the name, the `@`, the suffix and the terminator are at most 256
bytes. -/
theorem nameInBounds_iff {l : List (String × Json)} {names : List String}
    (h : (Json.lookup l "ZONE").zoneTexts = some names) :
    NameInBounds l
      ↔ (∀ z ∈ zoneBits, z.1 ∉ afterNone names)
        ∨ (CLib.chars ((Json.lookup l "PROPERTY").getString.getD "Unknown")).length
            + suffixLength names ≤ 254 := by
  obtain ⟨zone, hzone, ⟨hzero, rfl⟩ | ⟨hzero, zoneName, rfl, hholds⟩⟩ := getZoneNameBuffer_eq h
  · refine iff_of_true ⟨by rw [hzone]; rfl, fun buf => ?_⟩
      (Or.inl (zoneValue_eq_zero_iff.mp hzero))
    rw [entryName_of_none hzone]
    rfl
  · rw [nameInBounds_iff_of_some hzone hholds, ← zoneValue_eq_zero_iff, or_iff_right hzero,
      length_words]

/-- A property of one zone. -/
theorem nameInBounds_iff_speed :
    NameInBounds [("PROPERTY", .string "speed"), ("ZONE", zoneArray ["Zone::FrontSide"])] :=
  (@nameInBounds_iff _ ["Zone::FrontSide"] rfl).mpr (Or.inr (by decide))

/-- A name of as many letters. -/
def letters (k : ℕ) : String := String.ofList (List.replicate k 'a')

theorem length_chars_letters (k : ℕ) : (CLib.chars (letters k)).length = k := by
  have hbytes : CLib.bytes (letters k) = List.replicate k 97 := by
    rw [letters, CLib.bytes, String.toList_ofList]
    induction k with
    | zero => rfl
    | succ k ih =>
      rw [List.replicate_succ, List.flatMap_cons, ih]
      rfl
  rw [CLib.chars_eq_bytes, hbytes, List.length_replicate]
  rw [hbytes]
  exact fun h => absurd (List.eq_of_mem_replicate h) (by decide)

/-- An entry with a name of 250 letters and a zone of five. -/
def longEntry : List (String × Json) :=
  [("PROPERTY", .string (letters 250)), ("ZONE", zoneArray ["Zone::Front"])]

/-- For it 257 bytes are printed into the array. -/
theorem not_nameInBounds_longEntry : ¬NameInBounds longEntry := by
  have htexts : (Json.lookup longEntry "ZONE").zoneTexts = some ["Zone::Front"] := rfl
  have hname : (Json.lookup longEntry "PROPERTY").getString.getD "Unknown" = letters 250 := rfl
  obtain ⟨zone, hzone, ⟨hzero, -⟩ | ⟨-, zoneName, rfl, hholds⟩⟩ := getZoneNameBuffer_eq htexts
  · exact absurd hzero (by decide)
  · have hlen : suffixLength ["Zone::Front"] = 5 := by decide
    rw [nameInBounds_iff_of_some hzone hholds, hname, length_chars_letters, length_words, hlen]
    decide

/-! ## The name in the dictionary -/

/-- The words have no zero bytes. -/
theorem zoneWords_chars : ∀ w ∈ zoneWords, CLib.chars w.2 = CLib.bytes w.2 := by
  decide

/-- The words in the array are the suffix. -/
theorem words_eq_bytes (names : List String) :
    ((wordsOf names).map (fun w => CLib.chars w.2)).flatten
      = CLib.bytes (zoneSuffix (zoneValue names)) := by
  rw [zoneSuffix, CLib.bytes_join, List.map_map]
  refine congrArg List.flatten (List.map_congr_left (fun w hw => ?_))
  exact zoneWords_chars w (List.mem_of_mem_filter hw)

/-- **What is built in the buffers is the name of the property**, if the text of
`PROPERTY` has no zero bytes. -/
theorem entryName_eq {l : List (String × Json)} {kind : CanPropertyKind} {p : PropDef}
    {names : List String} (hp : addPropertyMember (.object l) kind = some p)
    (htexts : (Json.lookup l "ZONE").zoneTexts = some names)
    (hzero : 0 ∉ CLib.bytes ((Json.lookup l "PROPERTY").getString.getD "Unknown"))
    {buf : Buffer 256} {s : List UInt8} (hs : entryName buf l = some s) :
    s = CLib.chars p.name := by
  obtain ⟨_, m, heq, hm, rfl⟩ := addPropertyMember_eq_some hp
  cases heq
  obtain ⟨hname, hzone, -⟩ := memberLoop_names hm
  rw [getZoneName_of_zoneTexts htexts, Option.join_some] at hzone
  rw [← hname] at hzero
  obtain ⟨zone, hbuffer, ⟨hnone, rfl⟩ | ⟨hsome, zoneName, rfl, hholds⟩⟩ :=
    getZoneNameBuffer_eq htexts
  · rw [entryName_of_none hbuffer, ← hname] at hs
    rw [if_pos hnone] at hzone
    rw [Member.toPropDef, hzone]
    exact (Option.some.inj hs).symm
  · rw [entryName_of_some hbuffer hholds, ← hname] at hs
    rw [if_neg hsome] at hzone
    split_ifs at hs with hroom
    rw [← Option.some.inj hs, Member.toPropDef, hzone]
    dsimp only
    have hsuffix := hholds.notMem
    rw [words_eq_bytes] at hsuffix ⊢
    have hat : CLib.chars "@" = CLib.bytes "@" := by decide
    rw [CLib.chars_eq_bytes hzero, hat, CLib.chars_eq_bytes, CLib.bytes_append, CLib.bytes_append]
    have hzeroAt : 0 ∉ CLib.bytes "@" := by decide
    rw [CLib.bytes_append, CLib.bytes_append]
    simp [hzero, hsuffix, hzeroAt]

end Buffers
