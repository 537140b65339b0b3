import Mathlib.Data.List.Basic
import Mathlib.Data.Int.Init

/-!
# JSON values and numbers in texts

The configuration is read by `json-c`, and the code sees of it what the
accessors of that library return: `json_object_get_int`,
`json_object_get_string`, the key loop `json_object_object_foreach` and the
lookup `json_object_object_get_ex`. The JSON `null` is the null pointer of
the library. A floating point number is kept as what the two accessors that
are ever applied to it return, its truncation and its text.

Texts are turned into numbers by `strtol`, with its optional blanks, sign
and base prefix, and its saturation at the ends of `long`.
-/

/-! ## `strtol` -/

namespace CLib

/-- `isspace` of the C locale. -/
def isspace (c : Char) : Bool := c = ' ' || ('\t' ≤ c && c ≤ '\r')

/-- The value of a digit in a base of up to 36. -/
def digitValue (c : Char) : Option ℕ :=
  if '0' ≤ c ∧ c ≤ '9' then some (c.toNat - '0'.toNat)
  else if 'a' ≤ c ∧ c ≤ 'z' then some (c.toNat - 'a'.toNat + 10)
  else if 'A' ≤ c ∧ c ≤ 'Z' then some (c.toNat - 'A'.toNat + 10)
  else none

/-- The number a text starts with: digits of the base until the first
character that is none. -/
def digits (base : ℕ) : List Char → ℕ → ℕ
  | [], acc => acc
  | c :: cs, acc =>
    match digitValue c with
    | some d => if d < base then digits base cs (acc * base + d) else acc
    | none => acc

/-- What follows a `0x` that has a hexadecimal digit after it. -/
def afterHexPrefix : List Char → Option (List Char)
  | '0' :: x :: c :: cs =>
    if (x = 'x' ∨ x = 'X') ∧ (digitValue c).any (· < 16) then some (c :: cs) else none
  | _ => none

/-- The magnitude `strtol` reads after blanks and sign. Base 16 allows a
`0x`, base 0 chooses between 16, 8 and 10 by the prefix. -/
def magnitude (base : ℕ) (cs : List Char) : ℕ :=
  match base, afterHexPrefix cs, cs with
  | 16, some ds, _ => digits 16 ds 0
  | 0, some ds, _ => digits 16 ds 0
  | 0, none, '0' :: _ => digits 8 cs 0
  | 0, none, _ => digits 10 cs 0
  | b, _, _ => digits b cs 0

/-- `LONG_MAX` of a 64-bit `long`. -/
def longMax : ℤ := 0x7fffffffffffffff

/-- `LONG_MIN` of a 64-bit `long`. -/
def longMin : ℤ := -0x8000000000000000

/-- **`strtol(s, NULL, base)`**: a text without digits reads as zero. -/
def strtol (s : String) (base : ℕ) : ℤ :=
  match s.toList.dropWhile isspace with
  | '-' :: cs => max longMin (-(magnitude base cs : ℤ))
  | '+' :: cs => min longMax (magnitude base cs : ℤ)
  | cs => min longMax (magnitude base cs : ℤ)

example : strtol " 0x7fz" 0 = 127 := by decide

end CLib

/-! ## `json-c` -/

/-- A JSON value, as `json-c` holds it. -/
inductive Json
  | null
  | bool (b : Bool)
  | int (i : ℤ)
  /-- A floating point number: its value cast to `int`, and its text. -/
  | double (trunc : ℤ) (text : String)
  | string (s : String)
  | array (l : List Json)
  | object (l : List (String × Json))

namespace Json

/-- The escapes of a text inside a JSON text. -/
def escape (s : String) : String :=
  String.join (s.toList.map (fun c =>
    match c with
    | '"' => "\\\""
    | '\\' => "\\\\"
    | '/' => "\\/"
    | '\n' => "\\n"
    | '\r' => "\\r"
    | '\t' => "\\t"
    | c =>
      if c.toNat = 8 then "\\b"
      else if c.toNat = 12 then "\\f"
      else if c.toNat < 32 then
        "\\u00" ++ String.ofList [Nat.digitChar (c.toNat / 16), Nat.digitChar (c.toNat % 16)]
      else String.ofList [c]))

mutual

/-- `json_object_to_json_string`, with the default spacing. -/
def toJsonString : Json → String
  | null => "null"
  | bool true => "true"
  | bool false => "false"
  | int i => toString i
  | double _ text => text
  | string s => "\"" ++ escape s ++ "\""
  | array l => "[" ++ elements l false ++ " ]"
  | object l => "\x7b" ++ members l false ++ " \x7d"

/-- The elements of an array, each after a comma but the first. -/
def elements : List Json → Bool → String
  | [], _ => ""
  | j :: l, more => (if more then ", " else " ") ++ toJsonString j ++ elements l true

/-- The members of an object, each after a comma but the first. -/
def members : List (String × Json) → Bool → String
  | [], _ => ""
  | (k, j) :: l, more =>
    (if more then ", " else " ") ++ "\"" ++ escape k ++ "\": " ++ toJsonString j
      ++ members l true

end

/-- `json_object_get_string`: the text of a string, the JSON text of any
other value, and the null pointer of `null`. A text stands for the C string that
the caller has of it, which ends at the first zero byte: a text of the file with
a zero byte in it stands here as what comes before that byte. -/
def getString : Json → Option String
  | null => none
  | string s => some s
  | j => some (toJsonString j)

/-- The ends of `int32_t`. -/
def clampInt (i : ℤ) : ℤ :=
  if i ≤ -0x80000000 then -0x80000000 else if 0x7fffffff ≤ i then 0x7fffffff else i

/-- **`json_object_get_int`**: integers, and texts that start with one,
saturate at the ends of `int32_t`; what is no number reads as zero. -/
def getInt : Json → ℤ
  | int i => clampInt i
  | string s => clampInt (CLib.strtol s 10)
  | double trunc _ => trunc
  | bool b => if b then 1 else 0
  | _ => 0

/-- `json_object_object_get_ex` on the members of an object: the value under
a key, and the null pointer where there is none. A later member of the same
key replaces an earlier one. -/
def lookup (members : List (String × Json)) (key : String) : Json :=
  match members.reverse.find? (fun m => m.1 = key) with
  | some m => m.2
  | none => null

/-- `json_object_object_get_ex`: nothing is found in what is no object. -/
def objectGet (j : Json) (key : String) : Json :=
  match j with
  | object l => lookup l key
  | _ => null

/-- `json_object_object_foreach` runs over the members of an object; on any
other value it reads through a null pointer. -/
def objectForeach : Json → Option (List (String × Json))
  | object l => some l
  | _ => none

/-- `json_object_object_add`: a key already there gets the new value. -/
def objectAdd (l : List (String × Json)) (key : String) (j : Json) :
    List (String × Json) :=
  if l.any (fun m => m.1 = key) then l.map (fun m => if m.1 = key then (key, j) else m)
  else l ++ [(key, j)]

end Json
