import DraftKeeper.Text.Utf8
import DraftKeeper.Json.Basic

namespace DraftKeeper.Json

structure Numeral where
  negative : Bool
  whole : List Nat
  fraction : Option (List Nat)
  exponent : Option (Bool × List Nat)
deriving Repr

inductive Document
  | null
  | bool (b : Bool)
  | number (n : Numeral)
  | string (body : Bytes)
  | array (items : List Document)
  | object (fields : List (Bytes × Document))
deriving Inhabited

/-- The part of a document that is wanted: all of it, or the fields of an object that are named. -/
inductive Selection
  | whole
  | members (ms : List (String × Selection))

def maxDepth : Nat := 127

section Reading

def isSpace (b : UInt8) : Bool := b = 0x20 || b = 0x0A || b = 0x09 || b = 0x0D

def skipSpace (bs : Bytes) : Bytes := bs.dropWhile isSpace

def digit? (b : UInt8) : Option Nat :=
  if 0x30 ≤ b ∧ b ≤ 0x39 then some (b.toNat - 0x30) else none

def hexDigit? (b : UInt8) : Option Nat :=
  if 0x30 ≤ b ∧ b ≤ 0x39 then some (b.toNat - 0x30)
  else if 0x41 ≤ b ∧ b ≤ 0x46 then some (b.toNat - 0x37)
  else if 0x61 ≤ b ∧ b ≤ 0x66 then some (b.toNat - 0x57)
  else none

def takeDigits : Bytes → List Nat × Bytes
  | [] => ([], [])
  | b :: bs =>
    match digit? b with
    | some d => (d :: (takeDigits bs).1, (takeDigits bs).2)
    | none => ([], b :: bs)

def simpleEscapes : Bytes := [0x22, 0x5C, 0x2F, 0x62, 0x66, 0x6E, 0x72, 0x74]

/-- The rest of a string after its opening quote: its body as written, and what follows it. -/
def readBody : Bytes → Option (Bytes × Bytes)
  | [] => none
  | 0x22 :: bs => some ([], bs)
  | 0x5C :: 0x75 :: a :: b :: c :: d :: bs =>
    if [a, b, c, d].all fun h => (hexDigit? h).isSome then
      (readBody bs).map fun (body, rest) => (0x5C :: 0x75 :: a :: b :: c :: d :: body, rest)
    else none
  | 0x5C :: e :: bs =>
    if simpleEscapes.contains e then
      (readBody bs).map fun (body, rest) => (0x5C :: e :: body, rest)
    else none
  | b :: bs =>
    if b < 0x20 ∨ b = 0x5C then none
    else (readBody bs).map fun (body, rest) => (b :: body, rest)

def readFraction (bs : Bytes) : Option (Option (List Nat) × Bytes) :=
  match bs with
  | 0x2E :: rest =>
    let (ds, rest) := takeDigits rest
    if ds.isEmpty then none else some (some ds, rest)
  | _ => some (none, bs)

/-- The exponent of a number, if it has one; the sign is true for a negative one. -/
def readExponent (bs : Bytes) : Option (Option (Bool × List Nat) × Bytes) :=
  match bs with
  | b :: rest =>
    if b = 0x65 ∨ b = 0x45 then
      let (negative, rest) := match rest with
        | 0x2D :: rest => (true, rest)
        | 0x2B :: rest => (false, rest)
        | rest => (false, rest)
      let (ds, rest) := takeDigits rest
      if ds.isEmpty then none else some (some (negative, ds), rest)
    else some (none, bs)
  | [] => some (none, bs)

/-- The digits before the point: a zero alone, or digits that do not start with one. -/
def readWhole (bs : Bytes) : Option (List Nat × Bytes) :=
  match takeDigits bs with
  | ([], _) => none
  | ([0], rest) => some ([0], rest)
  | (0 :: _, _) => none
  | (ds, rest) => some (ds, rest)

def readNumber (negative : Bool) (bs : Bytes) : Option (Numeral × Bytes) := do
  let (whole, rest) ← readWhole bs
  let (fraction, rest) ← readFraction rest
  let (exponent, rest) ← readExponent rest
  pure (⟨negative, whole, fraction, exponent⟩, rest)

mutual

/-- A value at the head of the bytes, blanks before it skipped, and what follows it. -/
def readValue : Nat → Bytes → Option (Document × Bytes)
  | 0, _ => none
  | fuel + 1, bs =>
    match skipSpace bs with
    | 0x6E :: 0x75 :: 0x6C :: 0x6C :: rest => some (.null, rest)
    | 0x74 :: 0x72 :: 0x75 :: 0x65 :: rest => some (.bool true, rest)
    | 0x66 :: 0x61 :: 0x6C :: 0x73 :: 0x65 :: rest => some (.bool false, rest)
    | 0x22 :: rest => (readBody rest).map fun (body, rest) => (.string body, rest)
    | 0x2D :: rest => (readNumber true rest).map fun (n, rest) => (.number n, rest)
    | 0x5B :: rest =>
      match skipSpace rest with
      | 0x5D :: rest => some (.array [], rest)
      | _ => (readItems fuel rest).map fun (items, rest) => (.array items, rest)
    | 0x7B :: rest =>
      match skipSpace rest with
      | 0x7D :: rest => some (.object [], rest)
      | _ => (readMembers fuel rest).map fun (fields, rest) => (.object fields, rest)
    | rest => (readNumber false rest).map fun (n, rest) => (.number n, rest)

def readItems : Nat → Bytes → Option (List Document × Bytes)
  | 0, _ => none
  | fuel + 1, bs =>
    match readValue fuel bs with
    | none => none
    | some (item, rest) =>
      match skipSpace rest with
      | 0x5D :: rest => some ([item], rest)
      | 0x2C :: rest => (readItems fuel rest).map fun (items, rest) => (item :: items, rest)
      | _ => none

def readMembers : Nat → Bytes → Option (List (Bytes × Document) × Bytes)
  | 0, _ => none
  | fuel + 1, bs =>
    match skipSpace bs with
    | 0x22 :: rest =>
      match readBody rest with
      | none => none
      | some (name, rest) =>
        match skipSpace rest with
        | 0x3A :: rest =>
          match readValue fuel rest with
          | none => none
          | some (value, rest) =>
            match skipSpace rest with
            | 0x7D :: rest => some ([(name, value)], rest)
            | 0x2C :: rest =>
              (readMembers fuel rest).map fun (fields, rest) => ((name, value) :: fields, rest)
            | _ => none
        | _ => none
    | _ => none

end

def Document.read? (bs : Bytes) : Option Document :=
  match readValue (2 * bs.length + 2) bs with
  | some (d, rest) => if (skipSpace rest).isEmpty then some d else none
  | none => none

end Reading

section Building

def hexValue (ds : Bytes) : Nat := ds.foldl (fun n b => 16 * n + (hexDigit? b).getD 0) 0

def simpleEscape (e : UInt8) : UInt8 :=
  if e = 0x62 then 8
  else if e = 0x66 then 12
  else if e = 0x6E then 10
  else if e = 0x72 then 13
  else if e = 0x74 then 9
  else e

/-- A string's bytes with its escapes resolved. Two escapes that name a surrogate pair make one
character; half a pair is refused. -/
def unescape : Bytes → Option Bytes
  | [] => some []
  | 0x5C :: 0x75 :: a :: b :: c :: d :: bs =>
    let unit := hexValue [a, b, c, d]
    if unit < 0xD800 ∨ 0xE000 ≤ unit then
      (unescape bs).map (String.utf8EncodeChar (Char.ofNat unit) ++ ·)
    else match bs with
      | 0x5C :: 0x75 :: a' :: b' :: c' :: d' :: bs =>
        let low := hexValue [a', b', c', d']
        if unit < 0xDC00 ∧ 0xDC00 ≤ low ∧ low < 0xE000 then
          let scalar := 0x10000 + (unit - 0xD800) * 0x400 + (low - 0xDC00)
          (unescape bs).map (String.utf8EncodeChar (Char.ofNat scalar) ++ ·)
        else none
      | _ => none
  | 0x5C :: e :: bs => (unescape bs).map (simpleEscape e :: ·)
  | b :: bs => (unescape bs).map (b :: ·)

def text? (body : Bytes) : Option String := (unescape body).bind Text.Utf8.decode?

/-- Takes digits into a number for as long as it fits 64 bits; the second part is what is left. -/
def absorb : Nat → List Nat → Nat × List Nat
  | n, [] => (n, [])
  | n, d :: ds => if 10 * n + d < 0x10000000000000000 then absorb (10 * n + d) ds else (n, d :: ds)

def powerOfTen (n : Nat) : Float := Float.ofScientific 1 false n

/-- A number of at most 64 bits times a power of ten, by one multiplication or division of floats;
a power below `10^-308` is taken in steps. -/
def scale : Nat → Float → Int → Option Float
  | 0, x, _ => some x
  | fuel + 1, x, e =>
    if 308 < e then (if x == 0 then some x else none)
    else if 0 ≤ e then
      let y := x * powerOfTen e.toNat
      if y.isFinite then some y else none
    else if -308 ≤ e then some (x / powerOfTen (-e).toNat)
    else if x == 0 then some x
    else scale fuel (x / powerOfTen 308) (e + 308)

def signed (negative : Bool) (x : Float) : Float := if negative then -x else x

def isHuge (ds : List Nat) : Bool := 0x80000000 ≤ ds.foldl (fun n d => 10 * n + d) 0

/-- The value of a number: an integer if it is written as one and fits 64 bits, signed or not, and
is not `-0`; else a float. Digits of which 64 bits cannot hold any more count only as a power. -/
def Numeral.value? (n : Numeral) : Option Json :=
  let (m, left) := absorb 0 n.whole
  let shift : Int := left.length
  let plain := left.isEmpty && n.fraction.isNone && n.exponent.isNone
  if plain && !n.negative then some (.integer m)
  else if plain && 0 < m && m ≤ 0x8000000000000000 then some (.integer (-(m : Int)))
  else
    let (m, left') := absorb m (n.fraction.getD [])
    let shift := shift - ((n.fraction.getD []).length - left'.length : Nat)
    let (negativeExponent, ds) := n.exponent.getD (false, [])
    if isHuge ds then
      if m ≠ 0 ∧ !negativeExponent then none else some (.float (signed n.negative 0))
    else
      let e : Nat := ds.foldl (fun n d => 10 * n + d) 0
      let e : Int := if negativeExponent then shift - e else shift + e
      (scale 8 (Float.ofScientific m false 0) e).map fun x => .float (signed n.negative x)

mutual

/-- The wanted part of a document as a value; `depth` levels may still open. Fields keep their
order, and fields that are not wanted are left out. -/
def Document.build? : Selection → Nat → Document → Option Json
  | _, _, .null => some .null
  | _, _, .bool b => some (.bool b)
  | _, _, .number n => n.value?
  | _, _, .string body => (text? body).map .string
  | _, 0, .array _ => none
  | _, 0, .object _ => none
  | .whole, depth + 1, .array items => (buildItems depth items).map .array
  | .members ms, depth + 1, .array items => (buildPositions (ms.map (·.2)) depth items).map .array
  | s, depth + 1, .object fields => (buildFields s depth fields).map .object

def buildItems : Nat → List Document → Option (List Json)
  | _, [] => some []
  | depth, d :: ds =>
    match d.build? .whole depth, buildItems depth ds with
    | some v, some vs => some (v :: vs)
    | _, _ => none

def buildPositions : List Selection → Nat → List Document → Option (List Json)
  | _, _, [] => some []
  | ss, depth, d :: ds =>
    match d.build? (ss.headD .whole) depth, buildPositions ss.tail depth ds with
    | some v, some vs => some (v :: vs)
    | _, _ => none

def buildFields : Selection → Nat → List (Bytes × Document) → Option (List (String × Json))
  | _, _, [] => some []
  | s, depth, (name, d) :: fs =>
    match text? name with
    | none => none
    | some n =>
      let wanted := match s with
        | .whole => some Selection.whole
        | .members ms => ms.lookup n
      match wanted with
      | none => buildFields s depth fs
      | some w =>
        match d.build? w depth, buildFields s depth fs with
        | some v, some vs => some ((n, v) :: vs)
        | _, _ => none

end

end Building

/-- The value of a whole text in which at most `depth` levels open, fields in their order. -/
def parse? (depth : Nat) (bs : Bytes) : Option Json :=
  (Document.read? bs).bind fun d => d.build? .whole depth

end DraftKeeper.Json
