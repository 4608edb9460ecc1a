import DraftKeeper.Text.Quoted
import DraftKeeper.Json.Document
import DraftKeeper.Json.Printer

namespace DraftKeeper.Json

structure Range where
  name : String
  least : Int
  greatest : Int
deriving DecidableEq, Repr

namespace Range

def size : Range := ⟨"usize", 0, 0xFFFFFFFFFFFFFFFF⟩

def unsigned64 : Range := ⟨"u64", 0, 0xFFFFFFFFFFFFFFFF⟩

def unsigned16 : Range := ⟨"u16", 0, 0xFFFF⟩

def signed64 : Range := ⟨"i64", -0x8000000000000000, 0x7FFFFFFFFFFFFFFF⟩

def signed32 : Range := ⟨"i32", -0x80000000, 0x7FFFFFFF⟩

def holds (r : Range) (n : Int) : Bool := r.least ≤ n && n ≤ r.greatest

end Range

inductive Wanted
  | text
  | integer (range : Range)
  | variantName
  | record (name : String)
  | tagged (name : String)
  | dateTime
  | unit
  | textOrMap
deriving DecidableEq, Repr

inductive DecodeError
  | wrongType (found : Json) (wanted : Wanted)
  | outOfRange (n : Int) (range : Range)
  | unknownVariant (name : String) (known : List String)
  | unknownIndex (n : Int) (count : Nat)
  | missing (field : String)
  | duplicate (field : String)
  | tooShort (length : Nat) (kind : String) (arity : Nat)
  | tooLong (length : Nat)
  | tooLongVariant (length arity : Nat)
  | noAlternative (name : String)
  | notSingle
  | badDate (reason : String)

namespace DecodeError

def plural (n : Nat) : String := if n = 1 then "1 element" else toString n ++ " elements"

def foundText : Json → String
  | .null => "null"
  | .bool b => "boolean `" ++ (if b then "true" else "false") ++ "`"
  | .integer n => "integer `" ++ toString n ++ "`"
  | .float x => "floating point `" ++ floatText x ++ "`"
  | .string s => "string " ++ Text.Quoted.quoted s
  | .array _ => "sequence"
  | .object _ => "map"

def wantedText : Wanted → String
  | .text => "a string"
  | .integer range => range.name
  | .variantName => "variant identifier"
  | .record name => "struct " ++ name
  | .tagged name => "internally tagged enum " ++ name
  | .dateTime => "an RFC 3339 formatted date and time string"
  | .unit => "unit"
  | .textOrMap => "string or map"

def knownText (names : List String) : String :=
  match names.map fun n => "`" ++ n ++ "`" with
  | [] => "there are no variants"
  | [a] => "expected " ++ a
  | [a, b] => "expected " ++ a ++ " or " ++ b
  | names => "expected one of " ++ ", ".intercalate names

def message : DecodeError → String
  | .wrongType found wanted =>
    "invalid type: " ++ foundText found ++ ", expected " ++ wantedText wanted
  | .outOfRange n range =>
    "invalid value: " ++ foundText (.integer n) ++ ", expected " ++ range.name
  | .unknownVariant name known => "unknown variant `" ++ name ++ "`, " ++ knownText known
  | .unknownIndex n count =>
    "invalid value: " ++ foundText (.integer n) ++ ", expected variant index 0 <= i < " ++
      toString count
  | .missing field => "missing field `" ++ field ++ "`"
  | .duplicate field => "duplicate field `" ++ field ++ "`"
  | .tooShort length kind arity =>
    "invalid length " ++ toString length ++ ", expected " ++ kind ++ " with " ++ plural arity
  | .tooLong length => "invalid length " ++ toString length ++ ", expected fewer elements in array"
  | .tooLongVariant length arity =>
    "invalid length " ++ toString length ++ ", expected " ++ plural arity ++ " in sequence"
  | .noAlternative name => "data did not match any variant of untagged enum " ++ name
  | .notSingle => "invalid value: map, expected map with a single key"
  | .badDate reason => reason

end DecodeError

abbrev Decoder (α : Type) := Json → Except DecodeError α

section Scalars

def asText : Decoder String
  | .string s => .ok s
  | v => .error (.wrongType v .text)

def asInteger (range : Range) : Decoder Int
  | .integer n => if range.holds n then .ok n else .error (.outOfRange n range)
  | v => .error (.wrongType v (.integer range))

def asNatural (range : Range) : Decoder Nat := fun v => (asInteger range v).map Int.toNat

def asOption {α : Type} (decode : Decoder α) : Decoder (Option α)
  | .null => .ok none
  | v => (decode v).map some

def asValue : Decoder Json := .ok

end Scalars

section Records

/-- A declared field: its name, the test its value must pass and whether it may be left out of an
array. -/
structure Member where
  name : String
  check : Json → Except DecodeError Unit
  optional : Bool

def Member.of {α : Type} (name : String) (decode : Decoder α) (optional : Bool) : Member :=
  ⟨name, fun v => (decode v).map fun _ => (), optional⟩

def required {α : Type} (name : String) (decode : Decoder α) : Member := .of name decode false

def optional {α : Type} (name : String) (decode : Decoder α) : Member := .of name decode true

def checkFields (ms : List Member) : List String → List (String × Json) → Except DecodeError Unit
  | _, [] => .ok ()
  | seen, (n, v) :: fs =>
    match ms.find? fun m => m.name = n with
    | none => checkFields ms seen fs
    | some m =>
      if seen.contains n then .error (.duplicate n)
      else match m.check v with
        | .error e => .error e
        | .ok _ => checkFields ms (n :: seen) fs

structure Layout where
  kind : String
  members : List Member

def Layout.arity (l : Layout) : Nat := l.members.length

def Layout.needed (l : Layout) : Nat := (l.members.filter fun m => !m.optional).length

def Layout.names (l : Layout) : List String := l.members.map (·.name)

/-- The fields of an array's items, which stand in declared order. -/
def Layout.ofItems (l : Layout) (items : List Json) :
    Except DecodeError (List (String × Json)) := do
  let fields := l.names.zip items
  checkFields l.members [] fields
  if items.length < l.needed then .error (.tooShort items.length l.kind l.arity)
  else pure fields

def Layout.ofFields (l : Layout) (fields : List (String × Json)) :
    Except DecodeError (List (String × Json)) := do
  checkFields l.members [] fields
  pure fields

def Layout.fields (l : Layout) (name : String) : Decoder (List (String × Json))
  | .object fields => l.ofFields fields
  | .array items => do
    let fields ← l.ofItems items
    if l.arity < items.length then .error (.tooLong items.length) else pure fields
  | v => .error (.wrongType v (.record name))

def need {α : Type} (fields : List (String × Json)) (name : String) (decode : Decoder α) :
    Except DecodeError α :=
  match field? name fields with
  | some v => decode v
  | none => .error (.missing name)

def getOr {α : Type} (fields : List (String × Json)) (name : String) (absent : α)
    (decode : Decoder α) : Except DecodeError α :=
  match field? name fields with
  | some v => decode v
  | none => .ok absent

end Records

section Tagged

/-- How the tag of a variant is written: by name only, or by its place too. -/
inductive TagForm
  | name
  | nameOrIndex
deriving DecidableEq, Repr

def asTag (form : TagForm) (known : List String) : Decoder String
  | .string s => if known.contains s then .ok s else .error (.unknownVariant s known)
  | .integer n =>
    if form = .nameOrIndex ∧ 0 ≤ n then
      match known[n.toNat]? with
      | some s => .ok s
      | none => .error (.unknownIndex n known.length)
    else .error (.wrongType (.integer n) .variantName)
  | v => .error (.wrongType v .variantName)

def splitTag (tag : String) (decode : Decoder String) :
    Option String → List (String × Json) → Except DecodeError (Option String × List (String × Json))
  | found, [] => .ok (found, [])
  | found, (n, v) :: fs =>
    if n = tag then
      match found with
      | some _ => .error (.duplicate tag)
      | none =>
        match decode v with
        | .error e => .error e
        | .ok t => splitTag tag decode (some t) fs
    else (splitTag tag decode found fs).map fun (t, rest) => (t, (n, v) :: rest)

/-- The variant that the field `type` names and that variant's checked fields. In an array the tag
comes first. -/
def taggedFields (name : String) (form : TagForm) (variants : List (String × Layout)) :
    Decoder (String × List (String × Json)) :=
  let known := variants.map (·.1)
  let layout (t : String) : Layout := (variants.lookup t).getD ⟨name, []⟩
  fun
  | .object fields => do
    let (tag, rest) ← splitTag "type" (asTag form known) none fields
    match tag with
    | none => .error (.missing "type")
    | some t => (layout t).ofFields rest |>.map fun fs => (t, fs)
  | .array [] => .error (.missing "type")
  | .array (v :: items) => do
    let t ← asTag form known v
    let fs ← (layout t).ofItems items
    if (layout t).arity < items.length then
      .error (.tooLongVariant items.length (layout t).arity)
    else pure (t, fs)
  | v => .error (.wrongType v (.tagged name))

end Tagged

section Texts

/-- Why a text is not decoded: it is not one JSON value, an array in it has items left over, or the
value is not of the type. -/
inductive TextError
  | notJson
  | leftOver
  | undecodable (e : DecodeError)

def TextError.message : TextError → String
  | .notJson => "not one JSON value"
  | .leftOver => "trailing characters"
  | .undecodable e => e.message

/-- Decodes JSON text. The text must be well formed throughout; the parts that the type ignores
need not have a value, unless the wanted ones turn out to be of the wrong type. -/
def decodeText {α : Type} (wanted : Selection) (decode : Decoder α) (bs : Bytes) :
    Except TextError α :=
  match Document.read? bs with
  | none => .error .notJson
  | some d =>
    match d.build? wanted maxDepth with
    | none => .error .notJson
    | some v =>
      match decode v with
      | .ok a => .ok a
      | .error e =>
        if (d.build? .whole maxDepth).isNone then .error .notJson
        else match e with
          | .tooLong _ => .error .leftOver
          | e => .error (.undecodable e)

end Texts

end DraftKeeper.Json
