import DraftKeeper.Json.Document
import DraftKeeper.Time.Civil
import DraftKeeper.Toml.Node

namespace DraftKeeper.Toml

abbrev Reader (α : Type) := List Char → Option (α × List Char)

/-- Arrays and inline tables nest at most this deep, and a key has no more parts. -/
def maxDepth : Nat := 79

section Characters

def isSpace (c : Char) : Bool := c = ' ' || c = '\t'

def skipSpace (cs : List Char) : List Char := cs.dropWhile isSpace

def isBareKey (c : Char) : Bool := c.isAlphanum || c = '-' || c = '_'

def isPlain (c : Char) : Bool := c = '\t' || (0x20 ≤ c.toNat && c.toNat ≠ 0x7F)

def hexDigit? (c : Char) : Option Nat :=
  if c.isDigit then some (c.toNat - 48)
  else if 'a' ≤ c ∧ c ≤ 'f' then some (c.toNat - 87)
  else if 'A' ≤ c ∧ c ≤ 'F' then some (c.toNat - 55)
  else none

def digit? (base : Nat) (c : Char) : Option Nat := (hexDigit? c).filter (· < base)

def newline? : List Char → Option (List Char)
  | '\n' :: cs => some cs
  | '\r' :: '\n' :: cs => some cs
  | _ => none

def skipComment : List Char → List Char
  | '#' :: cs => cs.dropWhile isPlain
  | cs => cs

def endLine (cs : List Char) : Option (List Char) :=
  match skipComment (skipSpace cs) with
  | [] => some []
  | cs => newline? cs

def skipLines : Nat → List Char → List Char
  | 0, cs => cs
  | fuel + 1, cs =>
    match skipSpace cs with
    | '#' :: cs => skipLines fuel (cs.dropWhile isPlain)
    | cs =>
      match newline? cs with
      | some cs => skipLines fuel cs
      | none => cs

end Characters

section Strings

def escape : Reader Char
  | 'b' :: cs => some (Char.ofNat 8, cs)
  | 't' :: cs => some ('\t', cs)
  | 'n' :: cs => some ('\n', cs)
  | 'f' :: cs => some (Char.ofNat 12, cs)
  | 'r' :: cs => some ('\r', cs)
  | '"' :: cs => some ('"', cs)
  | '\\' :: cs => some ('\\', cs)
  | 'u' :: cs => codePoint 4 cs
  | 'U' :: cs => codePoint 8 cs
  | _ => none
where
  codePoint (width : Nat) (cs : List Char) : Option (Char × List Char) :=
    let ds := (cs.take width).filterMap hexDigit?
    let n := ds.foldl (fun n d => 16 * n + d) 0
    if ds.length = width ∧ n.isValidChar then some (Char.ofNat n, cs.drop width) else none

def basic : Nat → Reader (List Char)
  | 0, _ => none
  | _, [] => none
  | _ + 1, '"' :: cs => some ([], cs)
  | fuel + 1, '\\' :: cs => do
    let (c, cs) ← escape cs
    let (s, cs) ← basic fuel cs
    pure (c :: s, cs)
  | fuel + 1, c :: cs =>
    if isPlain c then (basic fuel cs).map fun (s, cs) => (c :: s, cs) else none

def literal : Reader (List Char)
  | [] => none
  | '\'' :: cs => some ([], cs)
  | c :: cs => if isPlain c then (literal cs).map fun (s, cs) => (c :: s, cs) else none

def quotes (q : Char) (cs : List Char) : Nat × List Char :=
  ((cs.takeWhile (· = q)).length, cs.dropWhile (· = q))

/-- A backslash at the end of a line takes all blanks and line ends after it along. -/
def skipFolded : Nat → List Char → List Char
  | 0, cs => cs
  | fuel + 1, cs =>
    match newline? (skipSpace cs) with
    | some cs => skipFolded fuel cs
    | none => skipSpace cs

/-- The rest of a string of several lines. Three to five quotes end it, those beyond three being
its last characters; a line end is read as a line feed. -/
def multiline (q : Char) (escapes : Bool) : Nat → Reader (List Char)
  | 0, _ => none
  | _, [] => none
  | fuel + 1, c :: cs =>
    if c = q then
      let (n, rest) := quotes q (c :: cs)
      if 5 < n then none
      else if 3 ≤ n then some (List.replicate (n - 3) q, rest)
      else (multiline q escapes fuel rest).map fun (s, r) => (List.replicate n q ++ s, r)
    else if c = '\\' ∧ escapes then
      match newline? (skipSpace cs) with
      | some rest => multiline q escapes fuel (skipFolded rest.length rest)
      | none => do
        let (e, rest) ← escape cs
        let (s, r) ← multiline q escapes fuel rest
        pure (e :: s, r)
    else match newline? (c :: cs) with
      | some rest => (multiline q escapes fuel rest).map fun (s, r) => ('\n' :: s, r)
      | none =>
        if isPlain c then (multiline q escapes fuel cs).map fun (s, r) => (c :: s, r) else none

def skipFirst (cs : List Char) : List Char := (newline? cs).getD cs

def string : Reader String
  | '"' :: '"' :: '"' :: cs =>
    (multiline '"' true (cs.length + 1) (skipFirst cs)).map fun (s, r) => (String.ofList s, r)
  | '\'' :: '\'' :: '\'' :: cs =>
    (multiline '\'' false (cs.length + 1) (skipFirst cs)).map fun (s, r) => (String.ofList s, r)
  | '"' :: cs => (basic (cs.length + 1) cs).map fun (s, r) => (String.ofList s, r)
  | '\'' :: cs => (literal cs).map fun (s, r) => (String.ofList s, r)
  | _ => none

end Strings

section Keys

def simpleKey : Reader String
  | '"' :: cs => (basic (cs.length + 1) cs).map fun (s, r) => (String.ofList s, r)
  | '\'' :: cs => (literal cs).map fun (s, r) => (String.ofList s, r)
  | cs =>
    let k := cs.takeWhile isBareKey
    if k.isEmpty then none else some (String.ofList k, cs.dropWhile isBareKey)

def keyParts : Nat → Reader (List String)
  | 0, _ => none
  | fuel + 1, cs => do
    let (k, cs) ← simpleKey (skipSpace cs)
    match skipSpace cs with
    | '.' :: cs =>
      let (ks, cs) ← keyParts fuel cs
      pure (k :: ks, cs)
    | cs => pure ([k], cs)

def key : Reader (List String × String) := fun cs => do
  let (ks, cs) ← keyParts maxDepth cs
  match ks.getLast? with
  | some k => pure ((ks.dropLast, k), cs)
  | none => none

end Keys

section Numbers

/-- Digits of a base; an underscore may stand between two of them. -/
def digits (base : Nat) : List Char → List Nat × List Char
  | [] => ([], [])
  | c :: cs =>
    match digit? base c with
    | none => ([], c :: cs)
    | some d =>
      match cs with
      | '_' :: c' :: cs' =>
        if (digit? base c').isSome then
          let (ds, rest) := digits base (c' :: cs')
          (d :: ds, rest)
        else ([d], cs)
      | cs =>
        let (ds, rest) := digits base cs
        (d :: ds, rest)

def value (base : Nat) (ds : List Nat) : Nat := ds.foldl (fun n d => base * n + d) 0

def sign : List Char → Bool × List Char
  | '-' :: cs => (true, cs)
  | '+' :: cs => (false, cs)
  | cs => (false, cs)

/-- A decimal integer: a zero alone, or digits that do not start with one. -/
def decimal (cs : List Char) : Option ((Bool × Nat) × List Char) :=
  let (negative, cs) := sign cs
  match digits 10 cs with
  | ([], _) => none
  | (0 :: _, _) => some ((negative, 0), cs.drop 1)
  | (ds, rest) => some ((negative, value 10 ds), rest)

def fits (n : Int) : Bool := -0x8000000000000000 ≤ n && n < 0x8000000000000000

def based (base : Nat) (cs : List Char) : Option (Int × List Char) :=
  match digits base cs with
  | ([], _) => none
  | (ds, rest) => if fits (value base ds) then some (value base ds, rest) else none

def integer : Reader Int
  | '0' :: 'x' :: cs => based 16 cs
  | '0' :: 'o' :: cs => based 8 cs
  | '0' :: 'b' :: cs => based 2 cs
  | cs => do
    let ((negative, n), rest) ← decimal cs
    let n : Int := if negative then -n else n
    if fits n then pure (n, rest) else none

def exponent? (cs : List Char) : Option (Int × List Char) :=
  match cs with
  | c :: cs =>
    if c = 'e' ∨ c = 'E' then
      let (negative, cs) := sign cs
      match digits 10 cs with
      | ([], _) => none
      | (ds, rest) => some (if negative then -(value 10 ds : Int) else value 10 ds, rest)
    else none
  | [] => none

def overflows (n : Nat) (e : Int) : Bool :=
  n ≠ 0 && (if 400 < e then true
    else if 0 ≤ e then !(Float.ofScientific (n * Nat.pow 10 e.toNat) false 0).isFinite
    else !(Float.ofScientific n true (-e).toNat).isFinite)

/-- A number with a fraction, an exponent or both. One that is too great is refused. -/
def float (cs : List Char) : Option (List Char) := do
  let ((negative, n), rest) ← decimal cs
  let (m, places, rest, hasFraction) ← match rest with
    | '.' :: r =>
      match digits 10 r with
      | ([], _) => none
      | (ds, r) => some (n * Nat.pow 10 ds.length + value 10 ds, ds.length, r, true)
    | r => some (n, 0, r, false)
  match exponent? rest with
  | some (e, r) => if !negative && overflows m (e - places) then none else some r
  | none =>
    if !hasFraction || (!negative && overflows m (-(places : Int))) then none else some rest

def special (cs : List Char) : Option (List Char) :=
  match (sign cs).2 with
  | 'i' :: 'n' :: 'f' :: cs => some cs
  | 'n' :: 'a' :: 'n' :: cs => some cs
  | _ => none

end Numbers

section Dates

def field (width least greatest : Nat) (cs : List Char) : Option (Nat × List Char) :=
  let ds := (cs.take width).filterMap (digit? 10)
  let n := value 10 ds
  if ds.length = width ∧ least ≤ n ∧ n ≤ greatest then some (n, cs.drop width) else none

def mark (m : Char) : List Char → Option (List Char)
  | c :: cs => if c = m then some cs else none
  | [] => none

def date (cs : List Char) : Option (List Char) := do
  let (year, cs) ← field 4 0 9999 cs
  let cs ← mark '-' cs
  let (month, cs) ← field 2 1 12 cs
  let cs ← mark '-' cs
  let (day, cs) ← field 2 1 31 cs
  if (Time.Date.isValid ⟨year, month, day⟩) then some cs else none

def time (cs : List Char) : Option (List Char) := do
  let (_, cs) ← field 2 0 23 cs
  let cs ← mark ':' cs
  let (_, cs) ← field 2 0 59 cs
  let cs ← mark ':' cs
  let (_, cs) ← field 2 0 60 cs
  match cs with
  | '.' :: c :: rest => if c.isDigit then some (rest.dropWhile Char.isDigit) else some cs
  | cs => some cs

def zone (cs : List Char) : Option (List Char) :=
  match cs with
  | [] => some []
  | c :: rest =>
    if c = 'Z' ∨ c = 'z' then some rest
    else if c = '+' ∨ c = '-' then do
      let (_, rest) ← field 2 0 23 rest
      let rest ← mark ':' rest
      let (_, rest) ← field 2 0 59 rest
      pure rest
    else some cs

def dateTime (cs : List Char) : Option (List Char) :=
  match date cs with
  | some rest =>
    match rest with
    | c :: after =>
      if c = 'T' ∨ c = 't' ∨ c = ' ' then
        match time after with
        | some after => zone after
        | none => some rest
      else some rest
    | [] => some []
  | none => time cs

def numeric (cs : List Char) : Option (Node × List Char) :=
  match dateTime cs with
  | some rest => some (.scalar .dateTime, rest)
  | none =>
    match float cs with
    | some rest => some (.scalar .float, rest)
    | none =>
      match special cs with
      | some rest => some (.scalar .float, rest)
      | none => (integer cs).map fun (n, rest) => (.scalar (.integer n), rest)

end Dates

section Values

mutual

def readNode : Nat → Nat → Reader Node
  | 0, _, _ => none
  | fuel + 1, depth, cs =>
    match cs with
    | '"' :: _ | '\'' :: _ => (string cs).map fun (s, r) => (.scalar (.string s), r)
    | 't' :: 'r' :: 'u' :: 'e' :: r => some (.scalar (.bool true), r)
    | 'f' :: 'a' :: 'l' :: 's' :: 'e' :: r => some (.scalar (.bool false), r)
    | '[' :: r =>
      match depth with
      | 0 => none
      | depth + 1 => (readArray fuel depth r).map fun (items, r) => (.array items, r)
    | '{' :: r =>
      match depth with
      | 0 => none
      | depth + 1 =>
        match skipSpace r with
        | '}' :: r => some (.inlined [], r)
        | r => (readInlined fuel depth (.defined, []) r).map fun (t, r) => (.inlined t.2, r)
    | cs => numeric cs

def readArray : Nat → Nat → Reader (List Node)
  | 0, _, _ => none
  | fuel + 1, depth, cs =>
    match skipLines cs.length cs with
    | ']' :: r => some ([], r)
    | cs =>
      match readNode fuel depth cs with
      | none => none
      | some (v, r) =>
        match skipLines r.length r with
        | ']' :: r => some ([v], r)
        | ',' :: r => (readArray fuel depth r).map fun (vs, r) => (v :: vs, r)
        | _ => none

/-- The entries of an inline table, added to those before them, up to its closing brace. -/
def readInlined : Nat → Nat → Table → Reader Table
  | 0, _, _, _ => none
  | fuel + 1, depth, t, cs =>
    match key cs with
    | some ((path, k), '=' :: r) =>
      match readNode fuel depth (skipSpace r) with
      | none => none
      | some (v, r) =>
        match addEntry path k v t with
        | none => none
        | some t =>
          match skipSpace r with
          | '}' :: r => some (t, r)
          | ',' :: r => readInlined fuel depth t r
          | _ => none
    | _ => none

end

end Values

section Documents

/-- A document read so far: its root, and the header that the next entries belong to. -/
structure Reading where
  root : Table
  header : List String

def readEntry (s : Reading) (cs : List Char) : Option (Reading × List Char) :=
  match key cs with
  | some ((path, k), '=' :: r) => do
    let (v, r) ← readNode (2 * r.length + 2) maxDepth (skipSpace r)
    let root ← within .implied s.header (addEntry path k v) s.root
    let r ← endLine r
    pure ({ s with root }, r)
  | _ => none

def readHeader (s : Reading) (cs : List Char) : Option (Reading × List Char) :=
  match cs with
  | '[' :: '[' :: r => do
    let ((path, k), r) ← key r
    let r ← (mark ']' r).bind (mark ']')
    let root ← addTable path k s.root
    let r ← endLine r
    pure (⟨root, path ++ [k]⟩, r)
  | '[' :: r => do
    let ((path, k), r) ← key r
    let r ← mark ']' r
    let root ← defineTable path k s.root
    let r ← endLine r
    pure (⟨root, path ++ [k]⟩, r)
  | _ => none

def readLines : Nat → Reading → List Char → Option Reading
  | 0, _, _ => none
  | fuel + 1, s, cs =>
    match skipSpace cs with
    | [] => some s
    | '[' :: r => do
      let (s, r) ← readHeader s ('[' :: r)
      readLines fuel s r
    | '#' :: r => do
      let r ← endLine ('#' :: r)
      readLines fuel s r
    | r =>
      match newline? r with
      | some r => readLines fuel s r
      | none => do
        let (s, r) ← readEntry s r
        readLines fuel s r

def skipMark : List Char → List Char
  | c :: cs => if c.toNat = 0xFEFF then cs else c :: cs
  | [] => []

/-- The entries of a document in TOML 1.0, or nothing if it is not well formed. -/
def read? (text : String) : Option Entries :=
  let cs := skipMark text.toList
  (readLines (cs.length + 1) ⟨(.defined, []), []⟩ cs).map fun s => s.root.2

end Documents

end DraftKeeper.Toml
