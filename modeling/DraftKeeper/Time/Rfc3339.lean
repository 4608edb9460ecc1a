import DraftKeeper.Text.Blank
import DraftKeeper.Time.Civil

namespace DraftKeeper.Time

/-- A point in time by its day, second of the day and nanosecond; in a leap second the nanoseconds
go on beyond a thousand million. -/
structure Instant where
  day : Int
  second : Nat
  nanosecond : Nat
deriving DecidableEq, Repr

/-- The point in time a number of seconds and nanoseconds after the beginning of day 0. -/
def Instant.ofSeconds (seconds : Int) (nanosecond : Nat) : Instant :=
  ⟨seconds / 86400, (seconds % 86400).toNat, nanosecond⟩

inductive TimeError
  | tooShort
  | invalid
  | outOfRange
  | tooLong
  | impossible
deriving DecidableEq, Repr

def TimeError.message : TimeError → String
  | .tooShort => "premature end of input"
  | .invalid => "input contains invalid characters"
  | .outOfRange => "input is out of range"
  | .tooLong => "trailing input"
  | .impossible => "no possible date and time matching input"

namespace Rfc3339

abbrev Reading (α : Type) := List Char → Except TimeError (α × List Char)

def digit? (c : Char) : Option Nat := if c.isDigit then some (c.toNat - 48) else none

def digits : Nat → List Char → List Nat × List Char
  | 0, cs => ([], cs)
  | _ + 1, [] => ([], [])
  | n + 1, c :: cs =>
    match digit? c with
    | some d => (d :: (digits n cs).1, (digits n cs).2)
    | none => ([], c :: cs)

def value (ds : List Nat) : Nat := ds.foldl (fun n d => 10 * n + d) 0

def number (width : Nat) : Reading Nat
  | [] => .error .tooShort
  | c :: cs =>
    match digits width (c :: cs) with
    | ([], _) => .error .invalid
    | (ds, rest) => if 0x8000000000000000 ≤ value ds then .error .outOfRange else .ok (value ds, rest)

def part (width least greatest : Nat) : Reading Nat := fun cs => do
  let (n, rest) ← number width (Text.Blank.trimStart cs)
  if least ≤ n ∧ n ≤ greatest then pure (n, rest) else .error .outOfRange

/-- Four digits at most without a sign, any number of them with one. -/
def year : Reading Int := fun cs => do
  let (n, rest) ← match Text.Blank.trimStart cs with
    | '-' :: cs => (number cs.length cs).map fun (n, rest) => (-(n : Int), rest)
    | '+' :: cs => (number cs.length cs).map fun (n, rest) => ((n : Int), rest)
    | cs => (number 4 cs).map fun (n, rest) => ((n : Int), rest)
  if -0x80000000 ≤ n ∧ n < 0x80000000 then pure (n, rest) else .error .outOfRange

def mark (m : Char) : List Char → Except TimeError (List Char)
  | [] => .error .tooShort
  | c :: cs => if c = m then .ok cs else .error .invalid

def spacedMark (m : Char) (cs : List Char) : Except TimeError (List Char) :=
  mark m (Text.Blank.trimStart cs)

/-- The nanoseconds after a point, of which digits beyond the ninth do not count. -/
def fraction : Reading Nat
  | '.' :: cs =>
    match cs with
    | [] => .error .tooShort
    | cs =>
      match digits 9 cs with
      | ([], _) => .error .invalid
      | (ds, rest) => .ok (value ds * Nat.pow 10 (9 - ds.length), rest.dropWhile Char.isDigit)
  | cs => .ok (0, cs)

def pair : List Char → Except TimeError (Char × Char × List Char)
  | a :: b :: cs => .ok (a, b, cs)
  | [a] => if a.utf8Size < 2 then .error .tooShort else .error .invalid
  | [] => .error .tooShort

/-- The offset from UTC in seconds: a letter, or a sign, hours and minutes. -/
def offset : Reading Int := fun cs =>
  match cs with
  | [] => .error .tooShort
  | 'Z' :: rest | 'z' :: rest => .ok (0, rest)
  | sign :: rest => do
    let negative ←
      if sign = '+' then pure false
      else if sign = '-' ∨ sign.toNat = 0x2212 then pure true
      else .error .invalid
    let (h₁, h₂, rest) ← pair rest
    let (some h₁, some h₂) := (digit? h₁, digit? h₂) | .error .invalid
    let rest := rest.dropWhile fun c => c = ':' || Text.Blank.isBlank c
    let (m₁, m₂, rest) ← pair rest
    let (some m₁, some m₂) := (digit? m₁, digit? m₂) | .error .invalid
    if 6 ≤ m₁ then .error .outOfRange
    else
      let seconds : Int := ((10 * h₁ + h₂) * 60 + (10 * m₁ + m₂)) * 60
      pure (if negative then -seconds else seconds, rest)

def zone : Reading Int := fun cs =>
  match cs with
  | u :: t :: c :: rest =>
    if [u, t, c].map Char.toUpper = ['U', 'T', 'C'] then .ok (0, rest) else offset cs
  | cs => offset cs

def leastYear : Int := -262143

def greatestYear : Int := 262142

def inReach (d : Date) : Bool := leastYear ≤ d.year && d.year ≤ greatestYear

def instant (date : Date) (hour minute second nanosecond : Nat) (offset : Int) :
    Except TimeError Instant :=
  if !date.isValid || !inReach date then .error .outOfRange
  else if offset ≤ -86400 ∨ 86400 ≤ offset then .error .outOfRange
  else
    let leap := second = 60
    let seconds : Int := ((hour * 60 + minute) * 60 + if leap then 59 else second : Nat)
    let total := date.toDays * 86400 + seconds - offset
    let day := total / 86400
    if inReach (Date.ofDays day) then
      .ok ⟨day, (total % 86400).toNat, if leap then nanosecond + 1000000000 else nanosecond⟩
    else .error .impossible

def parse (s : String) : Except TimeError Instant := do
  let (year, cs) ← year s.toList
  let cs ← spacedMark '-' cs
  let (month, cs) ← part 2 1 12 cs
  let cs ← spacedMark '-' cs
  let (day, cs) ← part 2 1 31 cs
  let cs ← match cs with
    | [] => .error .tooShort
    | c :: cs => if c = 'T' ∨ c = 't' ∨ c = ' ' then .ok cs else .error .invalid
  let (hour, cs) ← part 2 0 23 cs
  let cs ← spacedMark ':' cs
  let (minute, cs) ← part 2 0 59 cs
  let cs ← spacedMark ':' cs
  let (second, cs) ← part 2 0 60 cs
  let (nanosecond, cs) ← fraction cs
  let (offset, cs) ← zone (Text.Blank.trimStart cs)
  if (Text.Blank.trimStart cs).isEmpty then
    instant ⟨year, month, day⟩ hour minute second nanosecond offset
  else .error .tooLong

def padded (width n : Nat) : String :=
  let digits := Nat.toDigits 10 n
  String.ofList (List.replicate (width - digits.length) '0' ++ digits)

def yearText (year : Int) : String :=
  if 0 ≤ year ∧ year ≤ 9999 then padded 4 year.toNat
  else (if year < 0 then "-" else "+") ++ padded 4 year.natAbs

def fractionText (nanosecond : Nat) : String :=
  if nanosecond = 0 then ""
  else if nanosecond % 1000000 = 0 then "." ++ padded 3 (nanosecond / 1000000)
  else if nanosecond % 1000 = 0 then "." ++ padded 6 (nanosecond / 1000)
  else "." ++ padded 9 nanosecond

/-- Text in UTC, with the fewest of 0, 3, 6 or 9 places that hold the fraction. -/
def render (t : Instant) : String :=
  let date := Date.ofDays t.day
  let leap := 1000000000 ≤ t.nanosecond
  let second := t.second % 60 + if leap then 1 else 0
  let nanosecond := if leap then t.nanosecond - 1000000000 else t.nanosecond
  yearText date.year ++ "-" ++ padded 2 date.month ++ "-" ++ padded 2 date.day ++ "T" ++
    padded 2 (t.second / 3600) ++ ":" ++ padded 2 (t.second / 60 % 60) ++ ":" ++
    padded 2 second ++ fractionText nanosecond ++ "Z"

end Rfc3339

end DraftKeeper.Time
