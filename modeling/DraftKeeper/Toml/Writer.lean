import DraftKeeper.Json.Printer

namespace DraftKeeper.Toml

def longestRun (q : Char) (cs : List Char) : Nat :=
  (cs.foldl (fun (best, run) c =>
    if c = q then (max best (run + 1), run + 1) else (best, 0)) (0, 0)).1

def needsCode (c : Char) : Bool :=
  c ≠ '\t' && c ≠ '\n' && (c.toNat < 0x20 || c.toNat = 0x7F)

def unicodeEscape (c : Char) : List Char :=
  let digits := (Nat.toDigits 16 c.toNat).map Char.toUpper
  '\\' :: 'u' :: List.replicate (4 - digits.length) '0' ++ digits

/-- The characters of a string between double quotes. In several lines a line feed stands for
itself, and of every three quotes in a row one is escaped. -/
def escaped (multiline : Bool) : Nat → List Char → List Char
  | _, [] => []
  | run, c :: cs =>
    if c = '"' then
      if run < (if multiline then 2 else 0) then '"' :: escaped multiline (run + 1) cs
      else '\\' :: '"' :: escaped multiline 0 cs
    else
      let text :=
        if c = '\\' then ['\\', '\\']
        else if c = '\t' then ['\\', 't']
        else if c = '\n' then (if multiline then ['\n'] else ['\\', 'n'])
        else if c = '\r' then ['\\', 'r']
        else if c.toNat = 8 then ['\\', 'b']
        else if c.toNat = 12 then ['\\', 'f']
        else if needsCode c then unicodeEscape c
        else [c]
      text ++ escaped multiline 0 cs

def threeOf (q : Char) : List Char := [q, q, q]

/-- A string of several lines starts on a line of its own if it has a line feed. -/
def opening (hasNewline : Bool) (q : Char) : List Char :=
  threeOf q ++ if hasNewline then ['\n'] else []

/-- The plainest form that needs no escapes is taken: one line between double quotes, then between single quotes,
then several lines; escapes are used where nothing else holds the string. -/
def stringText (s : String) : String :=
  let cs := s.toList
  let hasCode := cs.any needsCode
  let hasEscape := cs.contains '\\'
  let hasNewline := cs.contains '\n'
  let singles := longestRun '\'' cs
  let doubles := longestRun '"' cs
  String.ofList <|
    if !hasCode && !hasEscape && doubles = 0 && !hasNewline then
      '"' :: escaped false 0 cs ++ ['"']
    else if !hasCode && singles = 0 && !hasNewline then '\'' :: cs ++ ['\'']
    else if !hasCode && !hasEscape && doubles ≤ 2 then
      opening hasNewline '"' ++ escaped true 0 cs ++ threeOf '"'
    else if !hasCode && singles ≤ 2 then opening hasNewline '\'' ++ cs ++ threeOf '\''
    else if hasNewline then opening true '"' ++ escaped true 0 cs ++ threeOf '"'
    else '"' :: escaped false 0 cs ++ ['"']

end DraftKeeper.Toml
