namespace DraftKeeper

abbrev Bytes := List UInt8

namespace Text.Utf8

def encodeChars (cs : List Char) : Bytes := cs.flatMap String.utf8EncodeChar

def encode (s : String) : Bytes := encodeChars s.toList

def replacement : Char := Char.ofNat 0xFFFD

/-- Where a reader stands between two bytes: between characters, or inside one whose value so far
is `value`, with `due` bytes to come and the next of them in `low … high`. -/
inductive Pending
  | idle
  | inside (value due : Nat) (low high : UInt8)
deriving DecidableEq, Repr

def lead (b : UInt8) : List Char × Pending :=
  if b < 0x80 then ([Char.ofNat b.toNat], .idle)
  else if b < 0xC2 then ([replacement], .idle)
  else if b < 0xE0 then ([], .inside (b.toNat - 0xC0) 1 0x80 0xBF)
  else if b = 0xE0 then ([], .inside 0 2 0xA0 0xBF)
  else if b = 0xED then ([], .inside 0xD 2 0x80 0x9F)
  else if b < 0xF0 then ([], .inside (b.toNat - 0xE0) 2 0x80 0xBF)
  else if b = 0xF0 then ([], .inside 0 3 0x90 0xBF)
  else if b < 0xF4 then ([], .inside (b.toNat - 0xF0) 3 0x80 0xBF)
  else if b = 0xF4 then ([], .inside 4 3 0x80 0x8F)
  else ([replacement], .idle)

/-- A byte that cannot go on with the character begun ends it and is read again as a first byte. -/
def step : Pending → UInt8 → List Char × Pending
  | .idle, b => lead b
  | .inside value due low high, b =>
    if low ≤ b ∧ b ≤ high then
      let value := value * 64 + (b.toNat - 0x80)
      if due ≤ 1 then ([Char.ofNat value], .idle) else ([], .inside value (due - 1) 0x80 0xBF)
    else (replacement :: (lead b).1, (lead b).2)

def decodeFrom : Pending → Bytes → List Char
  | .idle, [] => []
  | .inside .., [] => [replacement]
  | p, b :: bs => (step p b).1 ++ decodeFrom (step p b).2 bs

def decodeChars (bs : Bytes) : List Char := decodeFrom .idle bs

/-- Decoding never fails: each maximal start of a well-formed sequence that breaks off, and each byte that can
start none, becomes U+FFFD. -/
def decode (bs : Bytes) : String := String.ofList (decodeChars bs)

def decode? (bs : Bytes) : Option String :=
  if encodeChars (decodeChars bs) = bs then some (decode bs) else none

end Text.Utf8

end DraftKeeper
