import DraftKeeper.Text.Utf8

namespace DraftKeeper.Framing

def lineFeed : UInt8 := 0x0A

def carriageReturn : UInt8 := 0x0D

/-- The lines that end in a stream, without their line feeds, and the line begun at its end. -/
def split : Bytes → List Bytes × Bytes
  | [] => ([], [])
  | b :: bs =>
    match split bs with
    | (lines, begun) =>
      if b = lineFeed then ([] :: lines, begun)
      else match lines with
        | [] => ([], b :: begun)
        | l :: ls => ((b :: l) :: ls, begun)

def trimEnd (line : Bytes) : Bytes :=
  (line.reverse.dropWhile fun b => b = lineFeed || b = carriageReturn).reverse

def isSpace (b : UInt8) : Bool := b = 0x20 || b = 0x09 || b = 0x0A || b = 0x0C || b = 0x0D

/-- The request that a line holds, if it is not blank. -/
def request? (line : Bytes) : Option Bytes :=
  let line := trimEnd line
  if line.all isSpace then none else some line

/-- The line begun, and whether some of it came since the last interruption. -/
structure LineReader where
  begun : Bytes
  heard : Bool
deriving DecidableEq, Repr

namespace LineReader

def empty : LineReader := ⟨[], false⟩

def feed (r : LineReader) (bs : Bytes) : List Bytes × LineReader :=
  match split (r.begun ++ bs) with
  | ([], begun) => ([], ⟨begun, r.heard || !bs.isEmpty⟩)
  | (lines, begun) => (lines, ⟨begun, !begun.isEmpty⟩)

def interrupt (r : LineReader) : LineReader := { r with heard := false }

def last? (r : LineReader) : Option Bytes := if r.heard then some r.begun else none

end LineReader

end DraftKeeper.Framing
