import DraftKeeper.TextUnit

namespace DraftKeeper

/-- An edit of a text at an offset. A removal whose count is not positive removes nothing. -/
inductive Delta
  | insert (offset : Nat) (text : String)
  | remove (offset : Nat) (count : Int)
deriving DecidableEq, Repr

structure OutOfRange where
  offset : Nat
  length : Nat
  unit : TextUnit
deriving DecidableEq, Repr

def OutOfRange.message (e : OutOfRange) : String :=
  let offset := toString e.offset
  let length := toString e.length
  let unit := match e.unit with
    | .char => "Char"
    | .utf16 => "Utf16"
  s!"offset {offset} is out of range for text of {length} {unit} units"

namespace Delta

def offset : Delta → Nat
  | .insert n _ | .remove n _ => n

def isEffective : Delta → Bool
  | .insert _ text => !text.isEmpty
  | .remove _ count => decide (0 < count)

def atHead (u : TextUnit) : Delta → List Char → List Char
  | .insert _ text, cs => text.toList ++ cs
  | .remove _ count, cs => u.drop count.toNat cs

/-- The text after the edit, or nothing if the edit has no effect. The offset of an edit that has
one must lie in the text; a removal past the end stops there. -/
def splice (d : Delta) (u : TextUnit) (text : String) : Except OutOfRange (Option String) :=
  if d.isEffective then
    match u.splitAt? d.offset text.toList with
    | none => .error ⟨d.offset, u.length text.toList, u⟩
    | some (l, r) => .ok (some (String.ofList (l ++ d.atHead u r)))
  else .ok none

end Delta

end DraftKeeper
