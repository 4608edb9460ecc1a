namespace DraftKeeper.Text.Blank

def ranges : List (Nat × Nat) :=
  [(0x09, 0x0D), (0x20, 0x20), (0x85, 0x85), (0xA0, 0xA0), (0x1680, 0x1680), (0x2000, 0x200A),
   (0x2028, 0x2029), (0x202F, 0x202F), (0x205F, 0x205F), (0x3000, 0x3000)]

/-- White space as Unicode's property `White_Space` has it. -/
def isBlank (c : Char) : Bool := ranges.any fun r => r.1 ≤ c.toNat && c.toNat ≤ r.2

def allBlank (s : String) : Bool := s.toList.all isBlank

def trimStart (cs : List Char) : List Char := cs.dropWhile isBlank

example : [' ', '\t', '\n', '\r', Char.ofNat 0x3000].all isBlank = true := by decide

example : [Char.ofNat 0x200B, Char.ofNat 0xFEFF, '.'].any isBlank = false := by decide

end DraftKeeper.Text.Blank
