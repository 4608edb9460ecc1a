namespace DraftKeeper

/-- What an editor offset counts. An offset inside a surrogate pair lies nowhere, and a count that ends inside
one takes the whole character. -/
inductive TextUnit
  | char
  | utf16
deriving DecidableEq, Repr

namespace TextUnit

def width : TextUnit → Char → Nat
  | .char, _ => 1
  | .utf16, c => if c.toNat < 0x10000 then 1 else 2

def length (u : TextUnit) (cs : List Char) : Nat := cs.foldr (fun c n => u.width c + n) 0

/-- The characters before and after offset `n`, if a character starts or the text ends there. -/
def splitAt? (u : TextUnit) : Nat → List Char → Option (List Char × List Char)
  | 0, cs => some ([], cs)
  | _ + 1, [] => none
  | n + 1, c :: cs =>
    if n + 1 < u.width c then none
    else (u.splitAt? (n + 1 - u.width c) cs).map fun (l, r) => (c :: l, r)

/-- The fewest leading characters that make up `n` units, all of them if there are not enough. -/
def take (u : TextUnit) : Nat → List Char → List Char
  | 0, _ => []
  | _ + 1, [] => []
  | n + 1, c :: cs => c :: u.take (n + 1 - u.width c) cs

def drop (u : TextUnit) : Nat → List Char → List Char
  | 0, cs => cs
  | _ + 1, [] => []
  | n + 1, c :: cs => u.drop (n + 1 - u.width c) cs

theorem take_append_drop (u : TextUnit) (n : Nat) (cs : List Char) :
    u.take n cs ++ u.drop n cs = cs := by
  induction cs generalizing n with
  | nil => cases n <;> rfl
  | cons c cs ih =>
    cases n with
    | zero => rfl
    | succ n => simp only [take, drop, List.cons_append, ih]

theorem splitAt?_eq_some {u : TextUnit} {n : Nat} {cs l r : List Char}
    (h : u.splitAt? n cs = some (l, r)) : l ++ r = cs ∧ u.length l = n := by
  induction cs generalizing n l with
  | nil =>
    cases n with
    | zero =>
      obtain ⟨rfl, rfl⟩ := Prod.mk.inj (Option.some.inj h)
      exact ⟨rfl, rfl⟩
    | succ n => cases h
  | cons c cs ih =>
    cases n with
    | zero =>
      obtain ⟨rfl, rfl⟩ := Prod.mk.inj (Option.some.inj h)
      exact ⟨rfl, rfl⟩
    | succ n =>
      unfold splitAt? at h
      split at h
      · cases h
      · next hw =>
        obtain ⟨⟨l', r'⟩, hs, he⟩ := Option.map_eq_some_iff.1 h
        obtain ⟨rfl, rfl⟩ := Prod.mk.inj he
        obtain ⟨ha, hl⟩ := ih hs
        refine ⟨by rw [List.cons_append, ha], ?_⟩
        change u.width c + u.length l' = n + 1
        omega

def byteLength (cs : List Char) : Nat := cs.foldr (fun c n => c.utf8Size + n) 0

def fromByte (i : Nat) : List Char → List Char
  | [] => []
  | c :: cs => if i = 0 then c :: cs else fromByte (i - c.utf8Size) cs

def byteIndex? (u : TextUnit) (text : String) (n : Nat) : Option Nat :=
  (u.splitAt? n text.toList).map fun (l, _) => byteLength l

/-- The byte `count` units after byte `start`, at most the end of the text. -/
def advance (u : TextUnit) (text : String) (start count : Nat) : Nat :=
  start + byteLength (u.take count (fromByte start text.toList))

end TextUnit

end DraftKeeper
