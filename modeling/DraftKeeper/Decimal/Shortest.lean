namespace DraftKeeper.Decimal

/-- A positive number `mantissa * 2^exponent`; `narrow` says that the next number below is only
half as far away as the next one above. -/
structure Binary where
  mantissa : Nat
  exponent : Int
  narrow : Bool
deriving DecidableEq, Repr

structure Scientific where
  digits : Nat
  exponent : Int
deriving DecidableEq, Repr

namespace Binary

def ofBits (bits : UInt64) : Binary :=
  let fraction : Nat := bits.toNat % 0x10000000000000
  let field : Nat := bits.toNat / 0x10000000000000 % 0x800
  if field = 0 then ⟨fraction, -1074, false⟩
  else ⟨fraction + 0x10000000000000, (field : Int) - 1075, fraction = 0 && field ≠ 1⟩

/-- Scale of the fractions below: a quarter of a unit in the last place over `denominator`. -/
def numerator (b : Binary) (quarters : Nat) : Nat := quarters * Nat.pow 2 (b.exponent - 2).toNat

def denominator (b : Binary) : Nat := Nat.pow 2 (2 - b.exponent).toNat

def value (b : Binary) : Nat := b.numerator (4 * b.mantissa)

def lower (b : Binary) : Nat := b.numerator (4 * b.mantissa - (if b.narrow then 1 else 2))

def upper (b : Binary) : Nat := b.numerator (4 * b.mantissa + 2)

def accepts (b : Binary) (d : Scientific) : Bool :=
  let x := d.digits * Nat.pow 10 d.exponent.toNat * b.denominator
  let scale := Nat.pow 10 (-d.exponent).toNat
  if b.mantissa % 2 = 0 then b.lower * scale ≤ x && x ≤ b.upper * scale
  else b.lower * scale < x && x < b.upper * scale

def floorAt (b : Binary) (u : Int) : Scientific :=
  ⟨b.value * Nat.pow 10 (-u).toNat / (b.denominator * Nat.pow 10 u.toNat), u⟩

def leadingZeros (b : Binary) : Nat → Nat → Nat
  | 0, j => j
  | fuel + 1, j => if b.denominator ≤ b.value * Nat.pow 10 j then j else leadingZeros b fuel (j + 1)

def leading (b : Binary) : Int :=
  let whole := b.value / b.denominator
  if whole = 0 then -(b.leadingZeros 400 1 : Int) else ((Nat.toDigits 10 whole).length : Int) - 1

/-- Of the two neighbours on the grid of `n` digits the one that is accepted, of two the nearer, and
of two equally near the even one. -/
def candidate? (b : Binary) (n : Nat) : Option Scientific :=
  let below := b.floorAt (b.leading - n + 1)
  let above : Scientific := ⟨below.digits + 1, below.exponent⟩
  match b.accepts below, b.accepts above with
  | false, false => none
  | true, false => some below
  | false, true => some above
  | true, true =>
    let x := 2 * b.value * Nat.pow 10 (-below.exponent).toNat
    let middle := (2 * below.digits + 1) * Nat.pow 10 below.exponent.toNat * b.denominator
    if x < middle then some below
    else if middle < x then some above
    else if below.digits % 2 = 0 then some below else some above

def search (b : Binary) : Nat → Nat → Scientific
  | 0, n => b.floorAt (b.leading - n + 1)
  | fuel + 1, n => (b.candidate? n).getD (search b fuel (n + 1))

end Binary

def Scientific.trim (d : Scientific) : Nat → Scientific
  | 0 => d
  | fuel + 1 =>
    if d.digits % 10 = 0 ∧ d.digits ≠ 0 then Scientific.trim ⟨d.digits / 10, d.exponent + 1⟩ fuel
    else d

/-- The shortest decimal that reads back as a positive number. For one digit, two digits and so on its neighbours
on the decimal grid are tried; seventeen digits always suffice. -/
def Binary.shortest (b : Binary) : Scientific := (b.search 17 1).trim 20

example : (Binary.ofBits 0x3FB999999999999A).shortest = ⟨1, -1⟩ := by decide +kernel

example : (Binary.ofBits 1).shortest = ⟨5, -324⟩ := by decide +kernel

end DraftKeeper.Decimal
