import DraftKeeper.Decimal.Shortest
import DraftKeeper.Json.Basic

namespace DraftKeeper.Json

open Decimal

def hexDigit (n : Nat) : Char := Nat.digitChar (n % 16)

def escapedChar (c : Char) : List Char :=
  match c with
  | '"' => ['\\', '"']
  | '\\' => ['\\', '\\']
  | '\n' => ['\\', 'n']
  | '\r' => ['\\', 'r']
  | '\t' => ['\\', 't']
  | c =>
    if c.toNat = 8 then ['\\', 'b']
    else if c.toNat = 12 then ['\\', 'f']
    else if c.toNat < 0x20 then ['\\', 'u', '0', '0', hexDigit (c.toNat / 16), hexDigit c.toNat]
    else [c]

def quoted (s : String) : String :=
  String.ofList ('"' :: s.toList.flatMap escapedChar ++ ['"'])

def exponentText (n : Int) : List Char :=
  'e' :: (if n < 0 then '-' else '+') :: Nat.toDigits 10 n.natAbs

/-- Positional up to sixteen digits before the point and five places after it. -/
def decimalText (d : Scientific) : String :=
  let digits := Nat.toDigits 10 d.digits
  let count : Int := digits.length
  let point := count + d.exponent
  let zeros (n : Int) := List.replicate n.toNat '0'
  String.ofList <|
    if 0 ≤ d.exponent ∧ point ≤ 16 then digits ++ zeros d.exponent ++ ['.', '0']
    else if 0 < point ∧ point ≤ 16 then digits.take point.toNat ++ '.' :: digits.drop point.toNat
    else if -5 < point ∧ point ≤ 0 then '0' :: '.' :: zeros (-point) ++ digits
    else
      let mantissa := match digits with
        | [] => []
        | [c] => [c]
        | c :: cs => c :: '.' :: cs
      mantissa ++ exponentText (point - 1)

example : decimalText ⟨1, 15⟩ = "1000000000000000.0" := by decide +kernel

example : decimalText ⟨125, 14⟩ = "1.25e+16" := by decide +kernel

def floatText (x : Float) : String :=
  let bits := x.toBits
  let sign := if bits.toNat < 0x8000000000000000 then "" else "-"
  let magnitude := Binary.ofBits bits
  if magnitude.mantissa = 0 then sign ++ "0.0" else sign ++ decimalText magnitude.shortest

mutual

def render : Json → String
  | .null => "null"
  | .bool b => if b then "true" else "false"
  | .integer n => toString n
  | .float x => floatText x
  | .string s => quoted s
  | .array items => "[" ++ renderItems items ++ "]"
  | .object fields => "\x7b" ++ renderFields fields ++ "\x7d"

def renderItems : List Json → String
  | [] => ""
  | [v] => v.render
  | v :: vs => v.render ++ "," ++ renderItems vs

def renderFields : List (String × Json) → String
  | [] => ""
  | [(n, v)] => quoted n ++ ":" ++ v.render
  | (n, v) :: fs => quoted n ++ ":" ++ v.render ++ "," ++ renderFields fs

end

end DraftKeeper.Json
