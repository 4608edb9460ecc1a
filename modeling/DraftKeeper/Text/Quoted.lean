import DraftKeeper.Text.Unprintable

namespace DraftKeeper.Text.Quoted

def codePoint (c : Char) : List Char :=
  '\\' :: 'u' :: '\x7b' :: Nat.toDigits 16 c.toNat ++ ['\x7d']

/-- Quotes, backslashes and the usual controls have short escapes, and what has no visible shape is given by its
code point. -/
def encodeChar (c : Char) : List Char :=
  match c with
  | '"' => ['\\', '"']
  | '\\' => ['\\', '\\']
  | '\n' => ['\\', 'n']
  | '\r' => ['\\', 'r']
  | '\t' => ['\\', 't']
  | c =>
    if c.toNat = 0 then ['\\', '0']
    else if c.toNat < 0x20 then codePoint c
    else if c.toNat < 0x7F then [c]
    else if Unprintable.isUnprintable c then codePoint c
    else [c]

def quoted (s : String) : String :=
  String.ofList ('"' :: s.toList.flatMap encodeChar ++ ['"'])

example : quoted "a\t\"b\"" = "\"a\\t\\\"b\\\"\"" := by decide +kernel

end DraftKeeper.Text.Quoted
