import Orchestration.Text.Printable

/-!
# Quoted text

A text in double quotes. Quotes and backslashes are escaped by a backslash, a few control characters
have short names, and any other character that does not print alone is written as its code point.
-/

namespace Orchestration.Text

/-- The form of a character inside quotes. -/
def quotedChar (c : Char) : List Char :=
  match c with
  | '"' => ['\\', '"']
  | '\\' => ['\\', '\\']
  | '\n' => ['\\', 'n']
  | '\r' => ['\\', 'r']
  | '\t' => ['\\', 't']
  | '\x00' => ['\\', '0']
  | c =>
    if isPrintable c then [c]
    else ['\\', 'u', '\x7b'] ++ Nat.toDigits 16 c.toNat ++ ['\x7d']

def quoted (text : String) : String :=
  "\"" ++ String.ofList (text.toList.flatMap quotedChar) ++ "\""

end Orchestration.Text
