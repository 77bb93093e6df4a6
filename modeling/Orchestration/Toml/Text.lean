import Orchestration.Text.Digits
import Orchestration.Text.Reader

/-!
# Texts and keys of TOML

A text stands in double quotes, with escapes, or in single quotes, without. Three quotes enclose a
text of several lines, whose first line break does not count and which may begin and end with up to
two quotes of its own.
-/

namespace Orchestration.Toml

open Text Text.Reader

def blanks : Reader Unit := do let _ ← takeWhile fun c => c = ' ' || c = '\t'

def newline : Reader Unit := char '\n' <|> keyword "\r\n"

/-- Whether a character may stand in a text or a comment as it is. -/
def isPlain (c : Char) : Bool := c = '\t' || (' ' ≤ c && c ≠ '\x7f')

def comment : Reader Unit := do
  char '#'
  let _ ← takeWhile isPlain

/-! ## Escapes -/

/-- The character of a code point of so many digits. -/
def codePoint (digits : Nat) : Reader Char := do
  let n := ofDigits 16 (← times (satisfy isHexDigit) digits)
  if n.isValidChar then return Char.ofNat n else failure

def escape : Reader Char := do
  char '\\'
  match ← satisfy fun _ => true with
  | 'b' => return '\x08'
  | 't' => return '\t'
  | 'n' => return '\n'
  | 'f' => return '\x0c'
  | 'r' => return '\r'
  | '"' => return '"'
  | '\\' => return '\\'
  | 'u' => codePoint 4
  | 'U' => codePoint 8
  | _ => failure

/-! ## Texts of one line -/

def basicText : Reader String := do
  char '"'
  let cs ← many (satisfy (fun c => isPlain c && c ≠ '"' && c ≠ '\\') <|> escape)
  char '"'
  return String.ofList cs

def literalText : Reader String := do
  char '\''
  let cs ← takeWhile fun c => isPlain c && c ≠ '\''
  char '\''
  return String.ofList cs

/-! ## Texts of several lines -/

/-- One or two quotes that do not end the text. -/
def looseQuotes (quote : Char) : Reader (List Char) := do
  let quotes ← takeWhile1 (· = quote)
  if quotes.length < 3 then return quotes else failure

/-- The quotes that end the text, with up to two more before them that belong to it. -/
def closingQuotes (quote : Char) : Reader (List Char) := do
  let own ← optional (do exactly (List.replicate 5 quote); return [quote, quote])
  match own with
  | some quotes => return quotes
  | none =>
    (do exactly (List.replicate 4 quote); return [quote]) <|>
      (do exactly (List.replicate 3 quote); return [])

/-- A line break that a backslash takes back, with all blanks and line breaks after it. -/
def foldedBreak : Reader (List Char) := do
  char '\\'
  blanks
  newline
  let _ ← many (newline <|> (do let _ ← satisfy fun c => c = ' ' || c = '\t'))
  return []

/-- The pieces of a text of several lines between its quotes. -/
def longText (quote : Char) (piece : Reader (List Char)) : Reader String := do
  exactly (List.replicate 3 quote)
  let _ ← optional newline
  let pieces ← many (piece <|> (do newline; return ['\n']) <|> looseQuotes quote)
  let rest ← closingQuotes quote
  return String.ofList (pieces.flatten ++ rest)

def longBasicText : Reader String :=
  longText '"' <| takeWhile1 (fun c => isPlain c && c ≠ '"' && c ≠ '\\') <|> foldedBreak <|>
    (do return [← escape])

def longLiteralText : Reader String :=
  longText '\'' <| takeWhile1 fun c => isPlain c && c ≠ '\''

def text : Reader String := longBasicText <|> basicText <|> longLiteralText <|> literalText

/-! ## Keys -/

def isBareKeyChar (c : Char) : Bool := c.isAlphanum || c = '-' || c = '_'

def simpleKey : Reader String :=
  basicText <|> literalText <|> (do return String.ofList (← takeWhile1 isBareKeyChar))

/-- The deepest nesting of values and the longest path of a key. -/
def maxDepth : Nat := 79

/-- A dotted key: the path to it and its last part. -/
def key : Reader (List String × String) := do
  let parts ← separated (do blanks; let part ← simpleKey; blanks; return part) (char '.')
  if parts.length ≤ maxDepth then return (parts.dropLast, parts.getLastD "") else failure

end Orchestration.Toml
