import ScriptLens.Text.Blank

/-! # Atoms and quoted texts

A text that is one symbol is written as it is. Any other text is written between
quotes, where quotes, backslashes and control characters are escaped.
-/
namespace ScriptLens.Text

/-- Control characters, with the code points below a blank and around the end of
the first two blocks. -/
def isControl (c : Char) : Bool :=
  c.toNat < 0x20 || (0x7F ≤ c.toNat && c.toNat ≤ 0x9F)

/-- The digits of a number in base sixteen, at least `width` of them. -/
def hexPadded (width n : Nat) : List Char :=
  let digits := Nat.toDigits 16 n
  List.replicate (width - digits.length) '0' ++ digits

def escape (c : Char) : List Char :=
  if c = '"' then ['\\', '"']
  else if c = '\\' then ['\\', '\\']
  else if c = '\n' then ['\\', 'n']
  else if c = '\r' then ['\\', 'r']
  else if c = '\t' then ['\\', 't']
  else if isControl c then '\\' :: 'u' :: hexPadded 4 c.toNat
  else [c]

def quote (text : List Char) : List Char := '"' :: text.flatMap escape ++ ['"']

def isDelimiter (c : Char) : Bool := isBlank c || c == '(' || c == ')' || c == '"'

def atom (text : List Char) : List Char :=
  if text.isEmpty || text.any isDelimiter then quote text else text

end ScriptLens.Text
