/-! # Decimal numbers that fit a machine word -/
namespace ScriptLens.Text

def wordLimit : Nat := Nat.pow 2 64

def digitsValue (digits : List Char) : Nat :=
  digits.foldl (fun n c => n * 10 + (c.toNat - '0'.toNat)) 0

/-- Digits only, and a value that fits. -/
def digits? (text : List Char) : Option Nat :=
  if text.isEmpty || !text.all Char.isDigit || wordLimit ≤ digitsValue text then none
  else some (digitsValue text)

/-- Digits after an optional plus sign. -/
def word? (text : List Char) : Option Nat :=
  match text with
  | '+' :: digits => digits? digits
  | digits => digits? digits

end ScriptLens.Text
