import ScriptLens.Text.CaseTable

/-! # Lower case

Every character is mapped by itself, with two exceptions: one capital letter becomes
two characters, and a capital sigma at the end of a word has a form of its own.
-/
namespace ScriptLens.Text

def capitalSigma : Char := Char.ofNat 0x3A3

def smallSigma : Char := Char.ofNat 0x3C3

def finalSigma : Char := Char.ofNat 0x3C2

/-- The lower case of a character out of context. A dotted capital I keeps its dot as
a mark of its own. -/
def lowerChar (c : Char) : List Char :=
  if c.toNat = 0x130 then ['i', Char.ofNat 0x307]
  else [Char.ofNat ((lowerRuns.findSome? (·.lower? c.toNat)).getD c.toNat)]

/-- Whether the next character that case rules take note of has a case. -/
def meetsCase (text : List Char) : Bool :=
  match text.dropWhile (inRanges ignorableRanges ·.toNat) with
  | [] => false
  | c :: _ => inRanges casedRanges c.toNat

/-- A text in lower case, after a part of it that is given backwards. -/
def lowerAfter (before : List Char) : List Char → List Char
  | [] => []
  | c :: rest =>
    (if c = capitalSigma then
      [if meetsCase before && !meetsCase rest then finalSigma else smallSigma]
    else lowerChar c) ++ lowerAfter (c :: before) rest

def lowercase (text : List Char) : List Char := lowerAfter [] text

end ScriptLens.Text
