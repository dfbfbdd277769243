/-! # Tokens of JSON texts

Strings are kept as the characters and code units that were written, since what a
lone half of a surrogate pair means depends on who reads the string. Numbers are
kept as they were written.
-/
namespace ScriptLens.JsonText

/-- A character, or a code unit given by its number. -/
inductive Piece where
  | char (c : Char)
  | unit (n : Nat)
deriving DecidableEq

inductive Token where
  | openList | closeList | openObject | closeObject | comma | colon
  | null
  | boolean (value : Bool)
  | number (written : List Char)
  | string (pieces : List Piece)
deriving DecidableEq

def hexValue? (c : Char) : Option Nat :=
  if '0' ≤ c && c ≤ '9' then some (c.toNat - '0'.toNat)
  else if 'a' ≤ c && c ≤ 'f' then some (c.toNat - 'a'.toNat + 10)
  else if 'A' ≤ c && c ≤ 'F' then some (c.toNat - 'A'.toNat + 10)
  else none

def unit? (a b c d : Char) : Option Nat :=
  match hexValue? a, hexValue? b, hexValue? c, hexValue? d with
  | some a, some b, some c, some d => some (((a * 16 + b) * 16 + c) * 16 + d)
  | _, _, _, _ => none

/-- The character that a letter after a backslash stands for. -/
def escaped? : Char → Option Char
  | '"' => some '"'
  | '\\' => some '\\'
  | '/' => some '/'
  | 'b' => some (Char.ofNat 8)
  | 'f' => some (Char.ofNat 12)
  | 'n' => some '\n'
  | 'r' => some '\r'
  | 't' => some '\t'
  | _ => none

/-- The rest of a string up to its closing quote, and what follows. Control
characters have to be escaped. -/
def string? : List Char → Option (List Piece × List Char)
  | [] => none
  | '"' :: rest => some ([], rest)
  | '\\' :: 'u' :: a :: b :: c :: d :: rest =>
    match unit? a b c d, string? rest with
    | some n, some (pieces, after) => some (.unit n :: pieces, after)
    | _, _ => none
  | '\\' :: c :: rest =>
    match escaped? c, string? rest with
    | some c, some (pieces, after) => some (.char c :: pieces, after)
    | _, _ => none
  | c :: rest =>
    if c = '\\' || c.toNat < 0x20 then none
    else
      match string? rest with
      | some (pieces, after) => some (.char c :: pieces, after)
      | none => none

theorem length_of_string? {text after : List Char} {pieces : List Piece}
    (h : string? text = some (pieces, after)) : after.length < text.length := by
  fun_induction string? text generalizing pieces after with
  | case2 rest => simp_all
  | case3 _ _ _ _ rest n ps rest' hs _ ih =>
    have := ih hs
    simp_all only [Option.some.injEq, Prod.mk.injEq, List.length_cons]
    omega
  | case5 _ rest _ d ps rest' hs _ ih =>
    have := ih hs
    simp_all only [Option.some.injEq, Prod.mk.injEq, List.length_cons]
    omega
  | case8 _ rest _ _ _ _ ps rest' hs ih =>
    have := ih hs
    simp_all only [Option.some.injEq, Prod.mk.injEq, List.length_cons]
    omega
  | _ => simp_all

/-- The exponent of a number, or nothing. -/
def isExponent : List Char → Bool
  | [] => true
  | mark :: rest =>
    let digits := match rest with
      | '+' :: r => r
      | '-' :: r => r
      | r => r
    (mark == 'e' || mark == 'E') && !digits.isEmpty && digits.all Char.isDigit

/-- The fraction and the exponent of a number, both of which may be left out. -/
def isFraction : List Char → Bool
  | '.' :: rest =>
    !(rest.takeWhile Char.isDigit).isEmpty && isExponent (rest.dropWhile Char.isDigit)
  | rest => isExponent rest

/-- Digits without a leading zero, unless zero is the only digit. -/
def isWhole : List Char → Bool
  | [] => false
  | ['0'] => true
  | first :: _ => first != '0'

def isNumber (written : List Char) : Bool :=
  let unsigned := match written with
    | '-' :: rest => rest
    | rest => rest
  isWhole (unsigned.takeWhile Char.isDigit) && isFraction (unsigned.dropWhile Char.isDigit)

def isNumberChar (c : Char) : Bool :=
  c.isDigit || c == '-' || c == '+' || c == '.' || c == 'e' || c == 'E'

def word? : List Char → Option Token
  | ['n', 'u', 'l', 'l'] => some .null
  | ['t', 'r', 'u', 'e'] => some (.boolean true)
  | ['f', 'a', 'l', 's', 'e'] => some (.boolean false)
  | _ => none

def isSpace (c : Char) : Bool := c == ' ' || c == '\n' || c == '\t' || c == '\r'

def mark? : Char → Option Token
  | '[' => some .openList
  | ']' => some .closeList
  | '\x7b' => some .openObject
  | '\x7d' => some .closeObject
  | ',' => some .comma
  | ':' => some .colon
  | _ => none

/-- A token that is a number or a word, and what follows it. -/
def plain? (text : List Char) : Option (Token × List Char) :=
  if (text.takeWhile isNumberChar).isEmpty then
    (word? (text.takeWhile Char.isAlpha)).map (·, text.dropWhile Char.isAlpha)
  else if isNumber (text.takeWhile isNumberChar) then
    some (.number (text.takeWhile isNumberChar), text.dropWhile isNumberChar)
  else none

/-- The token that starts with `c` and continues with `rest`. -/
def token? (c : Char) (rest : List Char) : Option (Token × List Char) :=
  match mark? c with
  | some t => some (t, rest)
  | none =>
    if c = '"' then (string? rest).map fun (pieces, after) => (.string pieces, after)
    else plain? (c :: rest)

theorem length_dropWhile_le (p : Char → Bool) (text : List Char) :
    (text.dropWhile p).length ≤ text.length :=
  (List.dropWhile_sublist p).length_le

theorem length_of_plain? {text after : List Char} {t : Token}
    (h : plain? text = some (t, after)) : after.length < text.length := by
  have shorter : ∀ p : Char → Bool, text.takeWhile p ≠ [] →
      (text.dropWhile p).length < text.length := by
    intro p hp
    have := congrArg List.length (List.takeWhile_append_dropWhile (p := p) (l := text))
    have : 0 < (text.takeWhile p).length := List.length_pos_iff.mpr hp
    grind
  unfold plain? at h
  split at h
  · simp only [Option.map_eq_some_iff, Prod.mk.injEq] at h
    obtain ⟨w, hw, -, rfl⟩ := h
    exact shorter _ (by intro he; simp [he, word?] at hw)
  · next hn =>
    split at h
    · simp only [Option.some.injEq, Prod.mk.injEq] at h
      exact h.2 ▸ shorter _ (by simpa using hn)
    · exact absurd h (by simp)

theorem length_of_token? {c : Char} {rest after : List Char} {t : Token}
    (h : token? c rest = some (t, after)) : after.length ≤ rest.length := by
  unfold token? at h
  split at h
  · grind
  · split at h
    · simp only [Option.map_eq_some_iff, Prod.mk.injEq, Prod.exists] at h
      obtain ⟨pieces, a, hs, -, rfl⟩ := h
      exact Nat.le_of_lt (length_of_string? hs)
    · have := length_of_plain? h
      grind

def tokens? (text : List Char) : Option (List Token) :=
  match _h : text.dropWhile isSpace with
  | [] => some []
  | c :: rest =>
    match _ht : token? c rest with
    | none => none
    | some (t, after) => (tokens? after).map (t :: ·)
termination_by text.length
decreasing_by
  have := length_of_token? _ht
  have := length_dropWhile_le isSpace text
  rw [_h] at this
  grind

end ScriptLens.JsonText
