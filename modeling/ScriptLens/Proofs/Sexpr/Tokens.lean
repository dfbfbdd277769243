import Mathlib.Data.List.TakeWhile
import ScriptLens.Sexpr.View

/-! # The tokens of a printed tree

A printed tree is a row of parentheses, words and quoted texts, with blanks between them.
Quoting can be undone, a word ends where a blank, a parenthesis or a quote stands, and so a
text that is put together from tokens falls apart into the same tokens again.
-/
namespace ScriptLens

namespace Text

/-! ## Quoted texts -/

def hexDigit (c : Char) : Nat :=
  if c.isDigit then c.toNat - '0'.toNat else c.toNat - 'a'.toNat + 10

def hexValue (digits : List Char) : Nat := digits.foldl (fun n c => 16 * n + hexDigit c) 0

def unescape (c : Char) : Char :=
  if c = 'n' then '\n' else if c = 'r' then '\r' else if c = 't' then '\t' else c

/-- The text before the closing quote, and what comes after the quote. -/
def unquote? : List Char → Option (List Char × List Char)
  | [] => none
  | '"' :: rest => some ([], rest)
  | '\\' :: 'u' :: a :: b :: c :: d :: rest =>
    (unquote? rest).map fun (text, after) => (Char.ofNat (hexValue [a, b, c, d]) :: text, after)
  | '\\' :: c :: rest => (unquote? rest).map fun (text, after) => (unescape c :: text, after)
  | c :: rest => (unquote? rest).map fun (text, after) => (c :: text, after)

theorem hexDigit_digitChar : ∀ d < 16, hexDigit (Nat.digitChar d) = d := by decide

theorem hexPadded_of_lt {n : Nat} (h : n < 256) :
    hexPadded 4 n = ['0', '0', Nat.digitChar (n / 16), Nat.digitChar (n % 16)] := by
  by_cases hsmall : n < 16
  · simp [hexPadded, Nat.toDigits_of_lt_base hsmall, Nat.div_eq_of_lt hsmall,
      Nat.mod_eq_of_lt hsmall, List.replicate_succ]
  · have hdigit : n / 16 < 16 := by omega
    have hdigits : Nat.toDigits 16 n = [Nat.digitChar (n / 16), Nat.digitChar (n % 16)] := by
      rw [Nat.toDigits_of_base_le (by decide) (Nat.not_lt.mp hsmall),
        Nat.toDigits_of_lt_base hdigit]
      rfl
    simp [hexPadded, hdigits, List.replicate_succ]

theorem hexValue_of_lt {n : Nat} (h : n < 256) :
    hexValue ['0', '0', Nat.digitChar (n / 16), Nat.digitChar (n % 16)] = n := by
  have hzero : hexDigit '0' = 0 := rfl
  have hhigh := hexDigit_digitChar (n / 16) (by omega)
  have hlow := hexDigit_digitChar (n % 16) (by omega)
  simp only [hexValue, List.foldl_cons, List.foldl_nil, hzero, hhigh, hlow]
  omega

theorem toNat_lt_of_isControl {c : Char} (h : isControl c = true) : c.toNat < 256 := by
  simp only [isControl, Bool.or_eq_true, Bool.and_eq_true, decide_eq_true_eq] at h
  omega

theorem unquote?_escape (c : Char) (rest : List Char) :
    unquote? (escape c ++ rest) =
      (unquote? rest).map fun (text, after) => (c :: text, after) := by
  by_cases hquote : c = '"'
  · subst hquote
    simp [escape, unquote?, unescape]
  by_cases hback : c = '\\'
  · subst hback
    simp [escape, unquote?, unescape]
  by_cases hline : c = '\n'
  · subst hline
    simp [escape, unquote?, unescape]
  by_cases hreturn : c = '\r'
  · subst hreturn
    simp [escape, unquote?, unescape]
  by_cases htab : c = '\t'
  · subst htab
    simp [escape, unquote?, unescape]
  by_cases hcontrol : isControl c = true
  · have hlt := toNat_lt_of_isControl hcontrol
    simp [escape, hquote, hback, hline, hreturn, htab, hcontrol, hexPadded_of_lt hlt, unquote?,
      hexValue_of_lt hlt, Char.ofNat_toNat]
  · simp [escape, hquote, hback, hline, hreturn, htab, hcontrol, unquote?]

theorem unquote?_flatMap_escape (text rest : List Char) :
    unquote? (text.flatMap escape ++ '"' :: rest) = some (text, rest) := by
  induction text with
  | nil => rfl
  | cons c text ih =>
    rw [List.flatMap_cons, List.append_assoc, unquote?_escape, ih, Option.map_some]

theorem length_of_unquote? {text inside after : List Char}
    (h : unquote? text = some (inside, after)) :
    after.length < text.length := by
  fun_induction unquote? text generalizing inside after with
  | case1 => cases h
  | case2 rest =>
    cases h
    exact Nat.lt_succ_self _
  | case3 _ _ _ _ _ ih | case4 _ _ _ ih | case5 _ _ _ _ _ ih =>
    obtain ⟨⟨t, r⟩, hr, heq⟩ := Option.map_eq_some_iff.mp h
    cases heq
    have hrest := ih hr
    simp only [List.length_cons]
    omega

theorem unquote?_quote (text rest : List Char) :
    ∃ after, quote text ++ rest = '"' :: after ∧ unquote? after = some (text, rest) := by
  refine ⟨text.flatMap escape ++ '"' :: rest, ?_, unquote?_flatMap_escape text rest⟩
  simp [quote]

end Text

namespace Sexpr
open Text

/-! ## Tokens -/

inductive Token where
  | opening
  | closing
  | word (text : List Char)
  | quoted (text : List Char)
deriving DecidableEq

def inWord (c : Char) : Bool := !isDelimiter c

def scan? : List Char → Option (List Token)
  | [] => some []
  | c :: rest =>
    if c = '(' then (scan? rest).map (.opening :: ·)
    else if c = ')' then (scan? rest).map (.closing :: ·)
    else if c = '"' then
      match _h : unquote? rest with
      | none => none
      | some (inside, after) => (scan? after).map (.quoted inside :: ·)
    else if isBlank c then scan? rest
    else (scan? (rest.dropWhile inWord)).map (.word (c :: rest.takeWhile inWord) :: ·)
termination_by text => text.length
decreasing_by
  · exact Nat.lt_succ_self _
  · exact Nat.lt_succ_self _
  · exact Nat.lt_succ_of_lt (length_of_unquote? _h)
  · exact Nat.lt_succ_self _
  · exact Nat.lt_succ_of_le (List.dropWhile_sublist _).length_le

theorem scan?_blank {c : Char} (h : isBlank c = true) (rest : List Char) :
    scan? (c :: rest) = scan? rest := by
  have hopening : c ≠ '(' := by rintro rfl; cases h
  have hclosing : c ≠ ')' := by rintro rfl; cases h
  have hquote : c ≠ '"' := by rintro rfl; cases h
  rw [scan?, if_neg hopening, if_neg hclosing, if_neg hquote, if_pos h]

theorem scan?_blanks {lead : List Char} (h : ∀ c ∈ lead, isBlank c = true) (rest : List Char) :
    scan? (lead ++ rest) = scan? rest := by
  induction lead with
  | nil => rfl
  | cons c lead ih =>
    rw [List.cons_append, scan?_blank (h c List.mem_cons_self)]
    exact ih fun d hd => h d (List.mem_cons_of_mem c hd)

/-- A text that does not go on with a word. -/
def Ends (text : List Char) : Prop := ∀ c ∈ text.head?, isDelimiter c = true

/-- A text that falls apart into tokens, whatever comes after, unless that goes on with a word. -/
def Reads (text : List Char) (tokens : List Token) : Prop :=
  ∀ rest, Ends rest → scan? (text ++ rest) = (scan? rest).map (tokens ++ ·)

theorem Ends.append {text rest : List Char} (ht : Ends text) (hr : Ends rest) :
    Ends (text ++ rest) := by
  cases text with
  | nil => exact hr
  | cons c text => exact ht

theorem ends_flatMap {α : Type} {f : α → List Char} (h : ∀ a, Ends (f a)) (items : List α) :
    Ends (items.flatMap f) := by
  induction items with
  | nil => intro c hc; cases hc
  | cons a items ih => exact (h a).append ih

namespace Reads
variable {text more : List Char} {tokens others : List Token}

theorem nil : Reads [] [] := by
  intro rest _
  simp

theorem append (h : Reads text tokens) (hm : Reads more others) (hends : Ends more) :
    Reads (text ++ more) (tokens ++ others) := by
  intro rest hrest
  rw [List.append_assoc, h _ (hends.append hrest), hm _ hrest, Option.map_map]
  congr 1
  funext ts
  simp

theorem flatMap {α : Type} {f : α → List Char} {token : α → Token} {items : List α}
    (h : ∀ a ∈ items, Reads (f a) [token a]) (hends : ∀ a, Ends (f a)) :
    Reads (items.flatMap f) (items.map token) := by
  induction items with
  | nil => exact nil
  | cons a items ih =>
    have hrest := ih fun b hb => h b (List.mem_cons_of_mem a hb)
    exact (h a List.mem_cons_self).append hrest (ends_flatMap hends items)

theorem spaced (h : Reads text tokens) : Reads (spaced text) tokens := by
  intro rest hrest
  rw [Sexpr.spaced, List.cons_append, scan?_blank (by decide)]
  exact h rest hrest

theorem opening (h : Reads text tokens) : Reads ('(' :: text) (.opening :: tokens) := by
  intro rest hrest
  rw [List.cons_append, scan?, if_pos rfl, h rest hrest, Option.map_map]
  rfl

theorem closing : Reads [')'] [.closing] := by
  intro rest _
  rw [List.singleton_append, scan?, if_neg (by decide), if_pos rfl]
  rfl

theorem quote (text : List Char) : Reads (quote text) [.quoted text] := by
  intro rest _
  obtain ⟨after, htext, hafter⟩ := unquote?_quote text rest
  rw [htext, scan?, if_neg (by decide), if_neg (by decide), if_pos rfl]
  split
  · next hnone =>
    rw [hafter] at hnone
    cases hnone
  · next inside left hsome =>
    rw [hafter] at hsome
    cases hsome
    rfl

theorem word (hne : text ≠ []) (h : ∀ c ∈ text, isDelimiter c = false) :
    Reads text [.word text] := by
  intro rest hrest
  obtain ⟨c, text, rfl⟩ := List.exists_cons_of_ne_nil hne
  have hc := h c List.mem_cons_self
  have hinside : ∀ d ∈ text, inWord d = true := by
    intro d hd
    simp [inWord, h d (List.mem_cons_of_mem c hd)]
  have hstop : rest.takeWhile inWord = [] ∧ rest.dropWhile inWord = rest := by
    cases rest with
    | nil => exact ⟨rfl, rfl⟩
    | cons d rest =>
      have hd : inWord d = false := by simp [inWord, hrest d rfl]
      simp [hd]
  simp only [isDelimiter, Bool.or_eq_false_iff, beq_eq_false_iff_ne] at hc
  obtain ⟨⟨⟨hblank, hopening⟩, hclosing⟩, hquote⟩ := hc
  rw [List.cons_append, scan?, if_neg hopening, if_neg hclosing, if_neg hquote, hblank,
    if_neg Bool.false_ne_true, List.takeWhile_append_of_pos hinside,
    List.dropWhile_append_of_pos hinside, hstop.1, hstop.2, List.append_nil]
  rfl

end Reads

/-- The token of an atom, which is quoted where it has to be. -/
def atomToken (text : List Char) : Token :=
  if text.isEmpty || text.any isDelimiter then .quoted text else .word text

theorem reads_atom (text : List Char) : Reads (atom text) [atomToken text] := by
  unfold atom atomToken
  split
  · exact .quote text
  · next h =>
    simp only [Bool.or_eq_true, List.isEmpty_iff, List.any_eq_true, not_or, not_exists, not_and,
      Bool.not_eq_true] at h
    exact .word h.1 h.2

theorem isBlank_of_mem_lineBreak {o : SexprOptions} {depth : Nat} {c : Char}
    (h : c ∈ lineBreak o depth) : isBlank c = true := by
  unfold lineBreak at h
  split at h
  · rw [List.mem_singleton.mp h]
    rfl
  · rcases List.mem_cons.mp h with rfl | h
    · rfl
    · rw [List.eq_of_mem_replicate h]
      rfl

theorem isDelimiter_of_isDigit {c : Char} (h : c.isDigit = true) : isDelimiter c = false := by
  have hbounds : 48 ≤ c.toNat ∧ c.toNat ≤ 57 := by simpa using Char.isDigit_iff_toNat.mp h
  have hblank : isBlank c = false := by
    simp only [isBlank, Bool.or_eq_false_iff, Bool.and_eq_false_imp, decide_eq_true_eq,
      decide_eq_false_iff_not, beq_eq_false_iff_ne]
    omega
  have hopening : c ≠ '(' := by rintro rfl; cases h
  have hclosing : c ≠ ')' := by rintro rfl; cases h
  have hquote : c ≠ '"' := by rintro rfl; cases h
  simp [isDelimiter, hblank, hopening, hclosing, hquote]

theorem isDelimiter_decimal {n : Nat} {c : Char} (h : c ∈ decimal n) : isDelimiter c = false :=
  isDelimiter_of_isDigit (Nat.isDigit_of_mem_toDigits (by decide) (by decide) h)

end Sexpr

end ScriptLens
