import ScriptLens.Proofs.Sexpr.Tokens

/-! # A printed snapshot can be read back

Without limits a snapshot is printed in full, but for its byte offsets. What stands first in
a list is the kind of a node, then come its places, its flags and its text, and then its
children, so a reader that goes through the tokens with a stack of open nodes builds the same
tree again. It need not know whether the form was compact.
-/
namespace ScriptLens

open Sexpr

def SexprOptions.full (isCompact : Bool) : SexprOptions := ⟨true, true, true, none, none, isCompact⟩

def SnapshotHead.withoutBytes (h : SnapshotHead) : SnapshotHead :=
  { h with startByte := 0, stopByte := 0 }

namespace Snapshot

mutual

/-- A snapshot with all byte offsets at zero. -/
def withoutBytes : Snapshot → Snapshot
  | .node head children => .node head.withoutBytes (withoutBytesOf children)

def withoutBytesOf : List Snapshot → List Snapshot
  | [] => []
  | s :: rest => s.withoutBytes :: withoutBytesOf rest

end

end Snapshot

/-! ## The tokens of a snapshot -/

def SnapshotHead.tokens (h : SnapshotHead) : List Token :=
  [atomToken h.kind.toList] ++ [.word h.sexprSpan] ++ h.sexprFlags.map .word ++
    (h.text.map String.toList).toList.map .quoted

namespace Snapshot

mutual

def tokens : Snapshot → List Token
  | .node head children => .opening :: (head.tokens ++ tokensOf children ++ [.closing])

def tokensOf : List Snapshot → List Token
  | [] => []
  | s :: rest => s.tokens ++ tokensOf rest

end

end Snapshot

/-! ## What is printed falls apart into them -/

theorem ends_spaced (item : List Char) : Ends (spaced item) := by
  intro c hc
  cases hc
  rfl

theorem reads_sexprSpan (h : SnapshotHead) : Reads h.sexprSpan [.word h.sexprSpan] := by
  refine .word (by simp [SnapshotHead.sexprSpan]) ?_
  simp only [SnapshotHead.sexprSpan, Point.sexpr, List.mem_append, List.mem_cons]
  rintro c ((hc | rfl | hc) | rfl | hc | rfl | hc)
  · exact isDelimiter_decimal hc
  · decide
  · exact isDelimiter_decimal hc
  · decide
  · exact isDelimiter_decimal hc
  · decide
  · exact isDelimiter_decimal hc

theorem reads_flag {h : SnapshotHead} {flag : List Char} (hmem : flag ∈ h.sexprFlags) :
    Reads flag [.word flag] := by
  have hflag : flag = errorFlag ∨ flag = missingFlag := by
    simp only [SnapshotHead.sexprFlags, List.mem_append] at hmem
    rcases hmem with hmem | hmem <;> split at hmem <;> simp_all
  have hplain : flag ≠ [] ∧ (flag.all fun c => !Text.isDelimiter c) = true := by
    rcases hflag with rfl | rfl <;> decide
  exact .word hplain.1 fun c hc => by simpa using List.all_eq_true.mp hplain.2 c hc

/-- All that stands before the children of a node. -/
def SnapshotHead.front (h : SnapshotHead) (isCompact : Bool) : List Char :=
  Sexpr.front (.full isCompact) (Text.atom h.kind.toList) h.sexprSpan h.sexprFlags
    (h.text.map String.toList)

theorem reads_front (h : SnapshotHead) (isCompact : Bool) : Reads (h.front isCompact) h.tokens := by
  have hflags : Reads (h.sexprFlags.flatMap spaced) (h.sexprFlags.map .word) :=
    .flatMap (fun flag hflag => (reads_flag hflag).spaced) ends_spaced
  have htext : Reads ((h.text.map String.toList).toList.flatMap fun t => spaced (Text.quote t))
      ((h.text.map String.toList).toList.map .quoted) :=
    .flatMap (fun t _ => (Reads.quote t).spaced) fun t => ends_spaced _
  exact (((reads_atom _).append (reads_sexprSpan h).spaced (ends_spaced _)).append hflags
    (ends_flatMap ends_spaced _)).append htext (ends_flatMap (fun t => ends_spaced _) _)

theorem reads_lineBreak (o : SexprOptions) (depth : Nat) {text : List Char} {tokens : List Token}
    (h : Reads text tokens) : Reads (lineBreak o depth ++ text) tokens := by
  intro rest hrest
  rw [List.append_assoc, scan?_blanks fun _ => isBlank_of_mem_lineBreak]
  exact h rest hrest

theorem ends_lineBreak (o : SexprOptions) (depth : Nat) (text : List Char) :
    Ends (lineBreak o depth ++ text) := by
  intro c hc
  unfold lineBreak at hc
  split at hc <;> cases hc <;> rfl

namespace Snapshot

mutual

theorem write_full (isCompact : Bool) (lead : List Char) (depth : Nat) : (s : Snapshot) →
    ∃ text, write (.full isCompact) lead depth .unlimited s.sexpr = (lead ++ text, .unlimited) ∧
      Reads text s.tokens
  | .node head children => by
    obtain ⟨inside, hinside, hreads, hends⟩ := writeAll_full isCompact (depth + 1) children
    refine ⟨'(' :: (head.front isCompact ++ inside ++ [')']), ?_, ?_⟩
    · have hcut : isCut (.full isCompact) depth = false := rfl
      simp only [sexpr, write, hcut, Bool.false_and, Budget.less, hinside]
      simp [SnapshotHead.front]
    · have hclosing : Ends [')'] := by intro c hc; cases hc; rfl
      exact .opening (((reads_front head isCompact).append hreads hends).append .closing hclosing)

theorem writeAll_full (isCompact : Bool) (depth : Nat) : (trees : List Snapshot) →
    ∃ text, writeAll (.full isCompact) depth .unlimited (sexprs trees) = (text, .unlimited) ∧
      Reads text (tokensOf trees) ∧ Ends text
  | [] => ⟨[], rfl, .nil, by intro c hc; cases hc⟩
  | s :: rest => by
    obtain ⟨first, hfirst, hreads⟩ :=
      write_full isCompact (lineBreak (.full isCompact) depth) depth s
    obtain ⟨others, hothers, hmore, hends⟩ := writeAll_full isCompact depth rest
    refine ⟨lineBreak (.full isCompact) depth ++ first ++ others, ?_, ?_, ?_⟩
    · simp only [sexprs, writeAll, hfirst, hothers]
    · exact (reads_lineBreak _ _ hreads).append hmore hends
    · rw [List.append_assoc]
      exact ends_lineBreak _ _ _

end

theorem scan?_format (isCompact : Bool) (s : Snapshot) :
    scan? (s.format (.full isCompact)).toList = some s.tokens := by
  obtain ⟨text, htext, hreads⟩ := write_full isCompact [] 0 s
  have hformat : (s.format (.full isCompact)).toList = text := by
    have hbudget : Budget.ofLimit (SexprOptions.full isCompact).maxNodes = .unlimited := rfl
    simp [format, render, hbudget, htext, writeAll]
  have hend : Ends [] := by intro c hc; cases hc
  have hall := hreads [] hend
  rw [List.append_nil, scan?, Option.map_some, List.append_nil] at hall
  rw [hformat, hall]

end Snapshot

/-! ## Reading tokens -/

/-- A number up to the character after it, and what comes after that character. -/
def numberTo? (stop : Char) (text : List Char) : Option (Nat × List Char) :=
  match text.dropWhile Char.isDigit with
  | [] => none
  | c :: rest =>
    if c = stop then some (Nat.ofDigitChars 10 (text.takeWhile Char.isDigit) 0, rest) else none

def places? (text : List Char) : Option (Point × Point) := do
  let (row, text) ← numberTo? ':' text
  let (col, text) ← numberTo? '-' text
  let (lastRow, text) ← numberTo? ':' text
  return (⟨row, col⟩, ⟨lastRow, Nat.ofDigitChars 10 text 0⟩)

theorem numberTo?_decimal {stop : Char} (hstop : stop.isDigit = false) (n : Nat)
    (rest : List Char) : numberTo? stop (decimal n ++ stop :: rest) = some (n, rest) := by
  have hdigits : ∀ c ∈ decimal n, c.isDigit = true := fun c hc =>
    Nat.isDigit_of_mem_toDigits (by decide) (by decide) hc
  have hvalue : Nat.ofDigitChars 10 (decimal n) 0 = n :=
    Nat.ofDigitChars_toDigits (by decide) (by decide)
  rw [numberTo?, List.dropWhile_append_of_pos hdigits, List.takeWhile_append_of_pos hdigits]
  simp [hstop, hvalue]

theorem places?_sexprSpan (h : SnapshotHead) : places? h.sexprSpan = some (h.start, h.stop) := by
  have hlast : Nat.ofDigitChars 10 (decimal h.stop.col) 0 = h.stop.col :=
    Nat.ofDigitChars_toDigits (by decide) (by decide)
  have hcolon : Char.isDigit ':' = false := rfl
  have hdash : Char.isDigit '-' = false := rfl
  simp [places?, SnapshotHead.sexprSpan, Point.sexpr, numberTo?_decimal hcolon,
    numberTo?_decimal hdash, hlast]

/-- A node of which not everything has been read. -/
inductive Snapshot.Part where
  | empty
  | named (kind : String)
  | node (head : SnapshotHead) (children : List Snapshot)

/-- The open nodes, the innermost first, and the trees that are complete. -/
structure Snapshot.Assembly where
  parts : List Snapshot.Part
  complete : List Snapshot

def SnapshotHead.mark? (h : SnapshotHead) (flag : List Char) : Option SnapshotHead :=
  if flag = errorFlag then some { h with isError := true }
  else if flag = missingFlag then some { h with isMissing := true }
  else none

namespace Snapshot.Assembly

def add (a : Assembly) (s : Snapshot) : Assembly :=
  match a.parts with
  | .node head children :: outer => { a with parts := .node head (children ++ [s]) :: outer }
  | _ => { a with complete := a.complete ++ [s] }

def step? (a : Assembly) (token : Token) : Option Assembly :=
  match a.parts, token with
  | parts, .opening => some { a with parts := .empty :: parts }
  | .empty :: outer, .word text => some { a with parts := .named (String.ofList text) :: outer }
  | .empty :: outer, .quoted text => some { a with parts := .named (String.ofList text) :: outer }
  | .named kind :: outer, .word text =>
    (places? text).map fun (start, stop) =>
      { a with parts := .node ⟨kind, none, start, stop, 0, 0, false, false⟩ [] :: outer }
  | .node head [] :: outer, .word text =>
    (head.mark? text).map fun head => { a with parts := .node head [] :: outer }
  | .node head [] :: outer, .quoted text =>
    some { a with parts := .node { head with text := some (String.ofList text) } [] :: outer }
  | .node head children :: outer, .closing =>
    some (add { a with parts := outer } (.node head children))
  | _, _ => none

def run? (a : Assembly) (tokens : List Token) : Option Assembly := tokens.foldlM step? a

theorem run?_append (a : Assembly) (first rest : List Token) :
    a.run? (first ++ rest) = (a.run? first).bind (·.run? rest) := List.foldlM_append

theorem run?_cons (a : Assembly) (token : Token) (rest : List Token) :
    a.run? (token :: rest) = (a.step? token).bind (·.run? rest) := List.foldlM_cons

theorem step?_opening (a : Assembly) :
    a.step? .opening = some { a with parts := .empty :: a.parts } := by
  unfold step?
  split <;> simp_all

theorem step?_closing (head : SnapshotHead) (children : List Snapshot) (outer : List Part)
    (complete : List Snapshot) :
    step? ⟨.node head children :: outer, complete⟩ .closing =
      some (add ⟨outer, complete⟩ (.node head children)) := by
  cases children <;> rfl

theorem step?_atomToken (outer : List Part) (complete : List Snapshot) (kind : String) :
    step? ⟨.empty :: outer, complete⟩ (atomToken kind.toList) =
      some ⟨.named kind :: outer, complete⟩ := by
  unfold atomToken
  split <;> simp [step?]

/-- The flags and the text of a node that has no children yet. -/
theorem run?_marks (outer : List Part) (complete : List Snapshot) (h : SnapshotHead) :
    run? ⟨.node ⟨h.kind, none, h.start, h.stop, 0, 0, false, false⟩ [] :: outer, complete⟩
        (h.sexprFlags.map .word ++ (h.text.map String.toList).toList.map .quoted) =
      some ⟨.node h.withoutBytes [] :: outer, complete⟩ := by
  obtain ⟨kind, text, start, stop, startByte, stopByte, isError, isMissing⟩ := h
  have hdiffer : missingFlag ≠ errorFlag := by decide
  cases isError <;> cases isMissing <;> cases text <;>
    simp [SnapshotHead.sexprFlags, SnapshotHead.withoutBytes, run?, step?, SnapshotHead.mark?,
      hdiffer]

theorem run?_head (outer : List Part) (complete : List Snapshot) (h : SnapshotHead) :
    run? ⟨.empty :: outer, complete⟩ h.tokens =
      some ⟨.node h.withoutBytes [] :: outer, complete⟩ := by
  have hplaces : step? ⟨.named h.kind :: outer, complete⟩ (.word h.sexprSpan) =
      some ⟨.node ⟨h.kind, none, h.start, h.stop, 0, 0, false, false⟩ [] :: outer, complete⟩ := by
    simp [step?, places?_sexprSpan]
  rw [SnapshotHead.tokens, List.append_assoc, List.append_assoc, List.singleton_append,
    List.singleton_append, run?_cons, step?_atomToken, Option.bind_some, run?_cons, hplaces,
    Option.bind_some, run?_marks]

mutual

/-- The tokens of a tree add that tree. -/
theorem run?_tokens (a : Assembly) : (s : Snapshot) →
    a.run? s.tokens = some (a.add s.withoutBytes)
  | .node head children => by
    have hchildren := run?_tokensOf a.parts a.complete head.withoutBytes [] children
    rw [tokens, run?_cons, step?_opening, Option.bind_some, run?_append, run?_append, run?_head,
      Option.bind_some, hchildren, Option.bind_some, run?_cons, step?_closing]
    rfl

theorem run?_tokensOf (outer : List Part) (complete : List Snapshot) (head : SnapshotHead)
    (before : List Snapshot) : (trees : List Snapshot) →
    run? ⟨.node head before :: outer, complete⟩ (tokensOf trees) =
      some ⟨.node head (before ++ withoutBytesOf trees) :: outer, complete⟩
  | [] => by
    rw [withoutBytesOf, List.append_nil]
    rfl
  | s :: rest => by
    have hadd : add ⟨.node head before :: outer, complete⟩ s.withoutBytes =
        ⟨.node head (before ++ [s.withoutBytes]) :: outer, complete⟩ := rfl
    rw [tokensOf, run?_append, run?_tokens, Option.bind_some, hadd, run?_tokensOf, withoutBytesOf,
      List.append_assoc]
    rfl

end

end Snapshot.Assembly

namespace Snapshot

def read? (text : String) : Option Snapshot := do
  let tokens ← scan? text.toList
  let a ← Assembly.run? ⟨[], []⟩ tokens
  match a.parts, a.complete with
  | [], [s] => some s
  | _, _ => none

theorem read?_format (isCompact : Bool) (s : Snapshot) :
    read? (s.format (.full isCompact)) = some s.withoutBytes := by
  have hrun : Assembly.run? ⟨[], []⟩ s.tokens = some ⟨[], [s.withoutBytes]⟩ :=
    Assembly.run?_tokens ⟨[], []⟩ s
  simp [read?, scan?_format, hrun]

mutual

theorem sexpr_withoutBytes : (s : Snapshot) → s.withoutBytes.sexpr = s.sexpr
  | .node head children => by
    rw [withoutBytes, sexpr, sexpr, sexprs_withoutBytesOf]
    rfl

theorem sexprs_withoutBytesOf : (trees : List Snapshot) →
    sexprs (withoutBytesOf trees) = sexprs trees
  | [] => rfl
  | s :: rest => by
    rw [withoutBytesOf, sexprs, sexprs, sexpr_withoutBytes, sexprs_withoutBytesOf]

end

/-- A print without limits tells two snapshots apart unless they differ in byte offsets only,
and both forms of it can be read back. -/
theorem format_full_readable (isCompact : Bool) :
    (∀ s : Snapshot, read? (s.format (.full isCompact)) = some s.withoutBytes) ∧
    ∀ a b : Snapshot, a.format (.full isCompact) = b.format (.full isCompact) ↔
      a.withoutBytes = b.withoutBytes := by
  refine ⟨read?_format isCompact, fun a b => ⟨fun h => ?_, fun h => ?_⟩⟩
  · have hread := read?_format isCompact b
    rw [← h, read?_format isCompact a] at hread
    exact Option.some.inj hread
  · rw [format, format, ← sexpr_withoutBytes a, h, sexpr_withoutBytes b]

end Snapshot

end ScriptLens
