import ScriptLens.Proofs.Sexpr.Tokens

/-! # Prints are balanced

A scan that skips quoted texts counts the open parentheses of a print. What is written between
the parentheses of a node takes a scan back to where it started and never below: names, kinds
and texts are quoted where they have a parenthesis or a quote, inside quotes no quote ends the
text before its end, and a cut puts down both parentheses of the dots. So no limit can leave a
parenthesis or a quote open.
-/
namespace ScriptLens

namespace Sexpr

open Text

/-- Where a scan is: outside of quoted texts, inside one, or inside one behind a backslash. -/
inductive Place where
  | outside
  | inside
  | escaped
deriving DecidableEq

structure Scan where
  depth : Int
  place : Place
deriving DecidableEq

namespace Scan

def step (s : Scan) (c : Char) : Scan :=
  match s.place with
  | .outside =>
    if c = '"' then { s with place := .inside }
    else if c = '(' then { s with depth := s.depth + 1 }
    else if c = ')' then { s with depth := s.depth - 1 }
    else s
  | .inside =>
    if c = '"' then { s with place := .outside }
    else if c = '\\' then { s with place := .escaped }
    else s
  | .escaped => { s with place := .inside }

def run (s : Scan) (text : List Char) : Scan := text.foldl step s

theorem run_append (s : Scan) (text more : List Char) :
    s.run (text ++ more) = (s.run text).run more := List.foldl_append

end Scan

/-- No parenthesis is closed that is not open, and in the end all are closed, and all quotes. -/
structure Balanced (text : List Char) : Prop where
  nonneg : ∀ start, start <+: text → 0 ≤ (Scan.run ⟨0, .outside⟩ start).depth
  settled : Scan.run ⟨0, .outside⟩ text = ⟨0, .outside⟩

/-! ## Texts that keep the depth -/

/-- A scan that comes to the text in the first place leaves it in the second, as deep as before
and in between never less deep. -/
structure Carries (s t : Place) (text : List Char) : Prop where
  ends : ∀ d, Scan.run ⟨d, s⟩ text = ⟨d, t⟩
  above : ∀ d start, start <+: text → d ≤ (Scan.run ⟨d, s⟩ start).depth

abbrev Level (text : List Char) : Prop := Carries .outside .outside text

theorem Level.balanced {text : List Char} (h : Level text) : Balanced text := ⟨h.above 0, h.ends 0⟩

namespace Carries

variable {s t u : Place} {text more : List Char}

theorem nil (s : Place) : Carries s s [] := by
  refine ⟨fun d => rfl, ?_⟩
  intro d start hstart
  rw [List.prefix_nil.mp hstart]
  exact Int.le_refl d

theorem append (h : Carries s t text) (hmore : Carries t u more) : Carries s u (text ++ more) := by
  constructor
  · intro d
    rw [Scan.run_append, h.ends, hmore.ends]
  · intro d start hstart
    rcases List.prefix_or_prefix_of_prefix hstart (List.prefix_append text more) with hle | hge
    · exact h.above d start hle
    · obtain ⟨rest, rfl⟩ := hge
      rw [Scan.run_append, h.ends]
      exact hmore.above d rest ((List.prefix_append_right_inj text).mp hstart)

theorem singleton {c : Char} (h : ∀ d, Scan.step ⟨d, s⟩ c = ⟨d, t⟩) : Carries s t [c] := by
  refine ⟨h, ?_⟩
  intro d start hstart
  rcases List.prefix_cons_iff.mp hstart with rfl | ⟨rest, rfl, hrest⟩
  · exact Int.le_refl d
  · rw [List.prefix_nil.mp hrest]
    exact Int.le_of_eq (congrArg Scan.depth (h d)).symm

theorem cons {c : Char} (h : ∀ d, Scan.step ⟨d, s⟩ c = ⟨d, t⟩) (htext : Carries t u text) :
    Carries s u (c :: text) := (singleton h).append htext

theorem flatMap {α : Type} {f : α → List Char} {items : List α}
    (h : ∀ a ∈ items, Carries s s (f a)) : Carries s s (items.flatMap f) := by
  induction items with
  | nil => exact nil s
  | cons a items ih =>
    have hrest := ih fun b hb => h b (List.mem_cons_of_mem a hb)
    exact (h a List.mem_cons_self).append hrest

/-- A row of characters none of which matters. -/
theorem idle (h : ∀ c ∈ text, ∀ d, Scan.step ⟨d, s⟩ c = ⟨d, s⟩) : Carries s s text := by
  induction text with
  | nil => exact nil s
  | cons c text ih =>
    have hrest := ih fun b hb => h b (List.mem_cons_of_mem c hb)
    exact cons (h c List.mem_cons_self) hrest

end Carries

theorem level_of_plain {text : List Char} (h : text.any isDelimiter = false) : Level text := by
  refine .idle fun c hc d => ?_
  have hplain := List.any_eq_false.mp h c hc
  simp only [isDelimiter, Bool.not_eq_true, Bool.or_eq_false_iff, beq_eq_false_iff_ne] at hplain
  obtain ⟨⟨⟨_, hopening⟩, hclosing⟩, hquote⟩ := hplain
  simp [Scan.step, hopening, hclosing, hquote]

theorem level_of_isBlank {text : List Char} (h : ∀ c ∈ text, isBlank c = true) : Level text := by
  refine .idle fun c hc d => ?_
  have hblank := h c hc
  have hopening : c ≠ '(' := by rintro rfl; cases hblank
  have hclosing : c ≠ ')' := by rintro rfl; cases hblank
  have hquote : c ≠ '"' := by rintro rfl; cases hblank
  simp [Scan.step, hopening, hclosing, hquote]

theorem Level.parens {text : List Char} (h : Level text) : Level ('(' :: text ++ [')']) := by
  have hopen : ∀ d, Scan.step ⟨d, .outside⟩ '(' = ⟨d + 1, .outside⟩ := fun _ => rfl
  constructor
  · intro d
    have hclose : Scan.step ⟨d + 1, .outside⟩ ')' = ⟨d, .outside⟩ := by simp [Scan.step]
    have hinside := h.ends (d + 1)
    simp only [Scan.run] at hinside
    simp [Scan.run, hopen, hinside, hclose]
  · intro d start hstart
    rw [List.cons_append] at hstart
    rcases List.prefix_cons_iff.mp hstart with rfl | ⟨rest, rfl, hrest⟩
    · exact Int.le_refl d
    · have hcons : Scan.run ⟨d, .outside⟩ ('(' :: rest) = Scan.run ⟨d + 1, .outside⟩ rest := rfl
      rw [hcons]
      rcases List.prefix_concat_iff.mp hrest with rfl | hle
      · rw [Scan.run_append, h.ends]
        simp [Scan.run, Scan.step]
      · have habove := h.above (d + 1) rest hle
        omega

/-! ## Quoted texts and atoms -/

theorem carries_hexPadded {n : Nat} (h : n < 256) : Carries .inside .inside (hexPadded 4 n) := by
  have hdigit : ∀ k < 16, Nat.digitChar k ≠ '"' ∧ Nat.digitChar k ≠ '\\' := by decide
  rw [hexPadded_of_lt h]
  have hhigh := hdigit (n / 16) (by omega)
  have hlow := hdigit (n % 16) (by omega)
  refine .idle fun c hc d => ?_
  simp only [List.mem_cons, List.not_mem_nil, or_false] at hc
  rcases hc with rfl | rfl | rfl | rfl
  · rfl
  · rfl
  · simp [Scan.step, hhigh]
  · simp [Scan.step, hlow]

/-- No character ends a quoted text. -/
theorem carries_escape (c : Char) : Carries .inside .inside (escape c) := by
  have hpair : ∀ e : Char, Carries .inside .inside ['\\', e] := fun e =>
    .cons (fun _ => rfl) (.singleton fun _ => rfl)
  unfold escape
  split
  · exact hpair '"'
  split
  · exact hpair '\\'
  split
  · exact hpair 'n'
  split
  · exact hpair 'r'
  split
  · exact hpair 't'
  split
  · next hcontrol =>
    exact (hpair 'u').append (carries_hexPadded (toNat_lt_of_isControl hcontrol))
  · next hquote hback _ _ _ _ => exact .singleton fun d => by simp [Scan.step, hquote, hback]

theorem level_quote (text : List Char) : Level (quote text) :=
  .cons (fun _ => rfl)
    ((Carries.flatMap fun c _ => carries_escape c).append (.singleton fun _ => rfl))

theorem level_atom (text : List Char) : Level (atom text) := by
  unfold atom
  split
  · exact level_quote text
  · next h =>
    rw [Bool.not_eq_true, Bool.or_eq_false_iff] at h
    exact level_of_plain h.2

theorem Level.spaced {text : List Char} (h : Level text) : Level (spaced text) :=
  .cons (fun _ => rfl) h

/-! ## Prints of trees -/

mutual

/-- All that is printed as it is keeps the depth. -/
def Quiet : Sexpr → Prop
  | .node head span flags _ children =>
    Level head ∧ Level span ∧ (∀ flag ∈ flags, Level flag) ∧ AllQuiet children

def AllQuiet : List Sexpr → Prop
  | [] => True
  | t :: rest => t.Quiet ∧ AllQuiet rest

end

theorem allQuiet_iff {ts : List Sexpr} : AllQuiet ts ↔ ∀ t ∈ ts, t.Quiet := by
  induction ts with
  | nil => simp [AllQuiet]
  | cons t rest ih => simp [AllQuiet, ih]

theorem level_lineBreak (o : SexprOptions) (depth : Nat) : Level (lineBreak o depth) :=
  level_of_isBlank fun _ => isBlank_of_mem_lineBreak

theorem level_placeholder : Level placeholder := by
  have hdots : Level "...".toList := level_of_plain (by decide)
  exact hdots.parens

theorem level_front (o : SexprOptions) {head span : List Char} {flags : List (List Char)}
    (text : Option (List Char)) (hhead : Level head) (hspan : Level span)
    (hflags : ∀ flag ∈ flags, Level flag) : Level (front o head span flags text) := by
  have hplace : Level (if o.withSpan then spaced span else []) := by
    split
    · exact hspan.spaced
    · exact .nil _
  have hmarks : Level (if o.withFlags then flags.flatMap spaced else []) := by
    split
    · exact .flatMap fun flag hflag => Level.spaced (hflags flag hflag)
    · exact .nil _
  have htext :
      Level (if o.withText then text.toList.flatMap fun t => spaced (quote t) else []) := by
    split
    · exact .flatMap fun t _ => (level_quote t).spaced
    · exact .nil _
  exact ((hhead.append hplace).append hmarks).append htext

mutual

theorem level_write (o : SexprOptions) {lead : List Char} (hlead : Level lead) (depth : Nat)
    (budget : Budget) : (t : Sexpr) → t.Quiet → Level (write o lead depth budget t).1
  | .node head span flags text children, h => by
    obtain ⟨hhead, hspan, hflags, hchildren⟩ := h
    have hfront := level_front o text hhead hspan hflags
    have hnode : Level (lead ++ '(' :: front o head span flags text ++
        (if isCut o depth && !children.isEmpty then
          (lineBreak o (depth + 1) ++ placeholder, budget.less)
        else writeAll o (depth + 1) budget.less children).1 ++ [')']) := by
      have hinside : Level (if isCut o depth && !children.isEmpty then
          (lineBreak o (depth + 1) ++ placeholder, budget.less)
        else writeAll o (depth + 1) budget.less children).1 := by
        split
        · exact (level_lineBreak o _).append level_placeholder
        · exact level_writeAll o (depth + 1) budget.less children hchildren
      have hall := hlead.append (Level.parens (hfront.append hinside))
      simpa using hall
    unfold write
    split
    · exact .nil _
    · exact hlead.append level_placeholder
    · exact hnode

theorem level_writeAll (o : SexprOptions) (depth : Nat) (budget : Budget) :
    (ts : List Sexpr) → AllQuiet ts → Level (writeAll o depth budget ts).1
  | [], _ => .nil _
  | t :: rest, h =>
    (level_write o (level_lineBreak o depth) depth budget t h.1).append
      (level_writeAll o depth _ rest h.2)

end

theorem level_render (o : SexprOptions) {ts : List Sexpr} (h : AllQuiet ts) :
    Level (render o ts) := by
  cases ts with
  | nil => exact .nil _
  | cons t rest =>
    exact (level_write o (.nil _) 0 _ t h.1).append (level_writeAll o 0 _ rest h.2)

end Sexpr

open Sexpr

/-! ## Indexes and snapshots -/

theorem level_decimal (n : Nat) : Level (decimal n) :=
  level_of_plain (List.any_eq_false.mpr fun _ hc => by simp [isDelimiter_decimal hc])

theorem level_errorFlag : Level errorFlag := level_of_plain (by decide)

theorem level_missingFlag : Level missingFlag := level_of_plain (by decide)

namespace NodeRecord

theorem level_sexprHead (n : NodeRecord) : Level n.sexprHead := by
  refine (level_atom _).append ?_
  split
  · exact (level_quote _).spaced
  · split
    · exact .nil _
    · exact (level_atom _).spaced

theorem level_sexprSpan (n : NodeRecord) : Level n.sexprSpan := by
  have hdots : Level "..".toList := level_of_plain (by decide)
  exact ((level_decimal _).append hdots).append (level_decimal _)

end NodeRecord

/-- Whatever links an index has, its links to later nodes make a tree. -/
theorem Index.quiet_sexprFrom (x : Index) (id : Nat) : (x.sexprFrom id).Quiet := by
  fun_induction Index.sexprFrom x id with
  | case1 id hnone =>
    have hmark : Level ['?'] := level_of_plain (by decide)
    exact ⟨hmark, .nil _, by simp, trivial⟩
  | case2 id n hn ih =>
    refine ⟨n.level_sexprHead, n.level_sexprSpan, ?_, allQuiet_iff.mpr ?_⟩
    · intro flag hflag
      split at hflag
      · rw [List.mem_singleton.mp hflag]
        exact level_errorFlag
      · cases hflag
    · intro t ht
      obtain ⟨c, -, hc⟩ := List.mem_flatMap.mp ht
      split at hc
      · next hlater =>
        rw [List.mem_singleton.mp hc]
        exact ih c hlater
      · cases hc

namespace SnapshotHead

theorem level_sexprSpan (h : SnapshotHead) : Level h.sexprSpan := by
  have hcolon : Level [':'] := level_of_plain (by decide)
  have hdash : Level ['-'] := level_of_plain (by decide)
  have hpoint : ∀ p : Point, Level p.sexpr := fun p =>
    (level_decimal p.row).append (hcolon.append (level_decimal p.col))
  exact (hpoint h.start).append (hdash.append (hpoint h.stop))

theorem level_of_mem_sexprFlags {h : SnapshotHead} {flag : List Char}
    (hflag : flag ∈ h.sexprFlags) : Level flag := by
  rcases List.mem_append.mp hflag with herror | hmissing
  · split at herror
    · rw [List.mem_singleton.mp herror]
      exact level_errorFlag
    · cases herror
  · split at hmissing
    · rw [List.mem_singleton.mp hmissing]
      exact level_missingFlag
    · cases hmissing

end SnapshotHead

namespace Snapshot

mutual

theorem quiet_sexpr : (s : Snapshot) → s.sexpr.Quiet
  | .node head children =>
    ⟨level_atom _, head.level_sexprSpan, fun _ => SnapshotHead.level_of_mem_sexprFlags,
      allQuiet_sexprs children⟩

theorem allQuiet_sexprs : (trees : List Snapshot) → AllQuiet (sexprs trees)
  | [] => trivial
  | s :: rest => ⟨quiet_sexpr s, allQuiet_sexprs rest⟩

end

end Snapshot

/-- Under every limit, and whatever stands in names, labels, kinds and texts, parentheses and
quotes are balanced in the print of an index and of a snapshot. -/
theorem format_balanced (o : SexprOptions) :
    (∀ x : Index, Balanced (x.format o).toList) ∧
    ∀ s : Snapshot, Balanced (s.format o).toList := by
  constructor
  · intro x
    have hquiet : AllQuiet (x.roots.toList.map x.sexprFrom) := by
      rw [allQuiet_iff]
      intro t ht
      obtain ⟨root, -, rfl⟩ := List.mem_map.mp ht
      exact x.quiet_sexprFrom root
    rw [Index.format, String.toList_ofList]
    exact (level_render o hquiet).balanced
  · intro s
    have hquiet : AllQuiet [s.sexpr] := ⟨s.quiet_sexpr, trivial⟩
    rw [Snapshot.format, String.toList_ofList]
    exact (level_render o hquiet).balanced

end ScriptLens
