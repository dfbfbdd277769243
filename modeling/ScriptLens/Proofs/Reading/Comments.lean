import Mathlib.Data.List.Basic
import Mathlib.Data.Option.Basic
import ScriptLens.Analysis
import ScriptLens.Proofs.Reading.Nodes

/-! # Readings without comments

A comment without a role is part of nothing, so every reader of a site finds the same parts
after such comments are gone. By induction over the tree the program is the same too, and
with it all that is computed from the program.
-/
namespace ScriptLens

open Rose

/-- No kind but these two is read as a comment. -/
theorem Cst.Form.isComment_ofKind {kind : String} (hcomment : kind ≠ "comment")
    (hhtml : kind ≠ "html_comment") : (ofKind kind).isComment = false := by
  have htable : ∀ entry ∈ table, entry.2.isComment = true →
      entry.1 = "comment" ∨ entry.1 = "html_comment" := by
    decide +kernel
  cases hform : table.lookup kind with
  | none =>
    rw [ofKind, hform]
    rfl
  | some form =>
    obtain ⟨before, after, hsplit, _⟩ := List.lookup_eq_some_iff.mp hform
    have hmem : (kind, form) ∈ table := by simp [hsplit]
    rw [ofKind, hform, Option.getD_some, Bool.eq_false_iff]
    intro hread
    rcases htable _ hmem hread with h | h
    · exact hcomment h
    · exact hhtml h

namespace CstHead

def isComment (h : CstHead) : Bool := h.form.isComment

/-- A comment that plays no role for its parent. -/
def isStray (h : CstHead) : Bool := h.isComment && h.field.isNone

end CstHead

mutual

/-- The reading of a tree without the stray comments below its root. -/
def Reading.prune : Reading → Reading
  | ⟨head, expr, items, stmt, pattern, children⟩ =>
    ⟨head, expr, items, stmt, pattern, Reading.prunes children⟩

def Reading.prunes : List Reading → List Reading
  | [] => []
  | r :: rest => if r.head.isStray then Reading.prunes rest else r.prune :: Reading.prunes rest

end

def Site.prune (s : Site) : Site := ⟨s.head, Reading.prunes s.children⟩

namespace Reading

@[simp] theorem head_prune (r : Reading) : r.prune.head = r.head := by
  cases r
  rw [prune]

@[simp] theorem expr_prune (r : Reading) : r.prune.expr = r.expr := by
  cases r
  rw [prune]

@[simp] theorem items_prune (r : Reading) : r.prune.items = r.items := by
  cases r
  rw [prune]

@[simp] theorem stmt_prune (r : Reading) : r.prune.stmt = r.stmt := by
  cases r
  rw [prune]

@[simp] theorem pattern_prune (r : Reading) : r.prune.pattern = r.pattern := by
  cases r
  rw [prune]

@[simp] theorem site_prune (r : Reading) : r.prune.site = r.site.prune := by
  cases r
  rw [prune]
  rfl

@[simp] theorem form_prune (r : Reading) : r.prune.form = r.form := by
  rw [form, head_prune, form]

@[simp] theorem span_prune (r : Reading) : r.prune.span = r.span := by
  rw [span, head_prune, span]

theorem prunes_eq (rs : List Reading) : prunes rs = (rs.filter (!·.head.isStray)).map prune := by
  induction rs with
  | nil => rfl
  | cons r rest ih =>
    rw [prunes]
    split <;> simp_all

/-- A selection that takes no stray comment finds the same children. -/
theorem filter_prunes {p : Reading → Bool} (hp : ∀ r, p r.prune = p r)
    (hstray : ∀ r, p r = true → r.head.isStray = false) (rs : List Reading) :
    (prunes rs).filter p = (rs.filter p).map prune := by
  rw [prunes_eq, List.filter_map, List.filter_filter]
  congr 1
  apply List.filter_congr
  intro r _
  cases hr : p r with
  | false => simp [hp, hr]
  | true => simp [hp, hr, hstray r hr]

theorem find?_prunes {p : Reading → Bool} (hp : ∀ r, p r.prune = p r)
    (hstray : ∀ r, p r = true → r.head.isStray = false) (rs : List Reading) :
    (prunes rs).find? p = (rs.find? p).map prune := by
  rw [← List.head?_filter, ← List.head?_filter, filter_prunes hp hstray, List.head?_map]

end Reading

namespace Site

@[simp] theorem head_prune (s : Site) : s.prune.head = s.head := rfl

@[simp] theorem form_prune (s : Site) : s.prune.form = s.form := rfl

@[simp] theorem span_prune (s : Site) : s.prune.span = s.span := rfl

theorem isStray_of_isPart {r : Reading} (h : r.isPart = true) : r.head.isStray = false := by
  simp only [Reading.isPart, Reading.form, Bool.and_eq_true, Bool.not_eq_true'] at h
  simp [CstHead.isStray, CstHead.isComment, h.2]

theorem isStray_of_field {r : Reading} {field : String}
    (h : (r.head.field == some field) = true) : r.head.isStray = false := by
  simp only [beq_iff_eq] at h
  simp [CstHead.isStray, h]

@[simp] theorem parts_prune (s : Site) : s.prune.parts = s.parts.map Reading.prune :=
  Reading.filter_prunes (fun r => by simp [Reading.isPart]) (fun _ => isStray_of_isPart) _

@[simp] theorem first?_prune (s : Site) : s.prune.first? = s.first?.map Reading.prune :=
  Reading.find?_prunes (fun r => by simp [Reading.isPart]) (fun _ => isStray_of_isPart) _

@[simp] theorem field?_prune (s : Site) (field : String) :
    s.prune.field? field = (s.field? field).map Reading.prune :=
  Reading.find?_prunes (fun r => by simp) (fun _ => isStray_of_field) _

@[simp] theorem fields_prune (s : Site) (field : String) :
    s.prune.fields field = (s.fields field).map Reading.prune :=
  Reading.filter_prunes (fun r => by simp) (fun _ => isStray_of_field) _

@[simp] theorem partOf?_prune (s : Site) (form : Cst.Form) :
    s.prune.partOf? form = (s.partOf? form).map Reading.prune := by
  have hform : (fun r : Reading => r.form == form) ∘ Reading.prune = (·.form == form) := by
    funext r
    simp
  rw [partOf?, parts_prune, List.find?_map, hform, partOf?]

/-- Words are no comments. -/
theorem token?_prune (s : Site) {words : List String}
    (h : ∀ word ∈ words, word ≠ "comment" ∧ word ≠ "html_comment") :
    s.prune.token? words = (s.token? words).map Reading.prune := by
  apply Reading.find?_prunes
  · intro r
    simp
  · intro r hr
    simp only [Bool.and_eq_true, List.contains_eq_mem, decide_eq_true_eq] at hr
    obtain ⟨hcomment, hhtml⟩ := h _ hr.2
    simp [CstHead.isStray, CstHead.isComment, CstHead.form,
      Cst.Form.isComment_ofKind hcomment hhtml]

end Site

section Readers

variable (source : ByteArray) (s : Site) (r : Reading)

namespace Site

@[simp] theorem hasToken_prune {word : String} (hcomment : word ≠ "comment")
    (hhtml : word ≠ "html_comment") : s.prune.hasToken word = s.hasToken word := by
  rw [hasToken, token?_prune s (by simp [hcomment, hhtml]), Option.isSome_map, hasToken]

@[simp] theorem firstExpr_prune : s.prune.firstExpr = s.firstExpr := by
  simp [firstExpr, Function.comp_def]

@[simp] theorem firstExpr?_prune : s.prune.firstExpr? = s.firstExpr? := by
  simp [firstExpr?, Function.comp_def]

@[simp] theorem firstPattern_prune : s.prune.firstPattern = s.firstPattern := by
  simp [firstPattern, Function.comp_def]

@[simp] theorem exprs_prune : s.prune.exprs = s.exprs := by
  simp [exprs, Function.comp_def]

@[simp] theorem patterns_prune : s.prune.patterns = s.patterns := by
  simp [patterns, Function.comp_def]

@[simp] theorem statements_prune : s.prune.statements = s.statements := by
  simp [statements, List.filterMap_map]

@[simp] theorem fieldExpr?_prune (field : String) :
    s.prune.fieldExpr? field = s.fieldExpr? field := by
  simp [fieldExpr?, Function.comp_def]

@[simp] theorem fieldExpr_prune (field : String) : s.prune.fieldExpr field = s.fieldExpr field := by
  simp [fieldExpr, Function.comp_def]

@[simp] theorem fieldPattern_prune (field : String) :
    s.prune.fieldPattern field = s.fieldPattern field := by
  simp [fieldPattern, Function.comp_def]

@[simp] theorem fieldStmt_prune (field : String) : s.prune.fieldStmt field = s.fieldStmt field := by
  simp [fieldStmt, Option.bind_map]

@[simp] theorem fieldText_prune (field : String) :
    s.prune.fieldText source field = s.fieldText source field := by
  simp [fieldText, Function.comp_def]

@[simp] theorem fieldIdent?_prune (field : String) :
    s.prune.fieldIdent? source field = s.fieldIdent? source field := by
  simp [fieldIdent?, Function.comp_def]

@[simp] theorem condition_prune (field : String) : s.prune.condition field = s.condition field := by
  simp only [condition, field?_prune]
  cases s.field? field <;> simp

@[simp] theorem blockSpan_prune (field : String) : s.prune.blockSpan field = s.blockSpan field := by
  simp [blockSpan, Function.comp_def]

@[simp] theorem blockBody_prune (field : String) : s.prune.blockBody field = s.blockBody field := by
  simp [blockBody, Function.comp_def]

@[simp] theorem block_prune (field : String) : s.prune.block field = s.block field := by
  simp [block]

@[simp] theorem params_prune (field : String) : s.prune.params field = s.params field := by
  simp [params, Function.comp_def]

end Site

@[simp] theorem Reading.key_prune : r.prune.key source = r.key source := by
  simp [key]

@[simp] theorem Site.fieldKey_prune (field : String) :
    s.prune.fieldKey source field = s.fieldKey source field := by
  simp [fieldKey, Function.comp_def]

@[simp] theorem Reading.field?_prune : r.prune.field? source = r.field? source := by
  simp [field?]

theorem Site.pattern_prune (expr : Expr) : s.prune.pattern source expr = s.pattern source expr := by
  simp [pattern, List.filterMap_map]

namespace Site

@[simp] theorem callable_prune (span : Span) : s.prune.callable span = s.callable span := by
  simp [callable]

@[simp] theorem methodSpan_prune : s.prune.methodSpan = s.methodSpan := by
  simp only [methodSpan, field?_prune, blockSpan_prune]
  cases s.field? "parameters" <;> simp

@[simp] theorem methodKind_prune : s.prune.methodKind = s.methodKind := by
  rw [methodKind, token?_prune s (by simp), Option.map_map, methodKind]
  simp [Function.comp_def]

@[simp] theorem method_prune : s.prune.method source = s.method source := by
  simp [method]

@[simp] theorem baseClass_prune : s.prune.baseClass = s.baseClass := by
  simp [baseClass, Option.bind_map, Function.comp_def]

end Site

@[simp] theorem Reading.member?_prune : r.prune.member? source = r.member? source := by
  simp [member?, Function.comp_def]

@[simp] theorem Site.members_prune : s.prune.members source = s.members source := by
  simp [members, Function.comp_def, List.filterMap_map]

@[simp] theorem Reading.property?_prune : r.prune.property? source = r.property? source := by
  simp [property?]

@[simp] theorem Reading.access_prune : r.prune.access source = r.access source := by
  simp [access]

@[simp] theorem Reading.arrowBody_prune : r.prune.arrowBody = r.arrowBody := by
  simp [arrowBody]

namespace Site

@[simp] theorem templateParts_prune : s.prune.templateParts = s.templateParts := by
  simp [templateParts, List.filter_map, List.filterMap_map, Function.comp_def,
    List.map_filterMap]

@[simp] theorem isOptional_prune : s.prune.isOptional = s.isOptional := by
  simp [isOptional]

@[simp] theorem arguments_prune : s.prune.arguments = s.arguments := by
  simp [arguments, Function.comp_def]

@[simp] theorem isLeadingUpdate_prune : s.prune.isLeadingUpdate = s.isLeadingUpdate := by
  simp only [isLeadingUpdate, field?_prune]
  cases s.field? "operator" <;> cases s.field? "argument" <;> simp

@[simp] theorem call_prune : s.prune.call = s.call := by
  simp only [call, field?_prune]
  cases s.field? "arguments" <;> simp

@[simp] theorem accessOf_prune : s.prune.accessOf source = s.accessOf source := by
  simp [accessOf, Function.comp_def]

@[simp] theorem arrowParams_prune : s.prune.arrowParams = s.arrowParams := by
  simp only [arrowParams, field?_prune]
  cases s.field? "parameter" <;> simp

@[simp] theorem arrowBody_prune : s.prune.arrowBody = s.arrowBody := by
  simp [arrowBody, Function.comp_def]

@[simp] theorem sequenceItems_prune : s.prune.sequenceItems = s.sequenceItems := by
  simp [sequenceItems, List.flatMap_map]

@[simp] theorem recovered_prune : s.prune.recovered = s.recovered := by
  simp [recovered, List.filter_map, Function.comp_def]

theorem expr_prune : s.prune.expr source = s.expr source := by
  simp [expr, List.filterMap_map]

end Site

@[simp] theorem Reading.declarator?_prune : r.prune.declarator? = r.declarator? := by
  simp [declarator?]

@[simp] theorem Site.declKind_prune : s.prune.declKind source = s.declKind source := by
  rw [declKind, token?_prune s (by simp), declKind]
  simp [Function.comp_def, Option.map_or]

@[simp] theorem Site.declaration_prune : s.prune.declaration source = s.declaration source := by
  simp [declaration, List.filterMap_map]

namespace Reading

@[simp] theorem clause?_prune : r.prune.clause? = r.clause? := by
  simp [clause?, Function.comp_def]

@[simp] theorem forInit?_prune : r.prune.forInit? source = r.forInit? source := by
  simp [forInit?]

@[simp] theorem case?_prune : r.prune.case? = r.case? := by
  simp [case?, List.filterMap_map, Function.comp_def]

@[simp] theorem importedNames_prune : r.prune.importedNames source = r.importedNames source := by
  simp [importedNames, List.filterMap_map, Function.comp_def, Option.bind_map, ← Option.map_or]

@[simp] theorem exportedName?_prune : r.prune.exportedName? source = r.exportedName? source := by
  simp [exportedName?, Option.bind_map]

@[simp] theorem recoveredStmt?_prune : r.prune.recoveredStmt? = r.recoveredStmt? := by
  simp [recoveredStmt?]

@[simp] theorem branch?_prune : r.prune.branch? = r.branch? := by
  simp [branch?, Option.bind_map]

@[simp] theorem handler_prune : r.prune.handler = r.handler := by
  simp [handler, Function.comp_def]

end Reading

namespace Site

@[simp] theorem forStmt_prune : s.prune.forStmt source = s.forStmt source := by
  simp [forStmt, List.filterMap_map, Option.bind_map]

@[simp] theorem forHead_prune : s.prune.forHead source = s.forHead source := by
  rw [forHead, token?_prune s (by simp), field?_prune, field?_prune, ← Option.map_or,
    forHead]
  cases (s.field? "kind").or (s.token? ["var", "let", "const"]) <;> cases s.field? "left" <;> simp

@[simp] theorem tryStmt_prune : s.prune.tryStmt = s.tryStmt := by
  simp [tryStmt, Function.comp_def]

@[simp] theorem switchStmt_prune : s.prune.switchStmt = s.switchStmt := by
  simp [switchStmt, List.filterMap_map, Function.comp_def]

@[simp] theorem moduleSource_prune : s.prune.moduleSource source = s.moduleSource source := by
  simp [moduleSource, Function.comp_def]

@[simp] theorem importDecl_prune : s.prune.importDecl source = s.importDecl source := by
  simp [importDecl, List.flatMap_map, Function.comp_def]

@[simp] theorem exportedNames_prune : s.prune.exportedNames source = s.exportedNames source := by
  simp [exportedNames, List.filterMap_map, Function.comp_def]

@[simp] theorem exportStmt_prune : s.prune.exportStmt source = s.exportStmt source := by
  simp only [exportStmt, field?_prune, span_prune, exportedNames_prune, moduleSource_prune]
  cases s.field? "declaration" <;> cases s.field? "value" <;> simp

theorem stmt_prune (expr : Expr) : s.prune.stmt source expr = s.stmt source expr := by
  simp [stmt, Function.comp_def, Option.bind_map, List.filterMap_map]

theorem reading_prune : s.prune.reading source = (s.reading source).prune := by
  have hitems : ∀ expr, s.prune.items expr = s.items expr := by
    intro expr
    simp [items]
  simp only [reading, expr_prune, hitems, stmt_prune, pattern_prune, Reading.prune]
  rfl

end Site

end Readers

theorem Reading.ofCst_prune (source : ByteArray) (t : Cst) :
    ofCst source (t.prune CstHead.isStray) = (ofCst source t).prune := by
  induction t using Rose.children_induction with
  | step t ih =>
    have hchildren : ((t.children.filter (!·.head.isStray)).map (Rose.prune CstHead.isStray)).map
        (ofCst source) = prunes (t.children.map (ofCst source)) := by
      rw [prunes_eq, List.filter_map, List.map_map, List.map_map]
      have hkept : (fun r : Reading => !r.head.isStray) ∘ ofCst source = (!·.head.isStray) := by
        funext c
        simp
      rw [hkept]
      apply List.map_congr_left
      intro c hc
      exact ih c (List.mem_filter.mp hc).1
    rw [ofCst_eq, ofCst_eq t, ← Site.reading_prune, Rose.head_prune, Rose.children_prune, hchildren]
    rfl

/-- A script in which no comment has a role reads the same without its comments: the program
is the same, and so are its index and its bindings. -/
theorem Program.ofCst_without_comments (t : Cst)
    (h : ∀ n ∈ t.nodes, n.head.isComment = true → n.children = [] ∧ n.head.field = none) :
    let bare := t.prune CstHead.isComment
    bare.nodes.tail.map Rose.head = (t.nodes.tail.map Rose.head).filter (!·.isComment) ∧
    (∀ source, Program.ofCst source bare = Program.ofCst source t) ∧
    ∀ source, (Script.mk source bare).indexed = (Script.mk source t).indexed := by
  intro bare
  have hstray : bare = t.prune CstHead.isStray := by
    apply Rose.prune_congr
    intro n hn
    cases hcomment : n.head.isComment with
    | false => simp [CstHead.isStray, hcomment]
    | true => simp [CstHead.isStray, hcomment, h n hn hcomment]
  have hprogram : ∀ source, Program.ofCst source bare = Program.ofCst source t := by
    intro source
    rw [hstray, Program.ofCst, Reading.ofCst_prune, Reading.site_prune, Site.statements_prune,
      Program.ofCst]
  refine ⟨?_, hprogram, ?_⟩
  · exact Rose.heads_prune fun n hn hcomment => (h n hn hcomment).1
  · intro source
    have hparsed : (Script.mk source bare).parsed.program = (Script.mk source t).parsed.program :=
      hprogram source.toUTF8
    rw [Script.indexed, hparsed, Script.indexed]

/-- The tree of `throw /*a*/ x; <!-- b`, with a comment before the part that is read first. -/
def commentedThrow : Cst :=
  .named "program" none 0 22 [
    .named "throw_statement" none 0 14 [
      .token "throw" none 0 5, .named "comment" none 6 11 [], .named "identifier" none 12 13 [],
      .token ";" none 13 14],
    .named "html_comment" none 15 21 []]

theorem commentedThrow_without_comments :
    (∀ n ∈ commentedThrow.nodes,
      n.head.isComment = true → n.children = [] ∧ n.head.field = none) ∧
    (commentedThrow.prune CstHead.isComment).nodes.tail.map (·.head.kind) =
      ["throw_statement", "throw", "identifier", ";"] ∧
    Script.indexed ⟨"throw /*a*/ x; <!-- b\n", commentedThrow.prune CstHead.isComment⟩ =
      Script.indexed ⟨"throw /*a*/ x; <!-- b\n", commentedThrow⟩ := by
  have hcomments : ∀ n ∈ commentedThrow.nodes,
      n.head.isComment = true → n.children = [] ∧ n.head.field = none := by
    decide +kernel
  obtain ⟨_, _, hindexed⟩ := Program.ofCst_without_comments commentedThrow hcomments
  exact ⟨hcomments, by decide +kernel, hindexed _⟩

end ScriptLens
