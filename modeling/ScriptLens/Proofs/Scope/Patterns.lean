import ScriptLens.Proofs.Scope.Partition

/-! # What patterns bind

A pattern is visited part by part: identifiers that it binds or assigns to, property names, and
expressions, which are visited as anywhere else. The first are the bound identifiers of the
pattern, in order. So wherever a pattern stands to declare names, all that it binds declares.
-/
namespace ScriptLens

inductive PatternPart where
  /-- An identifier that the pattern binds, or assigns to. -/
  | bound (id : Ident)
  | key (id : Ident)
  /-- An expression: a default, a computed key, or what is assigned to. -/
  | value (e : Expr)

namespace PatternPart

/-- The events of a part. Expressions are visited as if they stood by themselves. -/
def events (b : Option BindingKind) : PatternPart → List Event
  | .bound id => [Ast.targetEvent b id]
  | .key id => [.property id]
  | .value e => e.events none

end PatternPart

namespace Ast

end Ast

namespace Event

end Event

/-- A pattern that stands where names are declared, and what it declares them as. -/
structure Binder where
  kind : BindingKind
  pattern : Pattern

namespace Ast

def binderOf (b : Option BindingKind) (q : Pattern) : List Binder :=
  b.toList.map fun kind => ⟨kind, q⟩

/-- The patterns in a construct that stand where names are declared: parameters, what a variable
declaration declares, what a `catch` clause names, and the patterns inside of such patterns. If
the construct itself stands there, `binder` says as what. -/
def binders : {c : Category} → (binder : Option BindingKind) → Ast c → List Binder
  | _, _, .nil => []
  | _, b, .cons first rest => first.binders b ++ rest.binders b
  | _, _, .absent => []
  | _, b, .present part => part.binders b
  | _, _, .ident _ => []
  | _, _, .literal _ => []
  | _, _, .template _ parts => parts.binders none
  | _, _, .tagged _ tag _ parts => tag.binders none ++ parts.binders none
  | _, _, .keyword _ _ => []
  | _, _, .array _ elements => elements.binders none
  | _, _, .object _ props => props.binders none
  | _, _, .function _ _ params _ body => params.binders (some .parameter) ++ body.binders none
  | _, _, .arrow _ _ params body => params.binders (some .parameter) ++ body.binders none
  | _, _, .classExpr _ _ base members => base.binders none ++ members.binders none
  | _, _, .unary _ _ _ _ arg => arg.binders none
  | _, _, .binary _ _ left right => left.binders none ++ right.binders none
  | _, _, .assign _ _ left right => left.binders none ++ right.binders none
  | _, _, .conditional _ test consequent alternate =>
    test.binders none ++ (consequent.binders none ++ alternate.binders none)
  | _, _, .call _ _ _ callee args => callee.binders none ++ args.binders none
  | _, _, .get _ _ base property => base.binders none ++ property.binders none
  | _, _, .sequence _ exprs => exprs.binders none
  | _, _, .paren _ inner => inner.binders none
  | _, _, .badExpr _ items => items.binders none
  | _, _, .arrowBlock _ body => body.binders none
  | _, _, .arrowExpr value => value.binders none
  | _, _, .named _ => []
  | _, _, .hidden _ => []
  | _, _, .computed index => index.binders none
  | _, _, .keyIdent _ => []
  | _, _, .keyString _ _ => []
  | _, _, .keyNumber _ _ => []
  | _, _, .keyPrivate _ => []
  | _, _, .keyComputed value => value.binders none
  | _, _, .pair _ key value => key.binders none ++ value.binders none
  | _, _, .shorthand _ => []
  | _, _, .methodProp method => method.binders none
  | _, _, .spreadProp _ arg => arg.binders none
  | _, _, .methodDef _ _ _ key _ params _ body =>
    key.binders none ++ (params.binders (some .parameter) ++ body.binders none)
  | _, _, .methodMember method => method.binders none
  | _, _, .fieldMember _ _ key value => key.binders none ++ value.binders none
  | _, _, .staticBlock _ _ body => body.binders none
  | _, b, .target id => binderOf b (.target id)
  | _, b, .objectPattern span fields => binderOf b (.objectPattern span fields) ++ fields.binders b
  | _, b, .arrayPattern span elements =>
    binderOf b (.arrayPattern span elements) ++ elements.binders b
  | _, b, .restPattern span arg => binderOf b (.restPattern span arg) ++ arg.binders b
  | _, b, .defaultPattern span left right =>
    binderOf b (.defaultPattern span left right) ++ (left.binders b ++ right.binders none)
  | _, b, .exprPattern value => binderOf b (.exprPattern value) ++ value.binders none
  | _, b, .fieldPair _ key value => key.binders none ++ value.binders b
  | _, b, .fieldShorthand value => value.binders b
  | _, b, .fieldRest _ arg => arg.binders b
  | _, _, .exprStmt _ value => value.binders none
  | _, _, .varStmt decl => decl.binders none
  | _, _, .functionDecl _ _ params _ body => params.binders (some .parameter) ++ body.binders none
  | _, _, .classDecl _ _ base members => base.binders none ++ members.binders none
  | _, _, .blockStmt block => block.binders none
  | _, _, .ifStmt _ test consequent alternate =>
    test.binders none ++ (consequent.binders none ++ alternate.binders none)
  | _, _, .forStmt _ init test update body =>
    init.binders none ++ (test.binders none ++ (update.binders none ++ body.binders none))
  | _, _, .forInStmt _ _ left right body =>
    left.binders none ++ (right.binders none ++ body.binders none)
  | _, _, .whileStmt _ test body => test.binders none ++ body.binders none
  | _, _, .doWhileStmt _ body test => body.binders none ++ test.binders none
  | _, _, .tryStmt _ block handler finalizer =>
    block.binders none ++ (handler.binders none ++ finalizer.binders none)
  | _, _, .exitStmt _ _ arg => arg.binders none
  | _, _, .switchStmt _ discriminant cases => discriminant.binders none ++ cases.binders none
  | _, _, .labeledStmt _ _ body => body.binders none
  | _, _, .jumpStmt _ _ _ => []
  | _, _, .withStmt _ base body => base.binders none ++ body.binders none
  | _, _, .importDecl _ _ _ => []
  | _, _, .exportDecl _ _ _ => []
  | _, _, .emptyStmt _ => []
  | _, _, .debuggerStmt _ => []
  | _, _, .badStmt _ items => items.binders none
  | _, _, .blockOf _ body => body.binders none
  | _, _, .declarationOf _ kind declarators => declarators.binders (some kind.bindingKind)
  | _, b, .declaratorOf _ name init => name.binders b ++ init.binders none
  | _, _, .initDecl decl => decl.binders none
  | _, _, .initExpr value => value.binders none
  | _, _, .headDecl decl => decl.binders none
  | _, _, .headPattern pattern => pattern.binders none
  | _, _, .handlerOf _ param body => param.binders (some .catchParameter) ++ body.binders none
  | _, _, .caseOf _ test body => test.binders none ++ body.binders none

end Ast

/-- Kinds of names that only patterns declare. Constants are not among them, since an import
declares its names as such. -/
def BindingKind.isOfPattern : BindingKind → Bool
  | .varDecl | .letDecl | .parameter | .catchParameter => true
  | .constDecl | .functionDecl | .classDecl => false

/-- Events among which are those of patterns that declare, and no other declarations of names that
only patterns declare. -/
structure Visits (es : List Event) (qs : List Binder) : Prop where
  visited : ∀ q ∈ qs, q.pattern.events (some q.kind) ⊆ es
  declared : ∀ kind id, .declare kind id ∈ es → kind.isOfPattern = true →
    ∃ q ∈ qs, q.kind = kind ∧ id ∈ q.pattern.boundIdents

namespace Visits
variable {es fs : List Event} {qs rs : List Binder}

theorem map {make : Ident → Event}
    (h : ∀ id kind other, make id = .declare kind other → kind.isOfPattern = false)
    (ids : List Ident) : Visits (ids.map make) [] := by
  constructor
  · intro q hq
    cases hq
  · intro kind other hmem hkind
    obtain ⟨id, _, hid⟩ := List.mem_map.mp hmem
    rw [h id kind other hid] at hkind
    cases hkind

theorem nil : Visits [] [] := by
  constructor
  · intro q hq
    cases hq
  · intro kind id hmem
    cases hmem

theorem refer (id : Ident) : Visits [.refer id] [] := map (fun _ _ _ h => by cases h) [id]

theorem property (id : Ident) : Visits [.property id] [] := map (fun _ _ _ h => by cases h) [id]

theorem names {kind : BindingKind} (hkind : kind.isOfPattern = false) (ids : List Ident) :
    Visits (ids.map (.declare kind)) [] := by
  refine map ?_ ids
  rintro _ _ _ ⟨⟩
  exact hkind

theorem append (h : Visits es qs) (h' : Visits fs rs) : Visits (es ++ fs) (qs ++ rs) := by
  constructor
  · intro q hq
    rcases List.mem_append.mp hq with hq | hq
    · exact List.Subset.trans (h.visited q hq) (List.subset_append_left es fs)
    · exact List.Subset.trans (h'.visited q hq) (List.subset_append_right es fs)
  · intro kind id hmem hkind
    rcases List.mem_append.mp hmem with hmem | hmem
    · obtain ⟨q, hq, hbinds⟩ := h.declared kind id hmem hkind
      exact ⟨q, List.mem_append_left _ hq, hbinds⟩
    · obtain ⟨q, hq, hbinds⟩ := h'.declared kind id hmem hkind
      exact ⟨q, List.mem_append_right _ hq, hbinds⟩

theorem within (h : Visits es qs) (kind : ScopeKind) (span : Span) :
    Visits (Event.within kind span es) qs := by
  constructor
  · intro q hq e he
    exact List.mem_append_left _ (List.mem_cons_of_mem _ (h.visited q hq he))
  · intro kind id hmem hkind
    refine h.declared kind id ?_ hkind
    simpa [Event.within] using hmem

theorem withinIf (h : Visits es qs) (needed : Bool) (kind : ScopeKind) (span : Span) :
    Visits (Event.withinIf needed kind span es) qs := by
  cases needed with
  | false => exact h
  | true => exact h.within kind span

theorem target (b : Option BindingKind) (id : Ident) :
    Visits [Ast.targetEvent b id] (Ast.binderOf b (.target id)) := by
  cases b with
  | none => exact refer id
  | some kind =>
    constructor
    · intro q hq
      cases List.mem_singleton.mp hq
      exact List.Subset.refl _
    · intro other id' hmem _
      cases List.mem_singleton.mp hmem
      exact ⟨_, List.mem_singleton_self _, rfl, List.mem_singleton_self _⟩

theorem own {b : Option BindingKind} {q : Pattern} (h : Visits (q.events b) qs) :
    Visits (q.events b) (Ast.binderOf b q ++ qs) := by
  constructor
  · intro r hr
    rcases List.mem_append.mp hr with hr | hr
    · obtain ⟨kind, hkind, rfl⟩ := List.mem_map.mp hr
      rw [Option.mem_toList.mp hkind]
      exact List.Subset.refl _
    · exact h.visited r hr
  · intro kind id hmem hkind
    obtain ⟨r, hr, hbinds⟩ := h.declared kind id hmem hkind
    exact ⟨r, List.mem_append_right _ hr, hbinds⟩

end Visits

def Program.binders (p : Program) : List Binder := p.body.binders none

namespace Resolver
variable {x : Index} {pass : Pass} {e : Event} {r after : Resolver} {n : Nat}

theorem NodeStep.mem_declarations (h : NodeStep x pass e r after) (hn : n ∈ r.declarations) :
    n ∈ after.declarations := by
  cases h with
  | quiet _ _ _ hd _ => exact hd ▸ hn
  | again _ _ same => exact same ▸ hn
  | free _ _ same => exact same ▸ hn
  | bound _ _ _ _ hd _ _ _ =>
    rcases hd with hd | hd
    · exact hd ▸ hn
    · rw [hd]
      exact Std.HashSet.mem_insert.mpr (.inr hn)

end Resolver

namespace Program
variable {p : Program}

end Program

end ScriptLens
