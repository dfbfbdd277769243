import ScriptLens.Index.Basic
import ScriptLens.Scope.Event

/-! # Resolving names

A program is gone through twice. The first pass opens the scopes and declares, so that
a name is known in all of its scope, also before its declaration. The second pass goes
through the same scopes in the same order and looks the uses up. An identifier without
a record in the index is passed over.
-/
namespace ScriptLens

inductive Pass where
  | declare | resolve
deriving DecidableEq

structure Resolver where
  scopes : Array ScopeRecord
  bindings : Array BindingRecord
  nodeBinding : Std.HashMap Nat Nat
  unresolved : Array Nat
  declarations : Std.HashSet Nat
  /-- The scopes in the order in which the first pass entered them. -/
  order : Array Nat
  /-- How many of them the second pass has entered. -/
  replay : Nat
  current : Nat
  /-- The scopes around the current one, the nearest first. -/
  outer : List Nat

def Index.identNode? (x : Index) (id : Ident) : Option Nat :=
  if id.name.isEmpty || id.span.isNowhere then none else x.find? .identifier id.span

namespace Resolver

def start (span : Span) : Resolver :=
  { scopes := #[⟨0, none, .global, span, #[], #[]⟩]
    bindings := #[]
    nodeBinding := ∅
    unresolved := #[]
    declarations := ∅
    order := #[]
    replay := 0
    current := 0
    outer := [] }

/-- A new scope inside the current one. A construct without a place extends as far as
the scope around it. -/
def create (r : Resolver) (kind : ScopeKind) (span : Span) : Resolver :=
  let id := r.scopes.size
  let extent := if span.isNowhere then ((r.scopes[r.current]?).map (·.span)).getD span else span
  { r with
    scopes := (r.scopes.modify r.current fun s => { s with children := s.children.push id }).push
      ⟨id, some r.current, kind, extent, #[], #[]⟩ }

def moveTo (r : Resolver) (scope : Nat) : Resolver :=
  { r with current := scope, outer := r.current :: r.outer }

/-- The first pass opens a scope. The second takes the next of those opened; should
there be none left, it opens one. -/
def enter (pass : Pass) (r : Resolver) (kind : ScopeKind) (span : Span) : Resolver :=
  let id := r.scopes.size
  match pass with
  | .declare =>
    let r := (r.create kind span).moveTo id
    { r with order := r.order.push id }
  | .resolve =>
    let next := r.order[r.replay]?
    let r := { r with replay := r.replay + 1 }
    match next with
    | some scope => r.moveTo scope
    | none => (r.create kind span).moveTo id

def leave (r : Resolver) : Resolver :=
  match r.outer with
  | [] => r
  | scope :: rest => { r with current := scope, outer := rest }

/-- A second declaration of a name in a scope shares the binding of the first; a
function becomes the declaration that the binding points to. -/
def redeclare (kind : BindingKind) (node : Nat) (b : BindingRecord) : BindingRecord :=
  if kind = .functionDecl then { b with decl := node, kind := .functionDecl } else b

def bind (r : Resolver) (scope node : Nat) (name : String) (kind : BindingKind) : Resolver :=
  match (r.scopes[scope]?).bind (·.binding? name) with
  | some existing =>
    { r with
      bindings := r.bindings.modify existing (redeclare kind node)
      nodeBinding := r.nodeBinding.insert node existing
      declarations := r.declarations.insert node }
  | none =>
    let id := r.bindings.size
    { r with
      bindings := r.bindings.push ⟨id, name, kind, node, scope, #[]⟩
      scopes := r.scopes.modify scope fun s => { s with names := s.names.push (name, id) }
      nodeBinding := r.nodeBinding.insert node id
      declarations := r.declarations.insert node }

def declare (x : Index) (r : Resolver) (kind : BindingKind) (id : Ident) : Resolver :=
  match x.identNode? id with
  | none => r
  | some node =>
    let scope := if kind.isHoisted then hoistTarget r.scopes r.current else r.current
    r.bind scope node id.name kind

def addReference (r : Resolver) (node binding : Nat) : Resolver :=
  { r with
    bindings := r.bindings.modify binding fun b => { b with references := b.references.push node }
    nodeBinding := r.nodeBinding.insert node binding }

/-- Looks an identifier up from the current scope, unless it has a binding already. -/
def refer (x : Index) (r : Resolver) (id : Ident) : Resolver :=
  match x.identNode? id with
  | none => r
  | some node =>
    if r.declarations.contains node || r.nodeBinding.contains node then r
    else
      match lookupFrom? r.scopes r.current id.name with
      | some binding => r.addReference node binding
      | none => { r with unresolved := r.unresolved.push node }

/-- The name of a function expression refers to a binding around the function if
there is one, else to a binding of that name in the function, and else it declares
the function in its own scope. -/
def nameSelf (x : Index) (r : Resolver) (id : Ident) : Resolver :=
  match x.identNode? id with
  | none => r
  | some node =>
    let scope := r.scopes[r.current]?
    let around := (scope.bind (·.parent)).bind fun p => lookupFrom? r.scopes p id.name
    match around.or (scope.bind (·.binding? id.name)) with
    | some binding => r.addReference node binding
    | none => r.bind r.current node id.name .functionDecl

def step (x : Index) (pass : Pass) (r : Resolver) (e : Event) : Resolver :=
  match pass, e with
  | _, .enter kind span => r.enter pass kind span
  | _, .leave => r.leave
  | .declare, .declare kind id => r.declare x kind id
  | .resolve, .refer id => r.refer x id
  | .resolve, .nameSelf id => r.nameSelf x id
  | _, _ => r

def run (x : Index) (pass : Pass) (r : Resolver) (events : List Event) : Resolver :=
  events.foldl (step x pass) r

def rewind (r : Resolver) : Resolver := { r with replay := 0, current := 0, outer := [] }

def finish (r : Resolver) : Resolution :=
  { scopes := r.scopes
    bindings := r.bindings
    root := 0
    nodeBinding := r.nodeBinding
    unresolved := r.unresolved
    declarations := r.declarations }

end Resolver

end ScriptLens
