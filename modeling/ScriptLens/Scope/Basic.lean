import ScriptLens.Span
import Std.Data.HashMap
import Std.Data.HashSet

/-! # Scopes and bindings

Scopes and bindings are numbered from zero in the order in which they arise, so a
scope has a smaller number than the scopes inside it. Identifiers are given by the
numbers of their nodes: each declares or uses a binding, or finds none.
-/
namespace ScriptLens

inductive ScopeKind where
  | global | function | block | handler | loop
deriving DecidableEq

inductive BindingKind where
  | varDecl | letDecl | constDecl | functionDecl | classDecl | parameter | catchParameter
deriving DecidableEq

def ScopeKind.word : ScopeKind → String
  | .global => "global"
  | .function => "function"
  | .block => "block"
  | .handler => "catch"
  | .loop => "for"

/-- Scopes that collect the hoisted declarations inside them. -/
def ScopeKind.isHoistTarget : ScopeKind → Bool
  | .global | .function => true
  | _ => false

def BindingKind.word : BindingKind → String
  | .varDecl => "var"
  | .letDecl => "let"
  | .constDecl => "const"
  | .functionDecl => "function"
  | .classDecl => "class"
  | .parameter => "parameter"
  | .catchParameter => "catch-parameter"

/-- Declarations that belong to the nearest scope that collects them. -/
def BindingKind.isHoisted : BindingKind → Bool
  | .varDecl | .functionDecl => true
  | _ => false

structure ScopeRecord where
  id : Nat
  parent : Option Nat
  kind : ScopeKind
  span : Span
  /-- The names declared here with their bindings, in order of declaration. -/
  names : Array (String × Nat)
  children : Array Nat

structure BindingRecord where
  id : Nat
  name : String
  kind : BindingKind
  /-- The node that declares the name; a function takes it over from others. -/
  decl : Nat
  scope : Nat
  references : Array Nat

namespace ScopeRecord

def contains (s : ScopeRecord) (offset : Nat) : Bool := s.span.contains offset

def binding? (s : ScopeRecord) (name : String) : Option Nat :=
  (s.names.find? (·.1 == name)).map (·.2)

end ScopeRecord

def BindingRecord.usages (b : BindingRecord) : List Nat := b.decl :: b.references.toList

/-- The nearest scope on the way outwards that collects hoisted declarations. -/
def hoistTarget (scopes : Array ScopeRecord) (scope : Nat) : Nat :=
  match scopes[scope]? with
  | none => scope
  | some s =>
    if s.kind.isHoistTarget then scope
    else
      match s.parent with
      | none => scope
      | some p => if p < scope then hoistTarget scopes p else scope
termination_by scope

/-- The binding of a name in a scope or the nearest scope around it. -/
def lookupFrom? (scopes : Array ScopeRecord) (scope : Nat) (name : String) : Option Nat :=
  match scopes[scope]? with
  | none => none
  | some s =>
    match s.binding? name with
    | some b => some b
    | none =>
      match s.parent with
      | none => none
      | some p => if p < scope then lookupFrom? scopes p name else none
termination_by scope

structure Resolution where
  scopes : Array ScopeRecord
  bindings : Array BindingRecord
  root : Nat
  nodeBinding : Std.HashMap Nat Nat
  /-- The identifiers without a binding, in the order of their visit. -/
  unresolved : Array Nat
  declarations : Std.HashSet Nat

namespace Resolution

def scope? (r : Resolution) (id : Nat) : Option ScopeRecord := r.scopes[id]?

def binding? (r : Resolution) (id : Nat) : Option BindingRecord := r.bindings[id]?

def global? (r : Resolution) : Option ScopeRecord := r.scope? r.root

def bindingOf? (r : Resolution) (node : Nat) : Option BindingRecord :=
  r.nodeBinding[node]?.bind r.binding?

def isDeclaration (r : Resolution) (node : Nat) : Bool := r.declarations.contains node

def isReference (r : Resolution) (node : Nat) : Bool :=
  r.nodeBinding.contains node && !r.declarations.contains node

def isUnresolved (r : Resolution) (node : Nat) : Bool := r.unresolved.contains node

def lookup? (r : Resolution) (scope : Nat) (name : String) : Option BindingRecord :=
  (lookupFrom? r.scopes scope name).bind r.binding?

/-- The first scope inside a scope that holds an offset. -/
def inner? (r : Resolution) (offset id : Nat) : Option Nat :=
  (r.scopes[id]?).bind fun s =>
    s.children.find? fun c =>
      decide (id < c ∧ c < r.scopes.size) && (r.scopes[c]?).any (·.contains offset)

theorem inner?_bounds {r : Resolution} {offset id c : Nat} (h : r.inner? offset id = some c) :
    id < c ∧ c < r.scopes.size := by
  simp only [inner?, Option.bind_eq_some_iff] at h
  obtain ⟨s, _, h⟩ := h
  have := Array.find?_some h
  simp only [Bool.and_eq_true, decide_eq_true_eq] at this
  exact this.1

/-- The scope reached from a scope by taking the first scope that holds an offset, as
often as there is one. -/
def descend (r : Resolution) (offset id : Nat) : Nat :=
  match _h : r.inner? offset id with
  | none => id
  | some c => descend r offset c
termination_by r.scopes.size - id
decreasing_by
  have := inner?_bounds _h
  omega

/-- The innermost scope at an offset; outside all others that is the global scope. -/
def scopeAt? (r : Resolution) (offset : Nat) : Option ScopeRecord :=
  r.scope? (r.descend offset r.root)

def globals (r : Resolution) : List BindingRecord :=
  match r.global? with
  | none => []
  | some s => s.names.toList.filterMap fun entry => r.binding? entry.2

end Resolution

end ScriptLens
