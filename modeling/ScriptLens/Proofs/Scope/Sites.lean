import ScriptLens.Proofs.Scope.Partition
import ScriptLens.Proofs.Scope.Passes

/-! # Bindings and the declarations they stand for

A run is seen as the list of its declarations, each with the scope that gets the name. All
declarations of one name in one scope share a binding, which points to the last function among
them or else to the first of them, and every other node that has the binding is a use of it.
-/
namespace ScriptLens

/-- A declaration of a name: the scope that gets it, what it is declared as, and the node. -/
structure DeclSite where
  scope : Nat
  name : String
  kind : BindingKind
  node : Nat
deriving DecidableEq

namespace DeclSite

def isOf (β : BindingRecord) (s : DeclSite) : Bool := s.scope == β.scope && s.name == β.name

def isFunction (s : DeclSite) : Bool := s.kind == .functionDecl

/-- Which of several declarations of a name decides: the last function, or else the first. -/
def chosen? (sites : List DeclSite) : Option DeclSite :=
  (sites.filter isFunction).getLast?.or sites.head?

theorem isOf_iff {β : BindingRecord} {s : DeclSite} :
    s.isOf β = true ↔ s.scope = β.scope ∧ s.name = β.name := by
  simp [isOf]

theorem isOf_congr {β γ : BindingRecord} (hscope : γ.scope = β.scope) (hname : γ.name = β.name) :
    isOf γ = isOf β := by
  funext s
  rw [isOf, isOf, hscope, hname]

theorem chosen?_concat (sites : List DeclSite) (s : DeclSite) :
    chosen? (sites ++ [s]) = if s.isFunction then some s else (chosen? sites).or (some s) := by
  unfold chosen?
  by_cases hs : s.isFunction = true
  · simp [List.filter_append, hs]
  · cases sites with
    | nil => simp [hs]
    | cons => simp [hs]

theorem chosen?_eq_some {sites : List DeclSite} {s : DeclSite} (h : chosen? sites = some s) :
    s ∈ sites ∧ ∃ first, sites.head? = some first ∧
      s = (sites.filter isFunction).getLast?.getD first ∧
      s.kind = if sites.any isFunction then .functionDecl else first.kind := by
  cases sites with
  | nil => cases h
  | cons first rest =>
    unfold chosen? at h
    cases hlast : ((first :: rest).filter isFunction).getLast? with
    | none =>
      rw [hlast] at h
      cases h
      have hnone := List.filter_eq_nil_iff.mp (List.getLast?_eq_none_iff.mp hlast)
      refine ⟨List.mem_cons_self, s, rfl, rfl, ?_⟩
      rw [if_neg]
      intro hany
      obtain ⟨t, ht, hfunction⟩ := List.any_eq_true.mp hany
      exact hnone t ht hfunction
    | some t =>
      rw [hlast] at h
      cases h
      obtain ⟨ht, hfunction⟩ := List.mem_filter.mp (List.mem_of_getLast? hlast)
      refine ⟨ht, first, rfl, rfl, ?_⟩
      rw [if_pos (List.any_eq_true.mpr ⟨s, ht, hfunction⟩)]
      simpa [isFunction] using hfunction

end DeclSite

namespace Resolver

def target (r : Resolver) (kind : BindingKind) : Nat :=
  if kind.isHoisted then hoistTarget r.scopes r.current else r.current

/-- The binding that the name of a function refers to, if there is one. -/
def selfBinding? (r : Resolver) (name : String) : Option Nat :=
  let scope := r.scopes[r.current]?
  ((scope.bind (·.parent)).bind fun p => lookupFrom? r.scopes p name).or
    (scope.bind (·.binding? name))

def site? (x : Index) (pass : Pass) (r : Resolver) (e : Event) : Option DeclSite :=
  match pass, e with
  | .declare, .declare kind id => (x.identNode? id).map fun n => ⟨r.target kind, id.name, kind, n⟩
  | .resolve, .nameSelf id =>
    if (r.selfBinding? id.name).isSome then none
    else (x.identNode? id).map fun n => ⟨r.current, id.name, .functionDecl, n⟩
  | _, _ => none

def sites (x : Index) (pass : Pass) (r : Resolver) : List Event → List DeclSite
  | [] => []
  | e :: rest => (r.site? x pass e).toList ++ (r.step x pass e).sites x pass rest

theorem sites_append (x : Index) (pass : Pass) (r : Resolver) (es fs : List Event) :
    r.sites x pass (es ++ fs) = r.sites x pass es ++ (r.run x pass es).sites x pass fs := by
  induction es generalizing r with
  | nil => rfl
  | cons e rest ih => rw [List.cons_append, sites, sites, ih, List.append_assoc, run_cons]

/-- What a step can do to bindings. -/
inductive BindingStep (x : Index) (pass : Pass) (e : Event) (r after : Resolver) : Prop where
  | quiet (none : r.site? x pass e = none) (bindings : after.bindings = r.bindings)
      (nodeBinding : after.nodeBinding = r.nodeBinding)
      (declarations : after.declarations = r.declarations)
  | declares {s : DeclSite} (site : r.site? x pass e = some s)
      (touched : e.touched? x pass = some s.node) (known : s.scope < r.scopes.size)
      (same : after = r.bind s.scope s.node s.name s.kind)
  | refers {n b : Nat} {β : BindingRecord} (none : r.site? x pass e = none)
      (touched : e.touched? x pass = some n) (binding : r.bindings[b]? = some β)
      (same : after = r.addReference n b)

variable {x : Index} {pass : Pass} {e : Event} {r : Resolver}

theorem bindingStep_declare (h : r.Sound) (x : Index) (kind : BindingKind) (id : Ident) :
    BindingStep x .declare (.declare kind id) r (r.declare x kind id) := by
  unfold Resolver.declare
  cases hn : x.identNode? id with
  | none => exact .quiet (by simp [site?, hn]) rfl rfl rfl
  | some n =>
    refine .declares (s := ⟨r.target kind, id.name, kind, n⟩) (by simp [site?, hn]) hn ?_ rfl
    change r.target kind < _
    unfold target
    split
    · exact hoistTarget_lt _ h.current_lt
    · exact h.current_lt

theorem bindingStep_refer (h : r.Sound) (x : Index) (id : Ident) :
    BindingStep x .resolve (.refer id) r (r.refer x id) := by
  unfold Resolver.refer
  cases hn : x.identNode? id with
  | none => exact .quiet rfl rfl rfl rfl
  | some n =>
    simp only
    split
    · exact .quiet rfl rfl rfl rfl
    · cases hb : lookupFrom? r.scopes r.current id.name with
      | none => exact .quiet rfl rfl rfl rfl
      | some b =>
        obtain ⟨β, hβ, _⟩ := h.graph.exists_binding_of_lookupFrom? hb
        exact .refers rfl hn hβ rfl

theorem Sound.exists_binding_of_selfBinding? (h : r.Sound) {name : String} {b : Nat}
    (hb : r.selfBinding? name = some b) : ∃ β, r.bindings[b]? = some β := by
  rcases Option.or_eq_some_iff.mp hb with hb | ⟨_, hb⟩
  · obtain ⟨p, _, hp⟩ := Option.bind_eq_some_iff.mp hb
    obtain ⟨β, hβ, _⟩ := h.graph.exists_binding_of_lookupFrom? hp
    exact ⟨β, hβ⟩
  · obtain ⟨β, hβ, _⟩ := (h.graph.bound_iff r.current name b).mp hb
    exact ⟨β, hβ⟩

theorem bindingStep_nameSelf (h : r.Sound) (x : Index) (id : Ident) :
    BindingStep x .resolve (.nameSelf id) r (r.nameSelf x id) := by
  simp only [Resolver.nameSelf]
  cases hn : x.identNode? id with
  | none => exact .quiet (by simp [site?, hn]) rfl rfl rfl
  | some n =>
    simp only
    split
    · next b hb =>
      have hself : r.selfBinding? id.name = some b := hb
      obtain ⟨β, hβ⟩ := h.exists_binding_of_selfBinding? hself
      exact .refers (by simp [site?, hself]) hn hβ rfl
    · next hb =>
      have hself : r.selfBinding? id.name = none := hb
      exact .declares (s := ⟨r.current, id.name, .functionDecl, n⟩) (by simp [site?, hself, hn]) hn
        h.current_lt rfl

theorem bindingStep_step (h : r.Sound) (x : Index) (pass : Pass) (e : Event) :
    BindingStep x pass e r (r.step x pass e) := by
  cases pass with
  | declare =>
    cases e with
    | declare kind id => exact bindingStep_declare h x kind id
    | leave =>
      simp only [step, Resolver.leave]
      split <;> exact .quiet rfl rfl rfl rfl
    | _ => exact .quiet rfl rfl rfl rfl
  | resolve =>
    cases e with
    | refer id => exact bindingStep_refer h x id
    | nameSelf id => exact bindingStep_nameSelf h x id
    | enter kind span =>
      simp only [step, Resolver.enter]
      split <;> exact .quiet rfl rfl rfl rfl
    | leave =>
      simp only [step, Resolver.leave]
      split <;> exact .quiet rfl rfl rfl rfl
    | _ => exact .quiet rfl rfl rfl rfl

/-- What declaring a name at a node does: the node gets a binding that belongs to the scope,
which is new or shared with an earlier declaration, and the other bindings stay. -/
structure Binds (r after : Resolver) (s : DeclSite) (b : Nat) (β : BindingRecord) : Prop where
  nodeBinding : after.nodeBinding = r.nodeBinding.insert s.node b
  declarations : after.declarations = r.declarations.insert s.node
  binding : after.bindings[b]? = some β
  site : s.isOf β = true
  others : ∀ c, c ≠ b → after.bindings[c]? = r.bindings[c]?
  record : boundIn? r.scopes s.scope s.name = none ∧ r.bindings[b]? = none ∧
      β = ⟨b, s.name, s.kind, s.node, s.scope, #[]⟩ ∨
    ∃ γ, r.bindings[b]? = some γ ∧ β = redeclare s.kind s.node γ

theorem redeclare_scope (kind : BindingKind) (n : Nat) (β : BindingRecord) :
    (redeclare kind n β).scope = β.scope ∧ (redeclare kind n β).name = β.name ∧
      (redeclare kind n β).references = β.references := by
  unfold redeclare
  split <;> exact ⟨rfl, rfl, rfl⟩

theorem exists_binds (h : r.Sound) (s : DeclSite) :
    ∃ b β, Binds r (r.bind s.scope s.node s.name s.kind) s b β := by
  unfold Resolver.bind
  split
  · next b hb =>
    obtain ⟨γ, hγ, hscope, hname⟩ := (h.graph.bound_iff s.scope s.name b).mp hb
    obtain ⟨hsame, hnamed, _⟩ := redeclare_scope s.kind s.node γ
    refine ⟨b, redeclare s.kind s.node γ, rfl, rfl, ?_, ?_, ?_, .inr ⟨γ, hγ, rfl⟩⟩
    · simp [Array.getElem?_modify, hγ]
    · exact DeclSite.isOf_iff.mpr ⟨(hsame.trans hscope).symm, (hnamed.trans hname).symm⟩
    · intro c hc
      simp [Array.getElem?_modify, Ne.symm hc]
  · next hnew =>
    refine ⟨r.bindings.size, ⟨r.bindings.size, s.name, s.kind, s.node, s.scope, #[]⟩, rfl, rfl,
      Array.getElem?_push_size, DeclSite.isOf_iff.mpr ⟨rfl, rfl⟩, ?_, .inl ⟨hnew, ?_, rfl⟩⟩
    · intro c hc
      simp [Array.getElem?_push, hc]
    · simp

end Resolver

end ScriptLens
