import ScriptLens.Proofs.Scope.Surroundings

/-! # The two passes side by side

At the same event the two passes have the same scopes open. So when a construct opens a scope,
the second pass enters the very scope that the first pass has opened for it, which is the next
one in the order of entering, and it never has to open one of its own.
-/
namespace ScriptLens

open Event

namespace Resolver

/-- What holds at first and is kept by each step, given the events before it, holds in the end. -/
theorem run_induction {P : List Event → Resolver → Prop} {x : Index} {pass : Pass} {r : Resolver}
    {es : List Event} (start : P [] r)
    (step : ∀ before e rest, es = before ++ e :: rest → P before (r.run x pass before) →
      P (before ++ [e]) ((r.run x pass before).step x pass e)) : P es (r.run x pass es) := by
  induction es generalizing P r with
  | nil => exact start
  | cons e es ih =>
    refine ih (P := fun before => P (e :: before)) (step [] e es rfl start) ?_
    intro before f rest hes
    exact step (e :: before) f rest (by rw [hes, List.cons_append])

/-- The span of a scope that is opened for a construct. -/
def extent (r : Resolver) (span : Span) : Span :=
  if span.isNowhere then ((r.scopes[r.current]?).map (·.span)).getD span else span

/-- One opening of a scope in the first pass, which is in state `d`, and in the second, which is
in state `r`: for both it is the one with number `k`. -/
structure SameOpening (kind : ScopeKind) (span : Span) (k : Nat) (d r : Resolver)
    (final : Array ScopeRecord) : Prop where
  first_count : d.order.size = k
  second_count : r.replay = k
  same_place : r.stack = d.stack
  /-- The first pass opens a scope, enters it and notes that. -/
  opens : (d.enter .declare kind span).scopes =
    withScope d.scopes d.current kind (d.extent span)
  notes : (d.enter .declare kind span).order = d.order.push d.scopes.size
  enters_new : (d.enter .declare kind span).current = d.scopes.size
  /-- The second pass finds the note, enters that scope and opens none. -/
  noted : r.order[r.replay]? = some d.scopes.size
  enters_noted : (r.enter .resolve kind span).current = d.scopes.size
  opens_none : (r.enter .resolve kind span).scopes = r.scopes
  kept : frame? final d.scopes.size = some ⟨some d.current, kind, d.extent span⟩

end Resolver

namespace Program
variable {p : Program} {before rest : List Event}

/-- The first pass up to an event. -/
def declaring (p : Program) (x : Index) (done : List Event) : Resolver :=
  (Resolver.start p.span).run x .declare done

theorem declaring_rooted (p : Program) (x : Index) (done : List Event) :
    (p.declaring x done).Rooted :=
  (Resolver.start_rooted p.span).run x done

theorem size_declaring (p : Program) (x : Index) (done : List Event) :
    (p.declaring x done).scopes.size = 1 + enters done :=
  Resolver.size_run x (Resolver.start p.span) done

theorem size_order_declaring (p : Program) (x : Index) (done : List Event) :
    (p.declaring x done).order.size = enters done :=
  (Resolver.size_order_run x (Resolver.start p.span) done).trans (Nat.zero_add _)

theorem resolving_replays (x : Index) (hevents : p.events = before ++ rest) :
    (p.resolving x before).Replays (enters rest) := by
  have hreplays := p.declared_replays x
  rw [hevents] at hreplays
  exact hreplays.run x

theorem replay_resolving (x : Index) (hevents : p.events = before ++ rest) :
    (p.resolving x before).replay = enters before := by
  have hreplays := p.declared_replays x
  rw [hevents] at hreplays
  exact (Resolver.replay_run hreplays x).trans (Nat.zero_add _)

theorem size_resolving (x : Index) (hevents : p.events = before ++ rest) :
    (p.resolving x before).scopes.size = (p.declared x).scopes.size := by
  have hreplays := p.declared_replays x
  rw [hevents] at hreplays
  exact Resolver.size_run_resolve hreplays x

theorem stack_resolving (x : Index) (hevents : p.events = before ++ rest) :
    (p.resolving x before).stack = (p.declaring x before).stack := by
  have hreplays := p.declared_replays x
  rw [hevents] at hreplays
  have hstart : (Resolver.start p.span).Numbered := by
    refine ⟨rfl, fun i hi => ?_⟩
    cases hi
  exact Resolver.stack_run_resolve hstart hreplays rfl rfl

theorem frame?_resolved (p : Program) (x : Index) (c : Nat) :
    frame? (p.resolved x).scopes c = frame? (p.declared x).scopes c := by
  by_cases hc : c < (p.declared x).scopes.size
  · exact Resolver.frame?_run_of_lt hc x .resolve p.events
  · have hsize : (p.resolved x).scopes.size = (p.declared x).scopes.size :=
      size_resolving x (List.append_nil _).symm
    rw [frame?, frame?, Array.getElem?_eq_none (Nat.not_lt.mp hc),
      Array.getElem?_eq_none (hsize ▸ Nat.not_lt.mp hc)]

theorem frame?_declared_of_declaring (x : Index) (hevents : p.events = before ++ rest) {c : Nat}
    {f : Frame} (hf : frame? (p.declaring x before).scopes c = some f) :
    frame? (p.declared x).scopes c = some f := by
  have hdeclared : (p.declared x).scopes = ((p.declaring x before).run x .declare rest).scopes := by
    rw [declared, hevents, Resolver.run_append]
    rfl
  rw [hdeclared]
  exact Resolver.frame?_run hf x .declare rest

theorem frame?_resolve_of_declaring (x : Index) (hevents : p.events = before ++ rest) {c : Nat}
    {f : Frame} (hf : frame? (p.declaring x before).scopes c = some f) :
    frame? (p.resolve x).scopes c = some f := by
  rw [p.scopes_resolve]
  exact (p.frame?_resolved x c).trans (frame?_declared_of_declaring x hevents hf)

theorem sameOpening (x : Index) {kind : ScopeKind} {span : Span} {after : List Event}
    (hevents : p.events = before ++ .enter kind span :: after) :
    Resolver.SameOpening kind span (enters before) (p.declaring x before) (p.resolving x before)
      (p.resolve x).scopes := by
  have hreplays := resolving_replays x hevents
  have hreplay := replay_resolving x hevents
  have hnumber : (p.declaring x before).scopes.size = (p.resolving x before).replay + 1 := by
    rw [size_declaring, hreplay, Nat.add_comm]
  have hlt : (p.resolving x before).replay < (p.resolving x before).order.size := by
    have hleft := hreplays.left_eq
    rw [enters_cons] at hleft
    simp only [isEnter, ↓reduceIte] at hleft
    omega
  obtain ⟨hscopes, _, hstack⟩ := Resolver.enter_resolve hreplays
  have hopens : ((p.declaring x before).enter .declare kind span).scopes = withScope
      (p.declaring x before).scopes (p.declaring x before).current kind
      ((p.declaring x before).extent span) := rfl
  refine ⟨size_order_declaring p x before, hreplay, stack_resolving x hevents, hopens, rfl, rfl,
    ?_, ?_, hscopes, ?_⟩
  · rw [hreplays.order_eq _ hlt, hnumber]
  · rw [hnumber]
    exact (List.cons.inj hstack).1
  · have hsplit : p.events = (before ++ [.enter kind span]) ++ after := by simp [hevents]
    refine frame?_resolve_of_declaring x hsplit ?_
    rw [declaring, Resolver.run_append]
    change frame? ((p.declaring x before).enter .declare kind span).scopes _ = _
    rw [hopens, frame?_withScope, if_pos rfl]

end Program

end ScriptLens
