import ScriptLens.Proofs.Scope.Graph
import ScriptLens.Proofs.Scope.Visit

/-! # What every run of the resolver keeps

The graph of scopes and bindings stays sound and the resolver stays inside it, whatever
the events and whatever the index. Each operation keeps this, hence each step, hence
every run.
-/
namespace ScriptLens

theorem hoistTarget_lt (scopes : Array ScopeRecord) {scope : Nat} (h : scope < scopes.size) :
    hoistTarget scopes scope < scopes.size := by
  fun_induction hoistTarget scopes scope with
  | case1 | case2 | case3 | case5 => exact h
  | case4 scope _ _ _ p _ hp ih => exact ih (Nat.lt_trans hp h)

/-- What a walk outwards finds is a binding of a scope on its way. -/
theorem exists_boundIn?_of_lookupFrom? {scopes : Array ScopeRecord} {scope b : Nat} {name : String}
    (h : lookupFrom? scopes scope name = some b) :
    ∃ i ≤ scope, boundIn? scopes i name = some b := by
  fun_induction lookupFrom? scopes scope name with
  | case1 | case3 | case5 => cases h
  | case2 scope s hs c hc =>
    cases h
    exact ⟨scope, Nat.le_refl _, boundIn?_eq_some.mpr ⟨s, hs, hc⟩⟩
  | case4 scope _ _ _ p _ hp ih =>
    obtain ⟨i, hi, hb⟩ := ih h
    exact ⟨i, Nat.le_trans hi (Nat.le_of_lt hp), hb⟩

theorem ScopeGraph.exists_binding_of_lookupFrom? {scopes : Array ScopeRecord}
    {bindings : Array BindingRecord} (h : ScopeGraph scopes bindings) {scope b : Nat}
    {name : String} (hb : lookupFrom? scopes scope name = some b) :
    ∃ β, bindings[b]? = some β ∧ β.name = name := by
  obtain ⟨i, _, hi⟩ := exists_boundIn?_of_lookupFrom? hb
  obtain ⟨β, hβ, _, hname⟩ := (h.bound_iff i name b).mp hi
  exact ⟨β, hβ, hname⟩

namespace Resolver

/-- The graph is sound, and all scopes that the resolver holds by number are in it. -/
structure Sound (r : Resolver) : Prop where
  graph : ScopeGraph r.scopes r.bindings
  current_lt : r.current < r.scopes.size
  outer_lt : ∀ s ∈ r.outer, s < r.scopes.size
  order_lt : ∀ s ∈ r.order, s < r.scopes.size

theorem start_sound (span : Span) : (start span).Sound := by
  have hscope : ∀ (i : Nat) (s : ScopeRecord), (start span).scopes[i]? = some s →
      i = 0 ∧ s = ⟨0, none, .global, span, #[], #[]⟩ := by
    intro i s hs
    simpa [start, List.getElem?_singleton, and_comm, eq_comm] using hs
  constructor
  · constructor
    · constructor
      · intro i s hs
        obtain ⟨rfl, rfl⟩ := hscope i s hs
        rfl
      · exact ⟨_, rfl, rfl⟩
      · intro i s hs hi
        exact absurd (hscope i s hs).1 (Nat.ne_of_gt hi)
      · intro q s c hs
        obtain ⟨rfl, rfl⟩ := hscope q s hs
        have hp : parentOf? (start span).scopes c ≠ some 0 := by
          intro hp
          obtain ⟨t, ht, htp⟩ := parentOf?_eq_some.mp hp
          rw [(hscope c t ht).2] at htp
          cases htp
        simp [hp]
    · intro b β hβ
      simp [start] at hβ
    · intro i name b
      constructor
      · intro hb
        obtain ⟨s, hs, hsb⟩ := boundIn?_eq_some.mp hb
        rw [(hscope i s hs).2] at hsb
        simp [ScopeRecord.binding?] at hsb
      · rintro ⟨β, hβ, _⟩
        simp [start] at hβ
    · intro i s hs
      rw [(hscope i s hs).2]
      exact List.nodup_nil
  · simp [start]
  · simp [start]
  · simp [start]

@[simp] theorem size_create (r : Resolver) (kind : ScopeKind) (span : Span) :
    (r.create kind span).scopes.size = r.scopes.size + 1 := by
  simp [create]

namespace Sound
variable {r : Resolver}

theorem create (h : r.Sound) (kind : ScopeKind) (span : Span) : (r.create kind span).Sound := by
  constructor
  · exact h.graph.withScope h.current_lt kind _
  · rw [size_create]
    exact Nat.lt_succ_of_lt h.current_lt
  · intro s hs
    rw [size_create]
    exact Nat.lt_succ_of_lt (h.outer_lt s hs)
  · intro s hs
    rw [size_create]
    exact Nat.lt_succ_of_lt (h.order_lt s hs)

theorem moveTo (h : r.Sound) {scope : Nat} (hs : scope < r.scopes.size) :
    (r.moveTo scope).Sound := by
  refine ⟨h.graph, hs, ?_, h.order_lt⟩
  intro s hmem
  rcases List.mem_cons.mp hmem with rfl | hmem
  · exact h.current_lt
  · exact h.outer_lt s hmem

theorem enter (h : r.Sound) (pass : Pass) (kind : ScopeKind) (span : Span) :
    (r.enter pass kind span).Sound := by
  have hnew : r.scopes.size < (r.create kind span).scopes.size := by simp
  cases pass with
  | declare =>
    have hm := (h.create kind span).moveTo hnew
    refine ⟨hm.graph, hm.current_lt, hm.outer_lt, ?_⟩
    intro s hs
    rcases Array.mem_push.mp hs with hs | rfl
    · exact hm.order_lt s hs
    · exact hnew
  | resolve =>
    have hr : Sound { r with replay := r.replay + 1 } :=
      ⟨h.graph, h.current_lt, h.outer_lt, h.order_lt⟩
    simp only [Resolver.enter]
    split
    · next scope hscope => exact hr.moveTo (h.order_lt scope (Array.mem_of_getElem? hscope))
    · exact (hr.create kind span).moveTo hnew

theorem leave (h : r.Sound) : r.leave.Sound := by
  unfold Resolver.leave
  split
  · exact h
  · next scope rest hout =>
    refine ⟨h.graph, h.outer_lt scope (by simp [hout]), ?_, h.order_lt⟩
    intro s hs
    exact h.outer_lt s (by simp [hout, hs])

theorem bind (h : r.Sound) {scope : Nat} (hs : scope < r.scopes.size) (node : Nat) (name : String)
    (kind : BindingKind) : (r.bind scope node name kind).Sound := by
  unfold Resolver.bind
  split
  · next existing _ =>
    refine ⟨h.graph.modifyBinding existing _ ?_, h.current_lt, h.outer_lt, h.order_lt⟩
    intro β
    unfold redeclare
    split <;> exact ⟨rfl, rfl, rfl⟩
  · next hnew =>
    refine ⟨h.graph.withName hs hnew kind node, ?_, ?_, ?_⟩
    · simpa using h.current_lt
    · simpa using h.outer_lt
    · simpa using h.order_lt

theorem declare (h : r.Sound) (x : Index) (kind : BindingKind) (id : Ident) :
    (r.declare x kind id).Sound := by
  unfold Resolver.declare
  split
  · exact h
  · refine h.bind ?_ _ _ _
    split
    · exact hoistTarget_lt _ h.current_lt
    · exact h.current_lt

theorem addReference (h : r.Sound) (node binding : Nat) : (r.addReference node binding).Sound := by
  have hg := h.graph.modifyBinding binding
    (fun b => { b with references := b.references.push node }) fun _ => ⟨rfl, rfl, rfl⟩
  exact ⟨hg, h.current_lt, h.outer_lt, h.order_lt⟩

theorem refer (h : r.Sound) (x : Index) (id : Ident) : (r.refer x id).Sound := by
  unfold Resolver.refer
  split
  · exact h
  · split
    · exact h
    · split
      · exact h.addReference _ _
      · exact ⟨h.graph, h.current_lt, h.outer_lt, h.order_lt⟩

theorem nameSelf (h : r.Sound) (x : Index) (id : Ident) : (r.nameSelf x id).Sound := by
  simp only [Resolver.nameSelf]
  split
  · exact h
  · split
    · exact h.addReference _ _
    · exact h.bind h.current_lt _ _ _

theorem step (h : r.Sound) (x : Index) (pass : Pass) (e : Event) : (r.step x pass e).Sound := by
  unfold Resolver.step
  split
  · exact h.enter _ _ _
  · exact h.leave
  · exact h.declare _ _ _
  · exact h.refer _ _
  · exact h.nameSelf _ _
  · exact h

theorem run (h : r.Sound) (x : Index) (pass : Pass) (events : List Event) :
    (r.run x pass events).Sound := by
  induction events generalizing r with
  | nil => exact h
  | cons e rest ih => exact ih (h.step x pass e)

theorem rewind (h : r.Sound) : r.rewind.Sound :=
  ⟨h.graph, h.graph.size_pos, by simp [Resolver.rewind], h.order_lt⟩

end Sound

end Resolver

/-- The state of the resolver between its two passes. -/
def Program.declared (p : Program) (x : Index) : Resolver :=
  ((Resolver.start p.span).run x .declare p.events).rewind

theorem Program.declared_sound (p : Program) (x : Index) : (p.declared x).Sound :=
  ((Resolver.start_sound p.span).run x .declare p.events).rewind

/-- The state of the resolver in its second pass, after some of the events. -/
def Program.resolving (p : Program) (x : Index) (done : List Event) : Resolver :=
  (p.declared x).run x .resolve done

theorem Program.resolving_sound (p : Program) (x : Index) (done : List Event) :
    (p.resolving x done).Sound :=
  (p.declared_sound x).run x .resolve done

/-- The state of the resolver after its second pass. -/
def Program.resolved (p : Program) (x : Index) : Resolver := p.resolving x p.events

theorem Program.resolved_sound (p : Program) (x : Index) : (p.resolved x).Sound :=
  p.resolving_sound x p.events

theorem Program.resolve_eq_finish (p : Program) (x : Index) : p.resolve x = (p.resolved x).finish :=
  p.resolve_eq_run x

theorem Program.scopes_resolve (p : Program) (x : Index) :
    (p.resolve x).scopes = (p.resolved x).scopes := by
  rw [resolve_eq_finish]
  rfl

theorem Program.resolve_graph (p : Program) (x : Index) :
    ScopeGraph (p.resolve x).scopes (p.resolve x).bindings := by
  rw [resolve_eq_finish]
  exact (p.resolved_sound x).graph

end ScriptLens
