import ScriptLens.Proofs.Scope.Partition
import ScriptLens.Proofs.Scope.Replay

/-! # A use finds what the finished scopes hold

When the second pass comes to a use, the scopes from the current one outwards are as they
will be in the end: all declarations are there, and the names that functions give
themselves later on go into other scopes. So a use finds the same binding wherever the
declaration stands.
-/
namespace ScriptLens

/-- A walk outwards only looks at scopes up to the one that it starts from. -/
theorem lookupFrom?_congr {scopes final : Array ScopeRecord} {scope : Nat}
    (h : ∀ i ≤ scope, final[i]? = scopes[i]?) (name : String) :
    lookupFrom? final scope name = lookupFrom? scopes scope name := by
  fun_induction lookupFrom? scopes scope name with
  | case1 scope hnone =>
    rw [lookupFrom?, h scope (Nat.le_refl _), hnone]
  | case2 scope s hs b hb =>
    rw [lookupFrom?, h scope (Nat.le_refl _), hs]
    simp only [hb]
  | case3 scope s hs hb hp =>
    rw [lookupFrom?, h scope (Nat.le_refl _), hs]
    simp only [hb, hp]
  | case4 scope s hs hb p hp hlt ih =>
    rw [lookupFrom?, h scope (Nat.le_refl _), hs]
    simp only [hb, hp, if_pos hlt]
    exact ih fun i hi => h i (Nat.le_trans hi (Nat.le_of_lt hlt))
  | case5 scope s hs hb p hp hlt =>
    rw [lookupFrom?, h scope (Nat.le_refl _), hs]
    simp only [hb, hp, if_neg hlt]

namespace Resolver
variable {r : Resolver} {x : Index} {id : Ident} {n : Nat}

theorem step_refer (hn : x.identNode? id = some n)
    (hd : ∀ m ∈ r.declarations, m ∈ r.nodeBinding) (hfresh : n ∉ r.nodeBinding) :
    r.step x .resolve (.refer id) =
      match lookupFrom? r.scopes r.current id.name with
      | some b => r.addReference n b
      | none => { r with unresolved := r.unresolved.push n } := by
  have hundeclared : n ∉ r.declarations := fun hmem => hfresh (hd n hmem)
  have hnew : ¬ (r.declarations.contains n || r.nodeBinding.contains n) = true := by
    simp [hfresh, hundeclared]
  show r.refer x id = _
  cases hlookup : lookupFrom? r.scopes r.current id.name with
  | none => simp only [Resolver.refer, hn, if_neg hnew, hlookup]
  | some b => simp only [Resolver.refer, hn, if_neg hnew, hlookup]

theorem lookup?_finish {final : Resolver} {scope : Nat}
    (hscopes : ∀ i ≤ scope, final.scopes[i]? = r.scopes[i]?) (name : String) :
    final.finish.lookup? scope name =
      (lookupFrom? r.scopes scope name).bind fun b => final.bindings[b]? := by
  rw [← lookupFrom?_congr hscopes name]
  rfl

/-- A use of a name, followed by events that do not concern its node or the scopes around
it, leaves what looking the name up in the end says. -/
theorem run_refer (h : r.Sound) (hn : x.identNode? id = some n)
    (hd : ∀ m ∈ r.declarations, m ∈ r.nodeBinding) (hfresh : n ∉ r.nodeBinding)
    {rest : List Event} (hrest : n ∉ rest.filterMap (Event.touched? x .resolve))
    (hscopes : ∀ i ≤ r.current,
      (r.run x .resolve (.refer id :: rest)).scopes[i]? = r.scopes[i]?) :
    (∀ b, (r.run x .resolve (.refer id :: rest)).finish.lookup? r.current id.name = some b →
      (r.run x .resolve (.refer id :: rest)).nodeBinding[n]? = some b.id ∧ n ∈ b.references) ∧
    ((r.run x .resolve (.refer id :: rest)).finish.lookup? r.current id.name = none →
      n ∈ (r.run x .resolve (.refer id :: rest)).unresolved) := by
  have hafter := h.step x .resolve (.refer id)
  have hfinal := h.run x .resolve (.refer id :: rest)
  have hkept := run_nodeBinding_eq hafter hrest
  have hgrow := run_grow hafter x .resolve rest
  rw [lookup?_finish hscopes]
  cases hlookup : lookupFrom? r.scopes r.current id.name with
  | none =>
    refine ⟨?_, ?_⟩
    · intro b hb
      cases hb
    · intro _
      refine run_mem_unresolved hafter ?_
      rw [step_refer hn hd hfresh, hlookup]
      exact Array.mem_push_self
  | some b =>
    obtain ⟨β, hβ, _⟩ := h.graph.exists_binding_of_lookupFrom? hlookup
    have hstep : r.step x .resolve (.refer id) = r.addReference n b := by
      rw [step_refer hn hd hfresh, hlookup]
    have hnoted : (r.step x .resolve (.refer id)).bindings[b]? =
        some { β with references := β.references.push n } := by
      rw [hstep, addReference, Array.getElem?_modify, if_pos rfl, hβ]
      rfl
    obtain ⟨γ, hγ, _, hrefs⟩ := hgrow b _ hnoted
    have hγid : γ.id = b := hfinal.graph.binding_id hγ
    have hγ' : (r.run x .resolve (.refer id :: rest)).bindings[b]? = some γ := hγ
    simp only [Option.bind_some, hγ', Option.some.injEq, reduceCtorEq, false_implies, and_true]
    rintro δ rfl
    refine ⟨?_, hrefs n Array.mem_push_self⟩
    rw [run_cons, hkept, hstep, hγid]
    exact Std.HashMap.getElem?_insert_self

end Resolver

namespace Program
variable {p : Program} {source : String} {before rest : List Event} {id : Ident} {n : Nat}

theorem resolved_eq_run (x : Index) (hevents : p.events = before ++ rest) :
    p.resolved x = (p.resolving x before).run x .resolve rest := by
  rw [resolved, resolving, hevents, Resolver.run_append]
  rfl

theorem scopes_refer_final (x : Index) (hevents : p.events = before ++ .refer id :: rest) {i : Nat}
    (hi : i ≤ (p.resolving x before).current) :
    ((p.resolving x before).run x .resolve (.refer id :: rest)).scopes[i]? =
      (p.resolving x before).scopes[i]? := by
  have hreplays := p.declared_replays x
  have hchain := p.shape_events.isChain
  rw [hevents] at hreplays hchain
  have hthere : (p.resolving x before).Replays (Event.enters (.refer id :: rest)) := hreplays.run x
  rw [← List.cons_append] at hchain
  have hrest := hchain.right_of_append
  have hhead : Event.Follows .leave (.refer id) := fun hself => by cases hself
  exact Resolver.scopes_run hthere (hrest.cons_cons hhead) x (Nat.le_trans hi hthere.current_le)
    fun hself => by cases hself

theorem DistinctIdents.touched_fresh (h : p.DistinctIdents) {e : Event}
    (hevents : p.events = before ++ e :: rest)
    (hn : e.touched? (p.index source) .resolve = some n) :
    n ∉ (p.resolving (p.index source) before).nodeBinding ∧
    n ∉ rest.filterMap (Event.touched? (p.index source) .resolve) := by
  have htouched : p.touched (p.index source) .resolve =
      before.filterMap (Event.touched? (p.index source) .resolve) ++
        n :: rest.filterMap (Event.touched? (p.index source) .resolve) := by
    rw [touched, hevents, List.filterMap_append, List.filterMap_cons_some hn]
  have hmem : n ∈ p.touched (p.index source) .resolve := by simp [htouched]
  have hnodup := h.touched_nodup source .resolve
  rw [htouched, List.nodup_middle, List.nodup_cons, List.mem_append, not_or] at hnodup
  refine ⟨?_, hnodup.1.2⟩
  intro hbound
  have hsound := p.declared_sound (p.index source)
  -- A binding from the first pass or from an earlier event would make two events for the node.
  rcases (Resolver.run_knows_iff hsound (p.declared_declares _) _ .resolve before n).mp
    (.inl hbound) with hdeclared | hbefore
  · cases h.touched_apart hmem ((p.declared_knows_iff _ n).mp hdeclared)
  · exact hnodup.1.1 hbefore

end Program

/-- Every use that the second pass looks up gets what the finished scopes hold for its name,
and that is what the scopes hold already when it is looked up. -/
theorem Program.resolve_refer (p : Program) (source : String) (h : p.DistinctIdents)
    (before rest : List Event) (id : Ident) (n : Nat)
    (hevents : p.events = before ++ .refer id :: rest)
    (hn : (p.index source).identNode? id = some n) :
    let r := p.resolve (p.index source)
    let there := p.resolving (p.index source) before
    (∀ b, r.lookup? there.current id.name = some b →
      r.nodeBinding[n]? = some b.id ∧ n ∈ b.references) ∧
    (r.lookup? there.current id.name = none → n ∈ r.unresolved) ∧
    lookupFrom? there.scopes there.current id.name =
      lookupFrom? r.scopes there.current id.name := by
  obtain ⟨hfresh, hrest⟩ := h.touched_fresh hevents hn
  have hsound := p.resolving_sound (p.index source) before
  have hdeclares := Resolver.run_declares (p.declared_sound (p.index source))
    (p.declared_declares _) (p.index source) .resolve before
  have hfinal := fun i hi =>
    p.scopes_refer_final (p.index source) hevents (i := i) hi
  obtain ⟨hsome, hnone⟩ := Resolver.run_refer hsound hn hdeclares hfresh hrest hfinal
  rw [resolve_eq_finish, resolved_eq_run _ hevents]
  exact ⟨hsome, hnone, (lookupFrom?_congr hfinal id.name).symm⟩

theorem hoistedProgram_refer :
    let x := hoistedProgram.index hoistedText
    let before := hoistedProgram.events.take 6
    let v : Ident := ⟨⟨32, 33⟩, "v"⟩
    let r := hoistedProgram.resolve x
    let there := hoistedProgram.resolving x before
    hoistedProgram.events = before ++ .refer v :: hoistedProgram.events.drop 7 ∧
    x.identNode? v = some 12 ∧
    (∀ b, r.lookup? there.current v.name = some b →
      r.nodeBinding[12]? = some b.id ∧ 12 ∈ b.references) ∧
    (r.lookup? there.current v.name = none → 12 ∈ r.unresolved) ∧
    lookupFrom? there.scopes there.current v.name =
      lookupFrom? r.scopes there.current v.name := by
  have hevents : hoistedProgram.events =
      hoistedProgram.events.take 6 ++ .refer ⟨⟨32, 33⟩, "v"⟩ :: hoistedProgram.events.drop 7 := by
    decide
  have hnode : (hoistedProgram.index hoistedText).identNode? ⟨⟨32, 33⟩, "v"⟩ =
      some 12 :=
    hoistedProgram_distinctIdents.identNode?_entry (by decide) rfl
  exact ⟨hevents, hnode, hoistedProgram.resolve_refer hoistedText hoistedProgram_distinctIdents
    _ _ _ _ hevents hnode⟩

end ScriptLens
