import ScriptLens.Proofs.Scope.Usages

/-! # Uses in source order

The events of a construct are about its identifiers in the order in which these are nodes of its
tree, and records are numbered in that order. So the identifiers are visited by ascending
numbers. The first pass notes no uses, and the second only ever appends the identifier that it
visits, to the uses of a binding or to the identifiers without one.
-/
namespace ScriptLens

theorem filterMap_sublist_filterMap {α β : Type} {f g : α → Option β}
    (h : ∀ a b, f a = some b → g a = some b) (as : List α) :
    (as.filterMap f).Sublist (as.filterMap g) := by
  induction as with
  | nil => exact .slnil
  | cons a as ih =>
    cases hf : f a with
    | none =>
      rw [List.filterMap_cons_none hf]
      exact ih.trans ((List.sublist_cons_self a as).filterMap g)
    | some b =>
      rw [List.filterMap_cons_some hf, List.filterMap_cons_some (h a b hf)]
      exact ih.cons_cons b

namespace Resolver

/-- All lists of uses keep the order in which nodes have been visited. -/
structure KeepsOrder (r : Resolver) (visited : List Nat) : Prop where
  unresolved : r.unresolved.toList.Sublist visited
  references : ∀ (b : Nat) (β : BindingRecord), r.bindings[b]? = some β →
    β.references.toList.Sublist visited

variable {x : Index} {e : Event} {r after : Resolver} {visited : List Nat}

theorem not_refers_of_declare {n : Nat} (hsite : r.site? x .declare e = none)
    (htouched : e.touched? x .declare = some n) : False := by
  obtain ⟨id, hact, hn⟩ := Event.touched?_iff.mp htouched
  cases e with
  | declare kind other =>
    cases hact
    simp [site?, hn] at hsite
  | _ => cases hact

theorem unresolved_bind (r : Resolver) (scope node : Nat) (name : String) (kind : BindingKind) :
    (r.bind scope node name kind).unresolved = r.unresolved := by
  unfold Resolver.bind
  split <;> rfl

theorem unresolved_step_declare (x : Index) (r : Resolver) (e : Event) :
    (r.step x .declare e).unresolved = r.unresolved := by
  cases e with
  | declare kind id =>
    change (r.declare x kind id).unresolved = r.unresolved
    unfold Resolver.declare
    split
    · rfl
    · exact unresolved_bind ..
  | leave =>
    change r.leave.unresolved = r.unresolved
    unfold Resolver.leave
    split <;> rfl
  | _ => rfl

namespace KeepsOrder

theorem start (span : Span) : (Resolver.start span).KeepsOrder [] :=
  ⟨.slnil, by simp [Resolver.start]⟩

theorem rewind (h : r.KeepsOrder visited) : r.rewind.KeepsOrder visited :=
  ⟨h.unresolved, h.references⟩

theorem references_bind (h : r.KeepsOrder visited) (hr : r.Sound) (s : DeclSite) (b : Nat)
    (β : BindingRecord) (hβ : (r.bind s.scope s.node s.name s.kind).bindings[b]? = some β) :
    β.references.toList.Sublist visited := by
  obtain ⟨_, _, hbinds⟩ := exists_binds hr s
  rcases hbinds.references_eq hβ with ⟨_, hempty⟩ | ⟨γ, hγ, hsame⟩
  · rw [hempty]
    exact List.nil_sublist _
  · rw [hsame]
    exact h.references b γ hγ

theorem references_addReference (h : r.KeepsOrder visited) (n c b : Nat) (β : BindingRecord)
    (hβ : (r.addReference n c).bindings[b]? = some β) :
    β.references.toList.Sublist (visited ++ [n]) := by
  obtain ⟨γ, hγ, rfl⟩ := exists_of_addReference hβ
  have hkept := h.references b γ hγ
  split
  · rw [addUse, Array.toList_push]
    exact hkept.append (List.Sublist.refl [n])
  · exact hkept.trans (List.sublist_append_left _ _)

theorem step_declare (h : r.KeepsOrder visited) (hr : r.Sound) (x : Index) (e : Event) :
    (r.step x .declare e).KeepsOrder visited := by
  refine ⟨unresolved_step_declare x r e ▸ h.unresolved, ?_⟩
  cases bindingStep_step hr x .declare e with
  | quiet _ hbindings => exact hbindings ▸ h.references
  | declares _ _ _ hsame =>
    rw [hsame]
    exact h.references_bind hr _
  | refers hnone htouched => exact (not_refers_of_declare hnone htouched).elim

theorem step_resolve (h : r.KeepsOrder visited) (hr : r.Sound) (x : Index) (e : Event) :
    (r.step x .resolve e).KeepsOrder (visited ++ (e.touched? x .resolve).toList) := by
  have hsub : visited.Sublist (visited ++ (e.touched? x .resolve).toList) :=
    List.sublist_append_left _ _
  constructor
  · cases nodeStep_step hr x .resolve e with
    | quiet _ _ hunresolved => exact hunresolved ▸ h.unresolved.trans hsub
    | again _ _ hsame =>
      rw [hsame]
      exact h.unresolved.trans hsub
    | free hnode _ hsame =>
      rw [hsame, hnode, Array.toList_push]
      exact h.unresolved.append (List.Sublist.refl _)
    | bound _ _ _ hunresolved => exact hunresolved ▸ h.unresolved.trans hsub
  · intro b β hβ
    cases bindingStep_step hr x .resolve e with
    | quiet _ hbindings =>
      rw [hbindings] at hβ
      exact (h.references b β hβ).trans hsub
    | declares _ _ _ hsame =>
      rw [hsame] at hβ
      exact (h.references_bind hr _ b β hβ).trans hsub
    | refers _ htouched _ hsame =>
      rw [hsame] at hβ
      rw [htouched]
      exact h.references_addReference _ _ b β hβ

theorem run_declare (h : r.KeepsOrder visited) (hr : r.Sound) (x : Index) (es : List Event) :
    (r.run x .declare es).KeepsOrder visited :=
  run_induction (P := fun _ r' => r'.KeepsOrder visited) h
    fun before e _ _ hbefore => hbefore.step_declare (hr.run x .declare before) x e

theorem run_resolve (h : r.KeepsOrder visited) (hr : r.Sound) (x : Index) (es : List Event) :
    (r.run x .resolve es).KeepsOrder (visited ++ es.filterMap (Event.touched? x .resolve)) := by
  refine run_induction
    (P := fun done r' => r'.KeepsOrder (visited ++ done.filterMap (Event.touched? x .resolve)))
    ?_ ?_
  · simpa using h
  · intro before e _ _ hbefore
    rw [List.filterMap_append, ← List.append_assoc]
    have hstep := hbefore.step_resolve (hr.run x .resolve before) x e
    cases htouched : e.touched? x .resolve with
    | none => simpa [htouched] using hstep
    | some n => simpa [htouched] using hstep

end KeepsOrder

end Resolver

namespace Program
variable {p : Program} {source : String}

/-- The nodes of the identifiers of a program, in the order in which both passes visit them. -/
def visited (p : Program) (x : Index) : List Nat := p.events.filterMap (Event.node? x)

theorem resolved_keepsOrder (p : Program) (x : Index) :
    (p.resolved x).KeepsOrder (p.visited x) := by
  have hdeclared := (Resolver.KeepsOrder.start p.span).run_declare (Resolver.start_sound p.span) x
    p.events
  have hresolved := hdeclared.rewind.run_resolve (p.declared_sound x) x p.events
  have hsub : (p.touched x .resolve).Sublist (p.visited x) :=
    filterMap_sublist_filterMap (fun _ _ => Event.node?_of_touched?) p.events
  exact ⟨hresolved.unresolved.trans hsub, fun b β hβ => (hresolved.references b β hβ).trans hsub⟩

theorem visited_eq_idents (p : Program) (x : Index) :
    p.visited x = p.idents.filterMap x.identNode? := by
  rw [idents, ← p.occurrences_events, Event.occurrences, visited, List.filterMap_map,
    List.filterMap_filterMap]
  rfl

namespace DistinctIdents

theorem visited_ascending (h : p.DistinctIdents) (source : String) :
    (p.visited (p.index source)).Pairwise (· < ·) := by
  have hentries : p.toTree.entries.Pairwise fun e f =>
      ∃ i j : Nat, i < j ∧ p.toTree.entries[i]? = some e ∧ p.toTree.entries[j]? = some f := by
    rw [List.pairwise_iff_getElem]
    intro i j hi hj hij
    exact ⟨i, j, hij, List.getElem?_eq_getElem hi, List.getElem?_eq_getElem hj⟩
  have hidents := hentries.filter (·.1.kind == .identifier)
  change p.toTree.identEntries.Pairwise _ at hidents
  rw [p.identEntries_toTree, List.pairwise_map, List.pairwise_filter] at hidents
  rw [visited_eq_idents, List.pairwise_filterMap]
  refine hidents.imp_of_mem ?_
  intro id other hid hother hbefore n hn m hm
  obtain ⟨i, j, hij, hi, hj⟩ :=
    hbefore (entry_of_identNode? hn).1 (entry_of_identNode? hm).1
  cases hn.symm.trans (h.identNode?_entry hid hi)
  cases hm.symm.trans (h.identNode?_entry hother hj)
  exact hij

theorem mem_visited_iff (h : p.DistinctIdents) {n : Nat} :
    n ∈ p.visited (p.index source) ↔
      ∃ record, (p.index source).node? n = some record ∧ record.kind = .identifier := by
  rw [visited_eq_idents, List.mem_filterMap]
  constructor
  · rintro ⟨id, _, hn⟩
    exact exists_record hn
  · rintro ⟨record, hrecord, hkind⟩
    obtain ⟨o, ho, hn⟩ := h.exists_occurrence hrecord hkind
    exact ⟨o.ident, mem_idents ho, hn⟩

end DistinctIdents

end Program

def Index.identNumbers (x : Index) : List Nat :=
  (List.range x.nodes.size).filter fun n => (x.node? n).any (·.kind == .identifier)

theorem Index.mem_identNumbers {x : Index} {n : Nat} :
    n ∈ x.identNumbers ↔ ∃ record, x.node? n = some record ∧ record.kind = .identifier := by
  rw [identNumbers, List.mem_filter, List.mem_range, Option.any_eq_true]
  constructor
  · rintro ⟨_, record, hrecord, hkind⟩
    exact ⟨record, hrecord, by simpa using hkind⟩
  · rintro ⟨record, hrecord, hkind⟩
    exact ⟨(Array.getElem?_eq_some_iff.mp hrecord).1, record, hrecord, by simpa using hkind⟩

theorem Index.identNumbers_ascending (x : Index) : x.identNumbers.Pairwise (· < ·) :=
  List.pairwise_lt_range.filter _

theorem Program.DistinctIdents.visited_eq {p : Program} (h : p.DistinctIdents) (source : String) :
    p.visited (p.index source) = (p.index source).identNumbers := by
  have hvisited := h.visited_ascending source
  have hnumbers := (p.index source).identNumbers_ascending
  have hperm : (p.visited (p.index source)).Perm (p.index source).identNumbers := by
    rw [List.perm_ext_iff_of_nodup (hvisited.imp Nat.ne_of_lt) (hnumbers.imp Nat.ne_of_lt)]
    intro n
    rw [h.mem_visited_iff, Index.mem_identNumbers]
  exact hperm.eq_of_pairwise (fun _ _ _ _ hlt hgt => absurd hgt (Nat.lt_asymm hlt)) hvisited
    hnumbers

/-- The identifiers of each construct are visited in the order of its nodes, so those of a program
are visited by ascending numbers, and the uses of each binding and the identifiers without one
are listed by ascending numbers, too. -/
theorem Program.resolve_ascending_uses (p : Program) (source : String) (h : p.DistinctIdents) :
    let x := p.index source
    let r := p.resolve x
    (∀ (c : Category) (a : Ast c) (binder : Option BindingKind),
      a.trees.flatMap Tree.identEntries =
        (((Event.occurrences (a.events binder)).map Occurrence.ident).filter
          Ident.isPlaced).map Ident.entry) ∧
    p.visited x = x.identNumbers ∧
    r.unresolved.toList.Pairwise (· < ·) ∧
    ∀ (b : Nat) (β : BindingRecord), r.bindings[b]? = some β →
      β.references.toList.Pairwise (· < ·) := by
  intro x
  rw [p.resolve_eq_finish]
  intro r
  have hvisited : (p.visited x).Pairwise (· < ·) := h.visited_ascending source
  have hkeeps := p.resolved_keepsOrder x
  refine ⟨fun c a binder => ?_, h.visited_eq source, hvisited.sublist hkeeps.unresolved,
    fun b β hβ => hvisited.sublist (hkeeps.references b β hβ)⟩
  rw [a.occurrences_events]
  exact a.shows_trees

def repeatedText : String := "do x(y); while (x); var x; y;"

def repeatedProgram : Program where
  span := ⟨1, 30⟩
  body := .ofList
    [.doWhileStmt ⟨1, 20⟩
      (.exprStmt ⟨4, 9⟩ (.call ⟨4, 8⟩ false false (.ident ⟨⟨4, 5⟩, "x"⟩)
        (.ofList [.ident ⟨⟨6, 7⟩, "y"⟩])))
      (.paren ⟨16, 19⟩ (.ident ⟨⟨17, 18⟩, "x"⟩)),
     .varStmt (.declarationOf ⟨21, 27⟩ .varDecl (.ofList
      [.declaratorOf ⟨25, 26⟩ (.target ⟨⟨25, 26⟩, "x"⟩) .absent])),
     .exprStmt ⟨28, 30⟩ (.ident ⟨⟨28, 29⟩, "y"⟩)]

theorem repeatedProgram_distinctIdents : repeatedProgram.DistinctIdents := ⟨by decide, by decide⟩

theorem repeatedProgram_ascending_uses :
    let x := repeatedProgram.index repeatedText
    let r := repeatedProgram.resolve x
    repeatedProgram.DistinctIdents ∧ repeatedProgram.visited x = [4, 5, 7, 10, 12] ∧
    r.unresolved = #[5, 12] ∧ r.unresolved.toList.Pairwise (· < ·) ∧
    r.bindings = #[⟨0, "x", .varDecl, 10, 0, #[4, 7]⟩] ∧ [4, 7].Pairwise (· < ·) := by
  intro x r
  have hdistinct := repeatedProgram_distinctIdents
  have hcall : x.identNode? ⟨⟨4, 5⟩, "x"⟩ = some 4 := hdistinct.identNode?_entry (by decide) rfl
  have harg : x.identNode? ⟨⟨6, 7⟩, "y"⟩ = some 5 := hdistinct.identNode?_entry (by decide) rfl
  have htest : x.identNode? ⟨⟨17, 18⟩, "x"⟩ = some 7 := hdistinct.identNode?_entry (by decide) rfl
  have hvar : x.identNode? ⟨⟨25, 26⟩, "x"⟩ = some 10 := hdistinct.identNode?_entry (by decide) rfl
  have huse : x.identNode? ⟨⟨28, 29⟩, "y"⟩ = some 12 := hdistinct.identNode?_entry (by decide) rfl
  have hevents : repeatedProgram.events = [.refer ⟨⟨4, 5⟩, "x"⟩, .refer ⟨⟨6, 7⟩, "y"⟩,
      .refer ⟨⟨17, 18⟩, "x"⟩, .declare .varDecl ⟨⟨25, 26⟩, "x"⟩, .refer ⟨⟨28, 29⟩, "y"⟩] := by
    decide
  obtain ⟨_, _, hunresolved, hreferences⟩ :=
    repeatedProgram.resolve_ascending_uses repeatedText hdistinct
  have hr : r.unresolved = #[5, 12] ∧ r.bindings = #[⟨0, "x", .varDecl, 10, 0, #[4, 7]⟩] := by
    simp only [r, Program.resolve_eq_run, hevents]
    simp [Resolver.run, Resolver.step, Resolver.start, Resolver.declare, Resolver.refer, hcall,
      harg, htest, hvar, huse, Resolver.bind, Resolver.rewind, Resolver.finish, lookupFrom?,
      ScopeRecord.binding?, BindingKind.isHoisted, hoistTarget, Resolver.addReference,
      ScopeKind.isHoistTarget]
  refine ⟨hdistinct, ?_, hr.1, hunresolved, hr.2, ?_⟩
  · simp [Program.visited, hevents, Event.node?, Event.occurrence?, Occurrence.ident, hcall, harg,
      htest, hvar, huse]
  · exact hreferences 0 _ (by rw [hr.2]; rfl)

end ScriptLens
