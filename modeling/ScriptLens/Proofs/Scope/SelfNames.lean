import ScriptLens.Proofs.Scope.Outward

/-! # Functions that name themselves

The name of a function expression is looked up around the function first, then in the scope of
the function, which by then holds what its parameters and its body declare, and else it becomes
a name of that scope. Nothing outside of the function comes to a binding of that scope, since
the scope is open only inside.
-/
namespace ScriptLens

open Event

/-- A function expression with a name, among the events of a program. -/
structure Program.NamesSelf (p : Program) (before : List Event) (span : Span) (f : Ident)
    (inside after : List Event) : Prop where
  events : p.events =
    before ++ .enter .function span :: .nameSelf f :: (inside ++ .leave :: after)
  shape : Shape inside

namespace Program
variable {p : Program} {before rest inside after : List Event} {span : Span} {f : Ident}

/-- Once something has happened in a scope but for its opening, the scope is final, and so are
the scopes around it. -/
theorem scopes_final (x : Index) {last : Event} (hevents : p.events = before ++ last :: rest)
    {i : Nat} (hi : i ≤ (p.resolving x (before ++ [last])).current)
    (hlast : last.isEnter = true → i < (p.resolving x (before ++ [last])).current) :
    (p.resolved x).scopes[i]? = (p.resolving x (before ++ [last])).scopes[i]? := by
  have hsplit : p.events = (before ++ [last]) ++ rest := by simp [hevents]
  have hreplays := resolving_replays x hsplit
  have hchain := p.shape_events.isChain
  rw [hevents, ← List.cons_append] at hchain
  rw [resolved_eq_run x hsplit]
  exact Resolver.scopes_run hreplays hchain.right_of_append x
    (Nat.le_trans hi hreplays.current_le) hlast

theorem lookupFrom?_root (p : Program) (x : Index) (name : String) :
    lookupFrom? (p.resolve x).scopes 0 name = boundIn? (p.declared x).scopes 0 name := by
  obtain ⟨s, hs, hp⟩ := (p.declared_sound x).graph.root_parent
  have hfinal : (p.resolve x).scopes[0]? = some s := by
    rw [← hs, p.scopes_resolve]
    exact Resolver.scopes_run (p.declared_replays x) p.shape_events.isChain x (Nat.zero_le _)
      fun hself => by cases hself
  rw [lookupFrom?, boundIn?, hfinal, hs, Option.bind_some]
  cases hname : s.binding? name with
  | some b => simp only [hname]
  | none => simp only [hname, hp]

theorem lookupFrom?_eq_none (p : Program) (x : Index) {scope : Nat} {name : String}
    (h : (p.resolve x).lookup? scope name = none) :
    lookupFrom? (p.resolve x).scopes scope name = none := by
  by_contra hfound
  obtain ⟨b, hb⟩ := Option.ne_none_iff_exists'.mp hfound
  obtain ⟨β, hβ, _⟩ := (p.resolve_graph x).exists_binding_of_lookupFrom? hb
  have hlookup : (p.resolve x).lookup? scope name = some β :=
    (congrArg (Option.bind · (p.resolve x).binding?) hb).trans hβ
  cases h.symm.trans hlookup

theorem declaring_enter (x : Index) (kind : ScopeKind) (span : Span) :
    p.declaring x (before ++ [.enter kind span]) =
      (p.declaring x before).enter .declare kind span := by
  rw [declaring, Resolver.run_append]
  rfl

theorem declaring_enter_self (x : Index) (kind : ScopeKind) (span : Span) (f : Ident) :
    p.declaring x (before ++ [.enter kind span, .nameSelf f]) =
      (p.declaring x before).enter .declare kind span := by
  rw [declaring, Resolver.run_append]
  rfl

namespace NamesSelf

theorem entered (h : p.NamesSelf before span f inside after) :
    p.events =
      (before ++ [.enter .function span]) ++ .nameSelf f :: (inside ++ .leave :: after) := by
  simp [h.events]

theorem left (h : p.NamesSelf before span f inside after) :
    p.events = (before ++ within .function span (.nameSelf f :: inside)) ++ after := by
  simp [h.events, within]

theorem shape_within (h : p.NamesSelf before span f inside after) :
    Shape (within .function span (.nameSelf f :: inside)) :=
  Shape.within .function span (some f) h.shape

theorem of_function {code : Callable} {params : Ast (.list .pattern)} {bodySpan : Span}
    {body : Ast (.list .stmt)} (hevents : p.events =
      before ++ (Ast.function code (some f) params bodySpan body).events none ++ after) :
    p.NamesSelf before code.span f (params.events (some .parameter) ++ body.events none) after := by
  have hfunction : (Ast.function code (some f) params bodySpan body).events none =
      within .function code.span
        (.nameSelf f :: (params.events (some .parameter) ++ body.events none)) := rfl
  refine ⟨?_, (params.shape_events _).append (body.shape_events _)⟩
  rw [hevents, hfunction]
  simp [within]

theorem stack_entered (h : p.NamesSelf before span f inside after) (x : Index) :
    (p.resolving x (before ++ [.enter .function span])).stack =
      (p.declaring x before).scopes.size :: (p.declaring x before).stack := by
  rw [stack_resolving x h.entered, declaring_enter]
  rfl

theorem current_entered (h : p.NamesSelf before span f inside after) (x : Index) :
    (p.resolving x (before ++ [.enter .function span])).current =
      (p.declaring x before).scopes.size :=
  (List.cons.inj (h.stack_entered x)).1

/-- The function has a scope of its own inside the scope that it stands in. -/
theorem frame?_own (h : p.NamesSelf before span f inside after) (x : Index) :
    frame? (p.resolve x).scopes (p.declaring x before).scopes.size =
      some ⟨some (p.declaring x before).current, .function,
        (p.declaring x before).extent span⟩ :=
  (sameOpening x h.events).kept

theorem parentOf?_own (h : p.NamesSelf before span f inside after) (x : Index) :
    parentOf? (p.resolving x (before ++ [.enter .function span])).scopes
      (p.declaring x before).scopes.size = some (p.declaring x before).current := by
  have hopened : frame? (p.declaring x (before ++ [.enter .function span])).scopes
      (p.declaring x before).scopes.size = some ⟨some (p.declaring x before).current, .function,
        (p.declaring x before).extent span⟩ := by
    rw [declaring_enter]
    change frame? (withScope _ _ _ _) _ = _
    rw [frame?_withScope, if_pos rfl]
    rfl
  rw [parentOf?_eq_frame?, frame?_resolving_of_declaring x h.entered hopened]
  rfl

theorem lookupFrom?_outer (h : p.NamesSelf before span f inside after) (x : Index)
    (name : String) :
    lookupFrom? (p.resolve x).scopes (p.declaring x before).current name =
      lookupFrom? (p.resolving x (before ++ [.enter .function span])).scopes
        (p.declaring x before).current name := by
  have hlt := (p.declaring_rooted x before).current_lt
  refine lookupFrom?_congr (fun i hi => ?_) name
  rw [p.scopes_resolve]
  refine scopes_final x h.events ?_ fun _ => ?_
  · rw [h.current_entered]
    omega
  · rw [h.current_entered]
    omega

/-- The second pass comes to the scope of the function as the first pass has left it. -/
theorem scopes_entered (h : p.NamesSelf before span f inside after) (x : Index) :
    (p.resolving x (before ++ [.enter .function span])).scopes[
        (p.declaring x before).scopes.size]? =
      (p.declared x).scopes[(p.declaring x before).scopes.size]? := by
  have hentered : (p.resolving x (before ++ [.enter .function span])).scopes =
      (p.resolving x before).scopes := by
    rw [resolving, Resolver.run_append]
    exact (sameOpening x h.events).opens_none
  have hreplays := p.declared_replays x
  rw [h.events] at hreplays
  rw [hentered]
  refine Resolver.scopes_run_ahead hreplays x ?_
  rw [size_declaring]
  change 0 + _ < _
  omega

theorem not_open_before {events others : List Event} (hbefore : before = events ++ others)
    (x : Index) : (p.declaring x before).scopes.size ∉ (p.declaring x events).stack := by
  intro hmem
  have hlt := (p.declaring_rooted x events).mem_stack_lt hmem
  rw [hbefore, size_declaring, size_declaring, enters, List.countP_append] at hlt
  rw [enters] at hlt
  omega

theorem stack_left (h : p.NamesSelf before span f inside after) (x : Index) :
    (p.declaring x (before ++ within .function span (.nameSelf f :: inside))).stack =
      (p.declaring x before).stack := by
  rw [declaring, Resolver.run_append]
  exact Resolver.stack_run h.shape_within x (p.declaring x before)

theorem size_left (x : Index) :
    (p.declaring x before).scopes.size <
      (p.declaring x (before ++ within .function span (.nameSelf f :: inside))).scopes.size := by
  rw [size_declaring, size_declaring, enters, enters, List.countP_append]
  have hpos : 0 < List.countP isEnter (within .function span (.nameSelf f :: inside)) :=
    List.countP_pos_iff.mpr ⟨.enter .function span, by simp [within], rfl⟩
  omega

theorem not_open_left (h : p.NamesSelf before span f inside after) (x : Index) :
    (p.declaring x before).scopes.size ∉
      (p.declaring x (before ++ within .function span (.nameSelf f :: inside))).stack := by
  rw [h.stack_left]
  exact not_open_before (List.append_nil before).symm x

theorem not_open_after (h : p.NamesSelf before span f inside after) (x : Index)
    (events : List Event) :
    (p.declaring x before).scopes.size ∉ (p.declaring x
      (before ++ within .function span (.nameSelf f :: inside) ++ events)).stack := by
  have hrooted := p.declaring_rooted x (before ++ within .function span (.nameSelf f :: inside))
  rw [declaring, Resolver.run_append]
  exact hrooted.not_mem_stack_run (size_left x) (h.not_open_left x) x events

/-- The declarations before the function, inside of it and after it. -/
theorem sites_eq (h : p.NamesSelf before span f inside after) (x : Index) :
    (Resolver.start p.span).sites x .declare p.events =
      (Resolver.start p.span).sites x .declare before ++
      ((p.declaring x (before ++ [.enter .function span, .nameSelf f])).sites x .declare inside ++
        (p.declaring x (before ++ within .function span (.nameSelf f :: inside))).sites x .declare
          after) := by
  have hleft : p.declaring x (before ++ within .function span (.nameSelf f :: inside)) =
      (((p.declaring x before).enter .declare .function span).run x .declare inside).leave := by
    rw [declaring, Resolver.run_append, Resolver.run_within]
    rfl
  rw [h.events, Resolver.sites_append, declaring_enter_self, hleft]
  refine congrArg _ ?_
  change ((p.declaring x before).enter .declare .function span).sites x .declare
    (inside ++ .leave :: after) = _
  rw [Resolver.sites_append]
  rfl

/-- What the name refers to is found around the function in the end, or in its scope after the
first pass. -/
theorem selfBinding?_eq (h : p.NamesSelf before span f inside after) (x : Index)
    (name : String) :
    (p.resolving x (before ++ [.enter .function span])).selfBinding? name =
      (lookupFrom? (p.resolve x).scopes (p.declaring x before).current name).or
        (boundIn? (p.declared x).scopes (p.declaring x before).scopes.size name) := by
  have hparent := h.parentOf?_own x
  rw [← h.current_entered x] at hparent
  rw [Resolver.selfBinding?_eq hparent, h.current_entered, h.lookupFrom?_outer]
  exact congrArg _ (congrArg (Option.bind · _) (h.scopes_entered x))

/-- When the first pass is done, the scope of the function holds what is declared for it inside
of the function. -/
theorem exists_boundIn?_declared_iff (h : p.NamesSelf before span f inside after) (source : String)
    (hdistinct : p.DistinctIdents) (name : String) :
    let x := p.index source
    let own := (p.declaring x before).scopes.size
    (∃ b, boundIn? (p.declared x).scopes own name = some b) ↔
      ∃ s ∈ (p.declaring x (before ++ [.enter .function span, .nameSelf f])).sites x .declare
          inside,
        s.scope = own ∧ s.name = name := by
  intro x own
  rw [(hdistinct.declared_accounts source).exists_boundIn?_iff (p.declared_sound x), h.sites_eq]
  constructor
  · rintro ⟨s, hs, hscope, hname⟩
    rcases List.mem_append.mp hs with hs | hs
    · have hlt := (Resolver.start_rooted p.span).sites_lt hs
      exact absurd hscope (Nat.ne_of_lt hlt)
    rcases List.mem_append.mp hs with hs | hs
    · exact ⟨s, hs, hscope, hname⟩
    · exact absurd hscope
        ((p.declaring_rooted x _).sites_ne (size_left x) (h.not_open_left x) hs)
  · rintro ⟨s, hs, hscope, hname⟩
    exact ⟨s, List.mem_append_right _ (List.mem_append_left _ hs), hscope, hname⟩

theorem scopes_own (h : p.NamesSelf before span f inside after) (x : Index) :
    (p.resolve x).scopes[(p.declaring x before).scopes.size]? =
      ((p.resolving x (before ++ [.enter .function span])).step x .resolve
        (.nameSelf f)).scopes[(p.declaring x before).scopes.size]? := by
  have hstep : (p.resolving x (before ++ [.enter .function span])).step x .resolve (.nameSelf f) =
      p.resolving x (before ++ [.enter .function span] ++ [.nameSelf f]) := by
    rw [resolving, resolving, Resolver.run_append x .resolve _ _ [.nameSelf f]]
    rfl
  have hcurrent : (p.resolving x (before ++ [.enter .function span] ++ [.nameSelf f])).current =
      (p.declaring x before).scopes.size := by
    rw [← hstep]
    exact (Resolver.nameSelf_stays x _ f).current.trans (h.current_entered x)
  rw [hstep, p.scopes_resolve]
  exact scopes_final x h.entered (Nat.le_of_eq hcurrent.symm) fun hself => by cases hself

section Final
variable {source : String} {n b : Nat}

/-- The name refers to a binding around the function or, if there is none, to one that the first
pass has made in the scope of the function. -/
theorem refers (h : p.NamesSelf before span f inside after) (hdistinct : p.DistinctIdents)
    (hn : (p.index source).identNode? f = some n)
    (hself :
      (p.resolving (p.index source) (before ++ [.enter .function span])).selfBinding? f.name =
      some b) :
    let x := p.index source
    let r := p.resolve x
    let own := (p.declaring x before).scopes.size
    (∃ β, r.nodeBinding[n]? = some b ∧ r.bindings[b]? = some β ∧ n ∈ β.references ∧
      r.isReference n = true) ∧
    boundIn? r.scopes own f.name = boundIn? (p.declared x).scopes own f.name := by
  intro x r own
  have hsound := p.resolving_sound x (before ++ [.enter .function span])
  have hstep : (p.resolving x (before ++ [.enter .function span])).step x .resolve (.nameSelf f) =
      (p.resolving x (before ++ [.enter .function span])).addReference n b := by
    rw [Resolver.step_nameSelf hn, hself]
  obtain ⟨γ, hγ⟩ := hsound.exists_binding_of_selfBinding? hself
  have hattaches := Resolver.attaches_addReference n hγ
  obtain ⟨hsame, hbindings⟩ := hdistinct.resolved_of_step h.entered hn
  rw [hstep] at hsame hbindings
  constructor
  · simp only [r, p.resolve_eq_finish]
    have hnode : (p.resolved x).nodeBinding[n]? = some b :=
      hsame.trans hattaches.nodeBinding_self
    obtain ⟨uses, hkept⟩ := hbindings b (Resolver.addUse n γ) hattaches.binding
    have hused : n ∈ (Resolver.addUse n γ).references ++ uses :=
      Array.mem_append_left _ Array.mem_push_self
    have hundeclared : n ∉ (p.resolved x).declarations :=
      (((hdistinct.accounts source).used b _ hkept n).mp hused).2
    refine ⟨_, hnode, hkept, hused, ?_⟩
    have hknown : n ∈ (p.resolved x).nodeBinding :=
      Std.HashMap.mem_iff_isSome_getElem?.mpr (Option.isSome_of_eq_some hnode)
    change ((p.resolved x).nodeBinding.contains n && !(p.resolved x).declarations.contains n) = true
    simp [hknown, hundeclared]
  · rw [boundIn?, h.scopes_own, hstep]
    exact congrArg (Option.bind · _) (h.scopes_entered x)

theorem mem_sites_of_resolve (x : Index) {e : Event} {s : DeclSite}
    (hevents : p.events = before ++ e :: rest)
    (hs : (p.resolving x before).site? x .resolve e = some s) : s ∈ p.sites x := by
  refine List.mem_append_right _ ?_
  rw [hevents, Resolver.sites_append, Resolver.sites]
  exact List.mem_append_right _ (List.mem_append_left _ (Option.mem_toList.mpr hs))

/-- A name that is free around the function and in it becomes that of the function. -/
theorem declares (h : p.NamesSelf before span f inside after) (hdistinct : p.DistinctIdents)
    (hn : (p.index source).identNode? f = some n)
    (hself :
      (p.resolving (p.index source) (before ++ [.enter .function span])).selfBinding? f.name =
      none) :
    let x := p.index source
    let r := p.resolve x
    ∃ b β, r.nodeBinding[n]? = some b ∧ r.bindings[b]? = some β ∧
      (p.declared x).bindings[b]? = none ∧ r.isDeclaration n = true ∧ β.name = f.name ∧
      β.scope = (p.declaring x before).scopes.size ∧ β.kind = .functionDecl ∧ β.decl = n := by
  intro x r
  have hsound := p.resolving_sound x (before ++ [.enter .function span])
  have hcurrent := h.current_entered x
  have hstep : (p.resolving x (before ++ [.enter .function span])).step x .resolve (.nameSelf f) =
      (p.resolving x (before ++ [.enter .function span])).bind
        (p.resolving x (before ++ [.enter .function span])).current n f.name .functionDecl := by
    rw [Resolver.step_nameSelf hn, hself]
  obtain ⟨b, β, hbinds⟩ := Resolver.exists_binds hsound
    ⟨(p.resolving x (before ++ [.enter .function span])).current, f.name, .functionDecl, n⟩
  obtain ⟨hnew, hβ⟩ := hbinds.is_new hsound (Option.or_eq_none_iff.mp hself).2
  obtain ⟨hsame, hbindings⟩ := hdistinct.resolved_of_step h.entered hn
  rw [hstep] at hsame hbindings
  have hnode : (p.resolved x).nodeBinding[n]? = some b :=
    hsame.trans hbinds.attaches.nodeBinding_self
  obtain ⟨uses, hkept⟩ := hbindings b β hbinds.binding
  simp only [r, p.resolve_eq_finish]
  refine ⟨b, _, hnode, hkept, ?_, ?_, ?_⟩
  · by_contra hold
    obtain ⟨γ, hγ⟩ := Option.ne_none_iff_exists'.mp hold
    obtain ⟨more, hthere⟩ := Resolver.onlyUsed_run (p.declared_sound x) x
      (before ++ [.enter .function span]) b γ hγ
    cases hnew.symm.trans hthere
  · have hsite : (p.resolving x (before ++ [.enter .function span])).site? x .resolve
        (.nameSelf f) = some ⟨(p.resolving x (before ++ [.enter .function span])).current, f.name,
          .functionDecl, n⟩ := by
      have hnone : ((p.resolving x (before ++ [.enter .function span])).selfBinding?
          f.name).isSome = false := by rw [hself]; rfl
      simp [Resolver.site?, hnone, hn, x]
    have hmem := ((hdistinct.accounts source).declared n).mpr
      ⟨_, mem_sites_of_resolve x h.entered hsite, rfl⟩
    exact Std.HashSet.contains_iff_mem.mpr hmem
  · subst hβ
    exact ⟨rfl, hcurrent, rfl, rfl⟩

/-- Only nodes inside of the function have bindings of its scope. -/
theorem scope_ne_outside (h : p.NamesSelf before span f inside after) (hdistinct : p.DistinctIdents)
    {e : Event} (he : e ∈ before ++ after) {β : BindingRecord}
    (hn : e.node? (p.index source) = some n)
    (hβ : (p.resolve (p.index source)).bindingOf? n = some β) :
    β.scope ≠ (p.declaring (p.index source) before).scopes.size := by
  obtain ⟨b, hnode, hb⟩ := Option.bind_eq_some_iff.mp hβ
  rintro heq
  rcases List.mem_append.mp he with he | he
  · obtain ⟨events, rest, hsplit⟩ := List.append_of_mem he
    have hevents : p.events = events ++ e :: (rest ++ .enter .function span :: .nameSelf f ::
        (inside ++ .leave :: after)) := by
      rw [h.events, hsplit]
      simp
    have hopen := hdistinct.scope_mem_stack hevents hn hnode hb
    rw [heq] at hopen
    exact not_open_before hsplit (p.index source) hopen
  · obtain ⟨events, rest, hsplit⟩ := List.append_of_mem he
    have hevents : p.events = (before ++ within .function span (.nameSelf f :: inside) ++ events) ++
        e :: rest := by
      rw [h.left, hsplit]
      simp
    have hopen := hdistinct.scope_mem_stack hevents hn hnode hb
    rw [heq] at hopen
    exact h.not_open_after (p.index source) events hopen

end Final

end NamesSelf

end Program

/-- The name of a function expression refers to what is found around the function, if anything
is, and the scope of the function holds that name only if a parameter or a declaration in the
body puts it there. Else the name has the binding in the scope of the function, as one more use
of it if they have made one, or as the declaration of a new one. No node outside of the function
has a binding of that scope. -/
theorem Program.resolve_function_name (p : Program) (source : String)
    (hdistinct : p.DistinctIdents) (before after : List Event) (code : Callable) (f : Ident)
    (params : Ast (.list .pattern)) (bodySpan : Span) (body : Ast (.list .stmt)) (n : Nat)
    (hevents : p.events =
      before ++ (Ast.function code (some f) params bodySpan body).events none ++ after)
    (hn : (p.index source).identNode? f = some n) :
    let x := p.index source
    let r := p.resolve x
    let outer := (p.declaring x before).current
    let own := (p.declaring x (before ++ [.enter .function code.span])).current
    let inside := (p.declaring x (before ++ [.enter .function code.span, .nameSelf f])).sites x
      .declare (params.events (some .parameter) ++ body.events none)
    let declaredInside := ∃ s ∈ inside, s.scope = own ∧ s.name = f.name
    (∃ s, r.scopes[own]? = some s ∧ s.kind = .function ∧ s.parent = some outer) ∧
    (∀ β, r.lookup? outer f.name = some β →
      r.nodeBinding[n]? = some β.id ∧ r.isReference n = true ∧ n ∈ β.references ∧
      ((∃ b, boundIn? r.scopes own f.name = some b) ↔ declaredInside)) ∧
    (r.lookup? outer f.name = none →
      ∃ b β, r.nodeBinding[n]? = some b ∧ boundIn? r.scopes own f.name = some b ∧
        r.bindings[b]? = some β ∧
        (declaredInside → boundIn? (p.declared x).scopes own f.name = some b ∧
          r.isReference n = true ∧ n ∈ β.references) ∧
        (¬ declaredInside → (p.declared x).bindings[b]? = none ∧ r.isDeclaration n = true ∧
          β.kind = .functionDecl ∧ β.decl = n)) ∧
    ∀ e ∈ before ++ after, ∀ m β, e.node? x = some m → r.bindingOf? m = some β → β.scope ≠ own := by
  have h := NamesSelf.of_function hevents
  intro x r outer own inside declaredInside
  have hown : own = (p.declaring x before).scopes.size :=
    congrArg Resolver.current (declaring_enter x .function code.span)
  have hgraph := p.resolve_graph x
  have hdeclared : (∃ b, boundIn? (p.declared x).scopes own f.name = some b) ↔ declaredInside := by
    change _ ↔ ∃ s ∈ inside, s.scope = own ∧ s.name = f.name
    rw [hown]
    exact h.exists_boundIn?_declared_iff source hdistinct f.name
  have hself := h.selfBinding?_eq x f.name
  rw [← hown] at hself
  refine ⟨?_, ?_, ?_, ?_⟩
  · rw [hown]
    obtain ⟨s, hs, hframe⟩ := frame?_eq_some.mp (h.frame?_own x)
    exact ⟨s, hs, congrArg Frame.kind hframe, congrArg Frame.parent hframe⟩
  · intro β hβ
    obtain ⟨b, hlookup, hb⟩ := Option.bind_eq_some_iff.mp hβ
    rw [hlookup] at hself
    obtain ⟨⟨γ, hnode, hγ, hused, hreference⟩, hkept⟩ := h.refers hdistinct hn hself
    cases hγ.symm.trans hb
    have hid : β.id = b := hgraph.binding_id hb
    rw [← hown] at hkept
    exact ⟨hid ▸ hnode, hreference, hused, by rw [hkept]; exact hdeclared⟩
  · intro hnone
    have haround := p.lookupFrom?_eq_none x hnone
    rw [haround, Option.none_or] at hself
    cases hbound : boundIn? (p.declared x).scopes own f.name with
    | some b =>
      rw [hbound] at hself
      obtain ⟨⟨β, hnode, hβ, hused, hreference⟩, hkept⟩ := h.refers hdistinct hn hself
      rw [← hown] at hkept
      refine ⟨b, β, hnode, hkept.trans hbound, hβ, fun _ => ⟨rfl, hreference, hused⟩, ?_⟩
      exact fun hfree => absurd (hdeclared.mp ⟨b, hbound⟩) hfree
    | none =>
      rw [hbound] at hself
      obtain ⟨b, β, hnode, hβ, hnew, hdeclares, hname, hscope, hkind, hdecl⟩ :=
        h.declares hdistinct hn hself
      rw [← hown] at hscope
      refine ⟨b, β, hnode, (hgraph.bound_iff own f.name b).mpr ⟨β, hβ, hscope, hname⟩, hβ,
        fun hinside => ?_, fun _ => ⟨hnew, hdeclares, hkind, hdecl⟩⟩
      obtain ⟨c, hc⟩ := hdeclared.mpr hinside
      cases hbound.symm.trans hc
  · intro e he m β hm hβ
    rw [hown]
    exact h.scope_ne_outside hdistinct he hm hβ

def namedText : String :=
  "var a; (function a() \x7b \x7d); (function b(b) \x7b \x7d); (function c() \x7b \x7d);"

def namedProgram : Program where
  span := ⟨1, 68⟩
  body := .ofList
    [.varStmt (.declarationOf ⟨1, 7⟩ .varDecl (.ofList
      [.declaratorOf ⟨5, 6⟩ (.target ⟨⟨5, 6⟩, "a"⟩) .absent])),
     .exprStmt ⟨8, 27⟩ (.paren ⟨8, 26⟩
      (.function ⟨⟨9, 25⟩, false, false⟩ (some ⟨⟨18, 19⟩, "a"⟩) .nil ⟨22, 25⟩ .nil)),
     .exprStmt ⟨28, 48⟩ (.paren ⟨28, 47⟩
      (.function ⟨⟨29, 46⟩, false, false⟩ (some ⟨⟨38, 39⟩, "b"⟩)
        (.ofList [.target ⟨⟨40, 41⟩, "b"⟩]) ⟨43, 46⟩ .nil)),
     .exprStmt ⟨49, 68⟩ (.paren ⟨49, 67⟩
      (.function ⟨⟨50, 66⟩, false, false⟩ (some ⟨⟨59, 60⟩, "c"⟩) .nil ⟨63, 66⟩ .nil))]

theorem namedProgram_distinctIdents : namedProgram.DistinctIdents := ⟨by decide, by decide⟩

theorem namedProgram_events : namedProgram.events =
    [.declare .varDecl ⟨⟨5, 6⟩, "a"⟩,
     .enter .function ⟨9, 25⟩, .nameSelf ⟨⟨18, 19⟩, "a"⟩, .leave,
     .enter .function ⟨29, 46⟩, .nameSelf ⟨⟨38, 39⟩, "b"⟩,
     .declare .parameter ⟨⟨40, 41⟩, "b"⟩, .leave,
     .enter .function ⟨50, 66⟩, .nameSelf ⟨⟨59, 60⟩, "c"⟩, .leave] := by decide

/-- The first function finds the variable, the second its parameter, and the third nothing. -/
theorem namedProgram_function_name :
    let x := namedProgram.index namedText
    let r := namedProgram.resolve x
    namedProgram.DistinctIdents ∧
    (r.nodeBinding[7]? = some 0 ∧ r.isReference 7 = true) ∧
    (r.isReference 12 = true ∧
      ∃ b, r.nodeBinding[12]? = some b ∧ boundIn? (namedProgram.declared x).scopes 2 "b" = some b) ∧
    (r.isDeclaration 18 = true ∧
      ∃ b, r.nodeBinding[18]? = some b ∧ boundIn? r.scopes 3 "c" = some b) := by
  intro x r
  have hdistinct := namedProgram_distinctIdents
  have hvar : x.identNode? ⟨⟨5, 6⟩, "a"⟩ = some 3 := hdistinct.identNode?_entry (by decide) rfl
  have ha : x.identNode? ⟨⟨18, 19⟩, "a"⟩ = some 7 := hdistinct.identNode?_entry (by decide) rfl
  have hb : x.identNode? ⟨⟨38, 39⟩, "b"⟩ = some 12 := hdistinct.identNode?_entry (by decide) rfl
  have hparam : x.identNode? ⟨⟨40, 41⟩, "b"⟩ = some 13 :=
    hdistinct.identNode?_entry (by decide) rfl
  have hc : x.identNode? ⟨⟨59, 60⟩, "c"⟩ = some 18 := hdistinct.identNode?_entry (by decide) rfl
  have hglobal : boundIn? (namedProgram.declared x).scopes 0 "a" = some 0 ∧
      boundIn? (namedProgram.declared x).scopes 0 "b" = none ∧
      boundIn? (namedProgram.declared x).scopes 0 "c" = none := by
    rw [Program.declared, namedProgram_events]
    simp [Resolver.run, Resolver.step, Resolver.start, Resolver.enter, Resolver.create,
      Resolver.moveTo, Resolver.declare, hvar, hparam, Resolver.bind, Resolver.leave,
      Span.isNowhere, BindingKind.isHoisted, ScopeRecord.binding?, hoistTarget, Resolver.rewind,
      ScopeKind.isHoistTarget, boundIn?]
  have hlookup : ∀ name, r.lookup? 0 name =
      (boundIn? (namedProgram.declared x).scopes 0 name).bind r.binding? := by
    intro name
    rw [Resolution.lookup?, namedProgram.lookupFrom?_root]
  have houter : ∀ k ∈ [1, 4, 8],
      (namedProgram.declaring x (namedProgram.events.take k)).current = 0 := by
    simp [Program.declaring, namedProgram_events, Resolver.run, Resolver.step, Resolver.start,
      Resolver.enter, Resolver.create, Resolver.moveTo, Resolver.declare, hvar, hparam,
      Resolver.bind, Resolver.leave, Span.isNowhere, BindingKind.isHoisted, ScopeRecord.binding?,
      hoistTarget, ScopeKind.isHoistTarget]
  have hown : ∀ k span, (namedProgram.declaring x
      (namedProgram.events.take k ++ [.enter .function span])).current =
        1 + enters (namedProgram.events.take k) := by
    intro k span
    rw [Program.declaring_enter, ← Program.size_declaring]
    rfl
  refine ⟨hdistinct, ?_, ?_, ?_⟩
  · obtain ⟨_, hfound, _⟩ := namedProgram.resolve_function_name namedText hdistinct
      (namedProgram.events.take 1) (namedProgram.events.drop 4) ⟨⟨9, 25⟩, false, false⟩
      ⟨⟨18, 19⟩, "a"⟩ .nil ⟨22, 25⟩ .nil 7 (by decide) ha
    rw [houter 1 (by decide)] at hfound
    obtain ⟨β, hβ, _⟩ := (namedProgram.resolve_graph x).exists_binding_of_lookupFrom?
      ((namedProgram.lookupFrom?_root x "a").trans hglobal.1)
    have hid : β.id = 0 := (namedProgram.resolve_graph x).binding_id hβ
    obtain ⟨hnode, hreference, _⟩ := hfound β (by rw [hlookup, hglobal.1]; exact hβ)
    exact ⟨hid ▸ hnode, hreference⟩
  · obtain ⟨_, _, hfree, _⟩ := namedProgram.resolve_function_name namedText hdistinct
      (namedProgram.events.take 4) (namedProgram.events.drop 8) ⟨⟨29, 46⟩, false, false⟩
      ⟨⟨38, 39⟩, "b"⟩ (.ofList [.target ⟨⟨40, 41⟩, "b"⟩]) ⟨43, 46⟩ .nil 12 (by decide) hb
    rw [houter 4 (by decide), hown] at hfree
    obtain ⟨b, β, hnode, _, _, hinside, _⟩ := hfree (by rw [hlookup, hglobal.2.1]; rfl)
    have hsite : ∀ there : Resolver,
        ⟨there.current, "b", .parameter, 13⟩ ∈ there.sites x .declare
          ((Ast.ofList [.target ⟨⟨40, 41⟩, "b"⟩]).events (some .parameter) ++
            (.nil : Ast (.list .stmt)).events none) := by
      intro there
      change _ ∈ there.sites x .declare [.declare .parameter ⟨⟨40, 41⟩, "b"⟩]
      simp [Resolver.sites, Resolver.site?, hparam, Resolver.target, BindingKind.isHoisted]
    have hcurrent : (namedProgram.declaring x (namedProgram.events.take 4 ++
        [.enter .function ⟨29, 46⟩, .nameSelf ⟨⟨38, 39⟩, "b"⟩])).current =
          1 + enters (namedProgram.events.take 4) := by
      rw [Program.declaring_enter_self, ← Program.size_declaring]
      rfl
    obtain ⟨hbound, hreference, _⟩ := hinside ⟨_, hsite _, hcurrent, rfl⟩
    exact ⟨hreference, b, hnode, hbound⟩
  · obtain ⟨_, _, hfree, _⟩ := namedProgram.resolve_function_name namedText hdistinct
      (namedProgram.events.take 8) (namedProgram.events.drop 11) ⟨⟨50, 66⟩, false, false⟩
      ⟨⟨59, 60⟩, "c"⟩ .nil ⟨63, 66⟩ .nil 18 (by decide) hc
    rw [houter 8 (by decide), hown] at hfree
    obtain ⟨b, β, hnode, hbound, _, _, houtside⟩ := hfree (by rw [hlookup, hglobal.2.2]; rfl)
    obtain ⟨_, hdeclaration, _⟩ := houtside (by rintro ⟨s, hs, _⟩; cases hs)
    exact ⟨hdeclaration, b, hnode, hbound⟩

end ScriptLens
