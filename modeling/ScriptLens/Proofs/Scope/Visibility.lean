import ScriptLens.Proofs.Reading.Placement
import ScriptLens.Proofs.Scope.Checked
import ScriptLens.Proofs.Scope.Descent
import ScriptLens.Proofs.Scope.Hoisting
import ScriptLens.Proofs.Scope.Passes
import ScriptLens.Proofs.Scope.Traces

/-! # What is visible at an offset

A name that is used somewhere can also be looked up from the scope at that offset. Both ways
find the same, since the scopes that hold the offset are those that are open at the use, or
else late ones. A late scope of a field has no names. That of a `switch` statement may have
some, and it is found for the discriminant although the discriminant stands outside of it.
-/
namespace ScriptLens

open Event

/-! ## Identifiers of a layout -/

namespace Grid.Laid
variable {g : Grid} {region : Span} {ts : List Tree}

theorem entry (h : g.Laid region ts) {e : TreeHead × Span} (he : e ∈ ts.flatMap Tree.entries) :
    ∃ around t, g.Laid around [t] ∧ t.head = e.1 ∧ t.placed? = some e.2 := by
  induction h with
  | nil => cases he
  | @cons region t rest first below _ _ ihbelow ihothers =>
    rw [List.flatMap_cons, t.entries_eq, List.append_assoc, List.mem_append, List.mem_append] at he
    rcases he with he | he | he
    · obtain ⟨span, hspan, rfl⟩ := Option.map_eq_some_iff.mp (Option.mem_toList.mp he)
      exact ⟨region, t, laid_singleton.mpr ⟨first, below⟩, rfl, hspan⟩
    · exact ihbelow he
    · exact ihothers he

theorem ident_entry (h : g.Laid region ts) (hs : g.scopes = true) {e : TreeHead × Span}
    (he : e ∈ ts.flatMap Tree.identEntries) :
    e.2 ∈ g.marks ts ∧ e.2.start < e.2.stop ∧ e.1.name ≠ some "" := by
  obtain ⟨t, ht, he⟩ := List.mem_flatMap.mp he
  obtain ⟨hmem, hkind⟩ := List.mem_filter.mp he
  have hentry := List.mem_flatMap.mpr ⟨t, ht, hmem⟩
  obtain ⟨around, u, hu, hhead, hspan⟩ := h.entry hentry
  have hadmits := (laid_singleton.mp hu).1
  have hident : u.head.kind = .identifier := by simpa [hhead] using hkind
  refine ⟨?_, (hadmits.suits e.2 hspan).wide hs, ?_⟩
  · have hcounts : g.counts e.1.kind = true := by simp [counts, ← hhead, hident]
    exact List.mem_map.mpr ⟨e, List.mem_filter.mpr ⟨hentry, hcounts⟩, rfl⟩
  · rw [← hhead]
    exact ((hadmits.spelled hident).2 e.2 hspan).nonempty hs

theorem nodup_idents (h : g.Laid region ts) (hs : g.scopes = true) :
    ((ts.flatMap Tree.identEntries).map Prod.snd).Nodup := by
  induction h with
  | nil => exact List.nodup_nil
  | @cons region t rest first below others apart ihbelow ihothers =>
    have hlaid : g.Laid region [t] := laid_singleton.mpr ⟨first, below⟩
    have hown : t.identEntries = ((t.placed?.map (t.head, ·)).toList.filter
        (·.1.kind == .identifier)) ++ t.children.flatMap Tree.identEntries := by
      rw [Tree.identEntries, t.entries_eq, List.filter_append, List.filter_flatMap]
      rfl
    rw [List.flatMap_cons, List.map_append, List.nodup_append]
    refine ⟨?_, ihothers, ?_⟩
    · rw [hown]
      by_cases hkind : t.head.kind = .identifier
      · rw [(first.spelled hkind).1, List.flatMap_nil, List.append_nil]
        cases t.placed? with
        | none => exact List.nodup_nil
        | some span => simp [hkind]
      · have hnone : (t.placed?.map (t.head, ·)).toList.filter (·.1.kind == .identifier) = [] := by
          cases t.placed? with
          | none => rfl
          | some span => simp [hkind]
        rw [hnone]
        exact ihbelow
    · intro a ha b hb heq
      obtain ⟨e, he, rfl⟩ := List.mem_map.mp ha
      obtain ⟨f, hf, rfl⟩ := List.mem_map.mp hb
      obtain ⟨hmark, hwide, _⟩ := hlaid.ident_entry hs (List.mem_flatMap.mpr ⟨t, by simp, he⟩)
      obtain ⟨hmark', _, _⟩ := others.ident_entry hs hf
      have hapart := apart e.2 hmark f.2 hmark'
      rw [← heq] at hapart
      unfold Span.Apart at hapart
      omega

end Grid.Laid

theorem Program.distinctIdents_of_laid {p : Program} {g : Grid} (hs : g.scopes = true)
    (h : g.Laid p.span p.body.trees) : p.DistinctIdents := by
  have hentries : p.body.trees.flatMap Tree.identEntries =
      (p.idents.filter Ident.isPlaced).map Ident.entry := p.body.shows_trees
  constructor
  · intro id hid hplaced hempty
    have hmem : id.entry ∈ p.body.trees.flatMap Tree.identEntries := by
      rw [hentries]
      exact List.mem_map_of_mem (List.mem_filter.mpr ⟨hid, hplaced⟩)
    exact (h.ident_entry hs hmem).2.2 (congrArg some hempty)
  · have hnodup := h.nodup_idents hs
    rw [hentries, List.map_map] at hnodup
    exact hnodup

/-! ## The two passes -/

namespace Program
variable {p : Program} {x : Index} {before rest : List Event} {id : Ident} {n : Nat}

theorem scopes_unnamed (x : Index) {kind : ScopeKind} {span : Span} {after : List Event}
    (hevents : p.events = before ++ .enter kind span :: after)
    (hhead : ∀ e ∈ after.head?, e.isNameSelf = false) :
    (p.resolved x).scopes[enters before + 1]? = (p.declared x).scopes[enters before + 1]? := by
  have hreplays := p.declared_replays x
  have hchain := p.shape_events.isChain
  rw [hevents] at hreplays hchain
  have hthere : (p.resolving x before).Replays (enters (.enter kind span :: after)) :=
    hreplays.run x
  have hzero : (p.declared x).replay = 0 := rfl
  have hreplay : (p.resolving x before).replay = enters before := by
    rw [resolving, Resolver.replay_run hreplays, hzero, Nat.zero_add]
  obtain ⟨hscopes, hentered, _⟩ := Resolver.enter_resolve hthere
  have hafter : List.IsChain Follows (.leave :: after) := by
    rw [← List.cons_append] at hchain
    refine (List.isChain_cons.mp hchain.right_of_append).2.cons ?_
    intro e he hself
    rw [hhead e he] at hself
    cases hself
  have hlater := Resolver.scopes_run (hthere.step x) hafter x (i := enters before + 1)
    (by rw [← hreplay]; exact hentered.ge) (by simp [isEnter])
  have hresolved : p.resolved x =
      ((p.resolving x before).step x .resolve (.enter kind span)).run x .resolve after := by
    rw [resolved, hevents, resolving, Resolver.run_append]
    rfl
  rw [hresolved, hlater]
  change ((p.resolving x before).enter .resolve kind span).scopes[_]? = _
  rw [hscopes, resolving, Resolver.scopes_run_ahead hreplays x (by omega)]

theorem scopes_declared (x : Index) (hevents : p.events = before ++ .refer id :: rest) :
    (p.declared x).scopes = ((p.declaring x before).run x .declare rest).scopes := by
  change (p.declaring x p.events).scopes = _
  rw [declaring, hevents, Resolver.run_append]
  rfl

theorem frame?_resolve (x : Index) (hevents : p.events = before ++ .refer id :: rest) (c : Nat) :
    frame? (p.resolve x).scopes c =
      frame? ((p.declaring x before).run x .declare rest).scopes c := by
  rw [← scopes_declared x hevents, p.scopes_resolve]
  exact p.frame?_resolved x c

section Use

variable {switch : Span → Prop} (hplaced : Placed switch p.events)
  (hevents : p.events = before ++ .refer id :: rest) (hid : id.isPlaced = true) (x : Index)
include hplaced hevents hid

theorem belated {c : Nat} {f : Frame} (hc : (p.declaring x before).scopes.size ≤ c)
    (hf : frame? (p.resolve x).scopes c = some f) (hholds : f.span.contains id.span.start = true) :
    Resolver.Belated switch (p.declaring x before).stack rest (p.declaring x before) x c f := by
  rw [frame?_resolve x hevents] at hf
  exact (p.declaring_rooted x before).belated (hplaced.split hevents hid).2.2 (fun _ hq => hq) hc
    hf hholds

/-- What holds the use is open at it, or else comes late. -/
theorem surrounded :
    (p.resolve x).Surrounded id.span.start (p.declaring x before).stack
      (p.declaring x before).current (p.declaring x before).scopes.size := by
  have hrooted := p.declaring_rooted x before
  have hleads := (hplaced.split hevents hid).2.1
  have hstart : (Resolver.start p.span).Surrounds id.span.start := by
    intro c f hc hf
    exact absurd hc (Nat.not_lt.mpr (Nat.le_of_lt_succ (lt_of_frame? hf)))
  have hsurrounds : (p.declaring x before).Surrounds id.span.start :=
    hstart.run (Resolver.start_rooted p.span) hleads x
  refine ⟨?_, fun q hq => hrooted.mem_stack_lt hq, ?_, ?_⟩
  · refine hrooted.reaches.mono hrooted.graph.toScopeTree
      (p.resolve_graph x).toScopeTree fun i f hf => ?_
    exact (frame?_resolve x hevents i).trans (Resolver.frame?_run hf x .declare rest)
  · intro c hc hlt
    have hsame := (frame?_resolve x hevents c).trans
      (Resolver.frame?_run_of_lt hlt x .declare rest)
    obtain ⟨s, hs⟩ : ∃ s, (p.declaring x before).scopes[c]? = some s :=
      ⟨_, Array.getElem?_eq_getElem hlt⟩
    have hf := frame?_eq_some.mpr ⟨s, hs, rfl⟩
    rw [← hsurrounds c s.frame hc hf, Resolution.Holds, hsame, hf]
    simp
  · rintro c hc ⟨f, hf, hholds⟩
    obtain ⟨q, hq, hp⟩ := (belated hplaced hevents hid x hc hf hholds).parent
    refine ⟨q, hq, ?_⟩
    rw [parentOf?_eq_frame?, hf]
    exact hp

end Use

end Program

/-! ## Looking a use up -/

/-- A scope from which a name is found as it has been for a node. -/
def Resolution.Finds (r : Resolution) (scope : Nat) (name : String) (n : Nat) : Prop :=
  r.lookup? scope name = r.bindingOf? n ∧ (r.lookup? scope name = none ↔ n ∈ r.unresolved)

/-- A scope without the name finds what the scope around it finds. -/
theorem Resolution.Finds.inside {r : Resolution} (ht : ScopeTree r.scopes) {q c n : Nat}
    {s : ScopeRecord} {name : String} (h : r.Finds q name n) (hs : r.scopes[c]? = some s)
    (hp : parentOf? r.scopes c = some q) (hname : s.binding? name = none) :
    r.Finds c name n := by
  have hlookup : lookupFrom? r.scopes c name = lookupFrom? r.scopes q name := by
    have hparent : s.parent = some q := by simpa [parentOf?, hs] using hp
    rw [lookupFrom?, hs]
    simp only [hname, hparent, if_pos (ht.parentOf?_lt hp)]
  have heq : r.lookup? c name = r.lookup? q name := by rw [lookup?, hlookup, lookup?]
  unfold Finds at *
  rw [heq]
  exact h

namespace Program
variable {p : Program} {source : String} {before rest : List Event} {id : Ident} {n : Nat}

theorem DistinctIdents.finds_refer (h : p.DistinctIdents)
    (hevents : p.events = before ++ .refer id :: rest)
    (hn : (p.index source).identNode? id = some n) :
    (p.resolve (p.index source)).Finds (p.resolving (p.index source) before).current id.name n := by
  rw [p.resolve_eq_finish]
  have hsorted := h.resolved_sorted source
  have hgraph := (p.resolved_sound (p.index source)).graph
  obtain ⟨hfresh, hrest⟩ := h.touched_fresh hevents hn
  have hdeclares := Resolver.run_declares (p.declared_sound (p.index source))
    (p.declared_declares _) (p.index source) .resolve before
  have hrefer := Resolver.run_refer (p.resolving_sound (p.index source) before) hn hdeclares hfresh
    hrest fun i hi => p.scopes_refer_final (p.index source) hevents (i := i) hi
  rw [← resolved_eq_run _ hevents] at hrefer
  obtain ⟨hsome, hnone⟩ := hrefer
  unfold Resolution.Finds
  cases hlookup : (p.resolved (p.index source)).finish.lookup?
      (p.resolving (p.index source) before).current id.name with
  | none =>
    have hfree := hnone hlookup
    have hunbound : n ∉ (p.resolved (p.index source)).finish.nodeBinding := fun hmem =>
      hsorted.apart n hmem hfree
    refine ⟨?_, fun _ => hfree, fun _ => rfl⟩
    rw [Resolution.bindingOf?, Std.HashMap.getElem?_eq_none hunbound]
    rfl
  | some b =>
    have hbound : (p.resolved (p.index source)).finish.nodeBinding[n]? = some b.id :=
      (hsome b hlookup).1
    have hknown : n ∈ (p.resolved (p.index source)).nodeBinding :=
      Std.HashMap.mem_iff_isSome_getElem?.mpr (Option.isSome_of_eq_some hbound)
    obtain ⟨k, _, hk⟩ := Option.bind_eq_some_iff.mp hlookup
    have hid : b.id = k := hgraph.binding_id hk
    refine ⟨?_, fun hfalse => ?_, fun hfree => ?_⟩
    · rw [Resolution.bindingOf?, hbound, Option.bind_some, hid, hk]
    · cases hfalse
    · exact absurd hfree (hsorted.apart n hknown)

/-- The scope of a `switch` statement that is opened after some events and has a name. -/
structure Hides (x : Index) (before : List Event) (s : ScopeRecord) (name : String) : Prop where
  kind : s.kind = .block
  statement : (x.find? .switchStatement s.span).isSome = true
  later : enters before < s.id
  binds : (s.binding? name).isSome = true

theorem names_of_unnamed {x : Index} (hevents : p.events = before ++ .refer id :: rest) {c : Nat}
    {s : ScopeRecord} (hs : (p.resolve x).scopes[c]? = some s)
    (hnames : names? ((p.declaring x before).run x .declare rest).scopes c = some #[])
    (hunnamed : Resolver.Unnamed rest (p.declaring x before).scopes.size c) : s.names = #[] := by
  obtain ⟨mid, kind, span, after, hrest, hc, hhead⟩ := hunnamed
  have hsplit : p.events = (before ++ .refer id :: mid) ++ .enter kind span :: after := by
    rw [hevents, hrest, List.append_assoc]
    rfl
  have hnumber : c = enters (before ++ .refer id :: mid) + 1 := by
    rw [hc, size_declaring, enters, enters, enters, List.countP_append, List.countP_cons]
    simp [isEnter]
    omega
  have hsame := scopes_unnamed x hsplit hhead
  rw [← hnumber, scopes_declared x hevents] at hsame
  have hfinal : ((p.declaring x before).run x .declare rest).scopes[c]? = some s :=
    hsame.symm.trans (p.scopes_resolve x ▸ hs)
  rw [names?, hfinal] at hnames
  exact Option.some.inj hnames

theorem resolve_ascending (p : Program) (x : Index) : Ascending (p.resolve x).scopes := by
  have hstart : Ascending (Resolver.start p.span).scopes := by
    intro i s hs
    have hscope : s = ⟨0, none, .global, p.span, #[], #[]⟩ := by
      simp [Resolver.start, List.getElem?_singleton] at hs
      exact hs.2.symm
    rw [hscope]
    exact .nil
  have hdeclared : Ascending (p.declared x).scopes :=
    Resolver.ascending_run (Resolver.start_sound p.span) hstart x .declare p.events
  rw [p.scopes_resolve]
  exact Resolver.ascending_run (p.declared_sound x) hdeclared x .resolve p.events

theorem DistinctIdents.scopeAt?_finds (h : p.DistinctIdents)
    (hplaced : Placed (fun s => ((p.index source).find? .switchStatement s).isSome = true) p.events)
    (hevents : p.events = before ++ .refer id :: rest)
    (hn : (p.index source).identNode? id = some n) :
    let r := p.resolve (p.index source)
    ∃ s, r.scopeAt? id.span.start = some s ∧ (r.Finds s.id id.name n ∨
      Hides (p.index source) before s id.name ∧ ∃ q, s.parent = some q ∧ r.Finds q id.name n) := by
  intro r
  have ht : ScopeTree r.scopes := (p.resolve_graph (p.index source)).toScopeTree
  have hid := (entry_of_identNode? hn).1
  have hsurrounded := surrounded hplaced hevents hid (p.index source)
  have hcurrent := (List.cons.inj (stack_resolving (p.index source) hevents)).1
  have hfinds := h.finds_refer hevents hn
  rw [hcurrent] at hfinds
  obtain ⟨s, hs⟩ : ∃ s, r.scopes[r.descend id.span.start 0]? = some s :=
    ⟨_, Array.getElem?_eq_getElem (ScopeTree.descend_lt ht.size_pos _)⟩
  refine ⟨s, hs, ?_⟩
  rw [hsurrounded.descend_eq ht (p.resolve_ascending _)] at hs
  rw [ht.scope_id hs]
  rcases hsurrounded.descend_last ht with hlast | ⟨c, hlate, hc, ⟨f, hf, hholds⟩, hp⟩
  · rw [hlast]
    exact .inl hfinds
  · rw [hc] at hs ⊢
    have hbelated := belated hplaced hevents hid (p.index source) hlate hf hholds
    obtain ⟨t, hst, rfl⟩ := frame?_eq_some.mp hf
    cases hs.symm.trans hst
    have hinside := hfinds.inside ht hs hp
    rcases hbelated.kind with ⟨hkind, hswitch⟩ | ⟨hnames, hunnamed⟩
    · cases hname : s.binding? id.name with
      | none => exact .inl (hinside hname)
      | some b =>
        have hlater : enters before < s.id := by
          rw [size_declaring] at hlate
          rw [ht.scope_id hs]
          omega
        obtain ⟨u, hu, hparent⟩ := parentOf?_eq_some.mp hp
        cases hst.symm.trans hu
        exact .inr ⟨⟨hkind, hswitch, hlater, by rw [hname]; rfl⟩, _, hparent, hfinds⟩
    · have hempty := names_of_unnamed hevents hs hnames hunnamed
      exact .inl (hinside (by simp [ScopeRecord.binding?, hempty]))

theorem placed_of_laid {g : Grid} (hs : g.scopes = true) (h : g.Laid p.span p.body.trees)
    (source : String) :
    Placed (fun s => ((p.index source).find? .switchStatement s).isSome = true) p.events := by
  refine (p.body.traces hs _ none p.span h fun e he hkind => ?_).1
  rw [Index.ofTree_find?, List.findIdx?_isSome, List.any_eq_true]
  refine ⟨e, ?_, by simp [hkind]⟩
  rw [Program.toTree, Tree.entries_eq]
  exact List.mem_append_right _ he

end Program

/-- A use that is looked up from the scope at its start finds the binding that it has, but for
the discriminant of a `switch` statement whose scope has the name: there the scope around it
does. -/
theorem Program.ofCst_scopeAt? (source : String) (t : Cst)
    (horders : ∀ n ∈ t.nodes, n.head.Orders (n.children.map Rose.head))
    (hcompletes : ∀ n ∈ t.nodes, n.head.Completes source.toUTF8 (n.children.map Rose.head))
    (hstop : t.head.stop ≤ source.toUTF8.size) (before rest : List Event) (id : Ident) (n : Nat)
    (hevents : (Program.ofCst source.toUTF8 t).events = before ++ .refer id :: rest)
    (hn : ((Program.ofCst source.toUTF8 t).index source).identNode? id = some n) :
    let p := Program.ofCst source.toUTF8 t
    let x := p.index source
    let r := p.resolve x
    ∃ s, r.scopeAt? id.span.start = some s ∧ (r.Finds s.id id.name n ∨
      Program.Hides x before s id.name ∧ ∃ q, s.parent = some q ∧ r.Finds q id.name n) := by
  have hcovers : Grid.Covers ⟨source.toUTF8, true⟩ t := ⟨horders, fun _ => hcompletes⟩
  have hlaid := hcovers.laid_program hstop
  exact (distinctIdents_of_laid rfl hlaid).scopeAt?_finds (placed_of_laid rfl hlaid source) hevents
    hn

def switchedName : Cst :=
  .named "program" none 0 29 [.named "switch_statement" none 0 29 [
    .token "switch" none 0 6,
    .named "parenthesized_expression" (some "value") 7 10 [
      .token "(" none 7 8, .named "identifier" none 8 9 [], .token ")" none 9 10],
    .named "switch_body" (some "body") 11 29 [
      .token "\x7b" none 11 12,
      .named "switch_case" none 13 27 [
        .token "case" none 13 17,
        .named "number" (some "value") 18 19 [],
        .token ":" none 19 20,
        .named "lexical_declaration" (some "body") 21 27 [
          .token "let" (some "kind") 21 24,
          .named "variable_declarator" none 25 26 [.named "identifier" (some "name") 25 26 []],
          .token ";" none 26 27]],
      .token "\x7d" none 28 29]]]

def switchedText : String := "switch (x) \x7b case 0: let x; \x7d"

def switchedProgram : Program := Program.ofCst switchedText.toUTF8 switchedName

theorem switchedProgram_events :
    switchedProgram.events = [.refer ⟨⟨9, 10⟩, "x"⟩, .enter .block ⟨1, 30⟩,
      .declare .letDecl ⟨⟨26, 27⟩, "x"⟩, .leave] := by
  decide +kernel

theorem switchedProgram_use :
    (switchedProgram.index switchedText).identNode? ⟨⟨9, 10⟩, "x"⟩ = some 2 := by
  have hfind : (switchedProgram.index switchedText).find? .identifier ⟨9, 10⟩ = some 2 := by
    rw [Index.ofTree_find?]
    decide +kernel
  exact hfind

theorem switchedProgram_declaration :
    (switchedProgram.index switchedText).identNode? ⟨⟨26, 27⟩, "x"⟩ = some 7 := by
  have hfind : (switchedProgram.index switchedText).find? .identifier ⟨26, 27⟩ = some 7 := by
    rw [Index.ofTree_find?]
    decide +kernel
  exact hfind

/-- The discriminant has no binding, but it stands in the span of a scope with its name. -/
theorem switchedProgram_resolve :
    switchedProgram.resolve (switchedProgram.index switchedText) =
      { scopes := #[⟨0, none, .global, ⟨1, 30⟩, #[], #[1]⟩,
          ⟨1, some 0, .block, ⟨1, 30⟩, #[("x", 0)], #[]⟩]
        bindings := #[⟨0, "x", .letDecl, 7, 1, #[]⟩]
        root := 0
        nodeBinding := (∅ : Std.HashMap Nat Nat).insert 7 0
        unresolved := #[2]
        declarations := (∅ : Std.HashSet Nat).insert 7 } := by
  have hspan : switchedProgram.span = ⟨1, 30⟩ := by decide +kernel
  have huse := switchedProgram_use
  have hdeclaration := switchedProgram_declaration
  generalize switchedProgram.index switchedText = x at huse hdeclaration ⊢
  have hdeclared : (Resolver.start switchedProgram.span).run x .declare switchedProgram.events =
      { scopes := #[⟨0, none, .global, ⟨1, 30⟩, #[], #[1]⟩,
          ⟨1, some 0, .block, ⟨1, 30⟩, #[("x", 0)], #[]⟩]
        bindings := #[⟨0, "x", .letDecl, 7, 1, #[]⟩]
        nodeBinding := (∅ : Std.HashMap Nat Nat).insert 7 0
        unresolved := #[]
        declarations := (∅ : Std.HashSet Nat).insert 7
        order := #[1]
        replay := 0
        current := 0
        outer := [] } := by
    rw [switchedProgram_events, hspan]
    simp [Resolver.run, Resolver.step, Resolver.start, Resolver.enter, Resolver.create,
      Resolver.moveTo, Resolver.declare, hdeclaration, Resolver.bind, Resolver.leave,
      Span.isNowhere, BindingKind.isHoisted, ScopeRecord.binding?]
  rw [Program.resolve_eq_run, hdeclared, switchedProgram_events]
  simp [Resolver.run, Resolver.step, Resolver.rewind, Resolver.finish, Resolver.refer, huse,
    Resolver.enter, Resolver.moveTo, Resolver.leave, lookupFrom?, ScopeRecord.binding?]

theorem switchedProgram_scopeAt? :
    let x := switchedProgram.index switchedText
    let r := switchedProgram.resolve x
    (∀ n ∈ switchedName.nodes, n.head.Orders (n.children.map Rose.head)) ∧
    (∀ n ∈ switchedName.nodes,
      n.head.Completes switchedText.toUTF8 (n.children.map Rose.head)) ∧
    switchedName.head.stop ≤ switchedText.toUTF8.size ∧
    switchedProgram.events = [] ++ .refer ⟨⟨9, 10⟩, "x"⟩ :: switchedProgram.events.drop 1 ∧
    x.identNode? ⟨⟨9, 10⟩, "x"⟩ = some 2 ∧
    ∃ s, r.scopeAt? 9 = some s ∧ (r.Finds s.id "x" 2 ∨
      Program.Hides x [] s "x" ∧ ∃ q, s.parent = some q ∧ r.Finds q "x" 2) := by
  intro x r
  have horders : ∀ n ∈ switchedName.nodes, n.head.Orders (n.children.map Rose.head) := by
    decide +kernel
  have hcompletes : ∀ n ∈ switchedName.nodes,
      n.head.Completes switchedText.toUTF8 (n.children.map Rose.head) := by
    decide +kernel
  have hstop : switchedName.head.stop ≤ switchedText.toUTF8.size := by decide +kernel
  have hevents : switchedProgram.events =
      [] ++ .refer ⟨⟨9, 10⟩, "x"⟩ :: switchedProgram.events.drop 1 := by
    rw [switchedProgram_events]
    rfl
  exact ⟨horders, hcompletes, hstop, hevents, switchedProgram_use,
    Program.ofCst_scopeAt? switchedText switchedName horders hcompletes hstop [] _ _ 2 hevents
      switchedProgram_use⟩

/-- From the scope at its start, the discriminant finds a binding that it does not have. -/
theorem switchedProgram_not_finds :
    let x := switchedProgram.index switchedText
    let r := switchedProgram.resolve x
    .refer ⟨⟨9, 10⟩, "x"⟩ ∈ switchedProgram.events ∧ x.identNode? ⟨⟨9, 10⟩, "x"⟩ = some 2 ∧
    ¬ ∃ s, r.scopeAt? 9 = some s ∧ r.Finds s.id "x" 2 := by
  intro x r
  refine ⟨by rw [switchedProgram_events]; decide, switchedProgram_use, ?_⟩
  rintro ⟨s, hs, hfinds⟩
  have hr : r = _ := switchedProgram_resolve
  have hinner : r.inner? 9 0 = some 1 := by rw [hr]; rfl
  have hnone : r.inner? 9 1 = none := by rw [hr]; rfl
  have hscope : r.scopes[1]? = some s := by
    have hroot : r.root = 0 := rfl
    rw [Resolution.scopeAt?, hroot, Resolution.descend_of_inner? hinner,
      Resolution.descend_of_none hnone] at hs
    exact hs
  have hfree : 2 ∈ r.unresolved := by simp [hr]
  have hlookup := hfinds.2.mpr hfree
  rw [hr] at hscope hlookup
  cases hscope
  simp [Resolution.lookup?, lookupFrom?, ScopeRecord.binding?, Resolution.binding?] at hlookup

end ScriptLens
