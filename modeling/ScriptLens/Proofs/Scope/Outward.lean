import ScriptLens.Proofs.Scope.Homes
import ScriptLens.Proofs.Scope.Hoisting

/-! # The way outwards

A node gets its binding from a scope that is open at its event: a declaration goes to such a
scope, and a use finds what one of them holds. In the second pass a binding only gets more uses,
so it stays where it is; and no scope is opened again after it has been left.
-/
namespace ScriptLens

open Event

theorem Reaches.exists_of_lookupFrom? {scopes : Array ScopeRecord} {way : List Nat} {c b : Nat}
    {name : String} (h : Reaches scopes way c) (ht : ScopeTree scopes)
    (hb : lookupFrom? scopes c name = some b) : ∃ i ∈ way, boundIn? scopes i name = some b := by
  induction h with
  | root =>
    obtain ⟨i, hi, hbound⟩ := exists_boundIn?_of_lookupFrom? hb
    exact ⟨i, List.mem_singleton.mpr (Nat.le_zero.mp hi), hbound⟩
  | @child way q c _ _ known listed ih =>
    have hparent := (ht.mem_children_iff known).mp listed
    obtain ⟨s, hs, hp⟩ := parentOf?_eq_some.mp hparent
    rw [lookupFrom?, hs] at hb
    cases hname : s.binding? name with
    | some k =>
      simp only [hname] at hb
      exact ⟨c, List.mem_cons_self, boundIn?_eq_some.mpr ⟨s, hs, hname.trans hb⟩⟩
    | none =>
      simp only [hname, hp, if_pos (ht.parentOf?_lt hparent)] at hb
      obtain ⟨i, hi, hbound⟩ := ih hb
      exact ⟨i, List.mem_cons_of_mem c hi, hbound⟩

theorem Reaches.tail_of_parent {scopes : Array ScopeRecord} {way : List Nat} {c q : Nat}
    (h : Reaches scopes (c :: way) c) (ht : ScopeTree scopes)
    (hq : parentOf? scopes c = some q) : Reaches scopes way q := by
  cases h with
  | root => cases ht.parentOf?_zero.symm.trans hq
  | child parent known listed =>
    cases hq.symm.trans ((ht.mem_children_iff known).mp listed)
    exact parent

/-- Bindings stay as they are but for further uses. -/
def OnlyUsed (old new : Array BindingRecord) : Prop :=
  ∀ (b : Nat) (β : BindingRecord), old[b]? = some β →
    ∃ uses, new[b]? = some { β with references := β.references ++ uses }

namespace OnlyUsed
variable {old mid new : Array BindingRecord}

theorem refl (bindings : Array BindingRecord) : OnlyUsed bindings bindings :=
  fun _ β hβ => ⟨#[], by rw [hβ, Array.append_empty]⟩

theorem trans (h₁ : OnlyUsed old mid) (h₂ : OnlyUsed mid new) : OnlyUsed old new := by
  intro b β hβ
  obtain ⟨uses, hmid⟩ := h₁ b β hβ
  obtain ⟨more, hnew⟩ := h₂ b _ hmid
  exact ⟨uses ++ more, by rw [hnew, Array.append_assoc]⟩

end OnlyUsed

namespace Resolver
variable {r after : Resolver} {x : Index} {e : Event} {s : DeclSite} {n b c : Nat}
  {β : BindingRecord}

theorem Binds.is_new (h : Binds r after s b β) (hr : r.Sound)
    (hnew : boundIn? r.scopes s.scope s.name = none) :
    r.bindings[b]? = none ∧ β = ⟨b, s.name, s.kind, s.node, s.scope, #[]⟩ := by
  rcases h.record with ⟨_, hnone, heq⟩ | ⟨γ, hγ, rfl⟩
  · exact ⟨hnone, heq⟩
  · obtain ⟨hscope, hname⟩ := DeclSite.isOf_iff.mp h.site
    obtain ⟨hsame, hnamed, _⟩ := redeclare_scope s.kind s.node γ
    have hbound := (hr.graph.bound_iff s.scope s.name b).mpr
      ⟨γ, hγ, hsame.symm.trans hscope.symm, hnamed.symm.trans hname.symm⟩
    cases hnew.symm.trans hbound

theorem boundIn?_of_site_resolve (hs : r.site? x .resolve e = some s) :
    boundIn? r.scopes s.scope s.name = none := by
  cases e with
  | nameSelf id =>
    simp only [site?] at hs
    split at hs
    · cases hs
    · next hself =>
      obtain ⟨n, _, rfl⟩ := Option.map_eq_some_iff.mp hs
      rw [Bool.not_eq_true, Option.isSome_eq_false_iff, Option.isNone_iff_eq_none] at hself
      exact (Option.or_eq_none_iff.mp hself).2
  | _ => cases hs

theorem onlyUsed_step (h : r.Sound) (x : Index) (e : Event) :
    OnlyUsed r.bindings (r.step x .resolve e).bindings := by
  intro b β hβ
  cases bindingStep_step h x .resolve e with
  | quiet _ hbindings =>
    rw [hbindings]
    exact OnlyUsed.refl _ b β hβ
  | declares hsite _ _ hsame =>
    obtain ⟨c, γ, hbinds⟩ := exists_binds h _
    obtain ⟨hfree, _⟩ := hbinds.is_new h (boundIn?_of_site_resolve hsite)
    have hne : b ≠ c := by
      rintro rfl
      cases hfree.symm.trans hβ
    rw [hsame]
    exact ⟨#[], by rw [hbinds.others b hne, hβ, Array.append_empty]⟩
  | @refers n c _ _ _ _ hsame =>
    rw [hsame, bindings_addReference, hβ]
    split
    · exact ⟨#[n], by rw [Option.map_some, addUse, Array.push_eq_append]⟩
    · exact ⟨#[], by rw [Array.append_empty]⟩

theorem onlyUsed_run (h : r.Sound) (x : Index) (es : List Event) :
    OnlyUsed r.bindings (r.run x .resolve es).bindings := by
  refine run_induction (P := fun _ r' => OnlyUsed r.bindings r'.bindings) (.refl _) ?_
  intro before e _ _ hbefore
  exact hbefore.trans (onlyUsed_step (h.run x .resolve before) x e)

theorem selfBinding?_eq {q : Nat} (hq : parentOf? r.scopes r.current = some q) (name : String) :
    r.selfBinding? name = (lookupFrom? r.scopes q name).or (boundIn? r.scopes r.current name) := by
  change ((parentOf? r.scopes r.current).bind fun p => lookupFrom? r.scopes p name).or _ = _
  rw [hq]
  rfl

theorem step_nameSelf {id : Ident} (hn : x.identNode? id = some n) :
    r.step x .resolve (.nameSelf id) =
      match r.selfBinding? id.name with
      | some b => r.addReference n b
      | none => r.bind r.current n id.name .functionDecl := by
  change r.nameSelf x id = _
  simp only [Resolver.nameSelf, hn]
  rfl

theorem exists_of_selfBinding? (h : r.Sound) (hway : Reaches r.scopes r.stack r.current)
    {name : String} (hb : r.selfBinding? name = some b) :
    ∃ i ∈ r.stack, boundIn? r.scopes i name = some b := by
  rcases Option.or_eq_some_iff.mp hb with haround | ⟨_, hown⟩
  · obtain ⟨q, hq, hlookup⟩ := Option.bind_eq_some_iff.mp haround
    have hparent : parentOf? r.scopes r.current = some q := hq
    have houter := hway.tail_of_parent h.graph.toScopeTree hparent
    obtain ⟨i, hi, hbound⟩ := houter.exists_of_lookupFrom? h.graph.toScopeTree hlookup
    exact ⟨i, List.mem_cons_of_mem _ hi, hbound⟩
  · exact ⟨r.current, List.mem_cons_self, hown⟩

theorem exists_open_of_addReference (h : r.Sound) {i : Nat} {name : String} (hi : i ∈ r.stack)
    (hbound : boundIn? r.scopes i name = some c)
    (hb : (r.addReference n c).nodeBinding[n]? = some b) :
    ∃ β, (r.addReference n c).bindings[b]? = some β ∧ β.scope ∈ r.stack := by
  obtain ⟨γ, hγ, rfl, _⟩ := (h.graph.bound_iff i name c).mp hbound
  have hattaches := attaches_addReference n hγ
  cases hattaches.nodeBinding_self.symm.trans hb
  exact ⟨addUse n γ, hattaches.binding, hi⟩

theorem exists_open_of_refer {id : Ident} (h : r.Sound)
    (hway : Reaches r.scopes r.stack r.current) (hn : x.identNode? id = some n)
    (hd : ∀ m ∈ r.declarations, m ∈ r.nodeBinding) (hfresh : n ∉ r.nodeBinding)
    (hb : (r.step x .resolve (.refer id)).nodeBinding[n]? = some b) :
    ∃ β, (r.step x .resolve (.refer id)).bindings[b]? = some β ∧ β.scope ∈ r.stack := by
  rw [step_refer hn hd hfresh] at hb ⊢
  cases hlookup : lookupFrom? r.scopes r.current id.name with
  | none =>
    simp only [hlookup] at hb
    exact absurd (Std.HashMap.mem_iff_isSome_getElem?.mpr (Option.isSome_of_eq_some hb)) hfresh
  | some c =>
    simp only [hlookup] at hb ⊢
    obtain ⟨i, hi, hbound⟩ := hway.exists_of_lookupFrom? h.graph.toScopeTree hlookup
    exact exists_open_of_addReference h hi hbound hb

theorem exists_open_of_nameSelf {id : Ident} (h : r.Sound)
    (hway : Reaches r.scopes r.stack r.current) (hn : x.identNode? id = some n)
    (hb : (r.step x .resolve (.nameSelf id)).nodeBinding[n]? = some b) :
    ∃ β, (r.step x .resolve (.nameSelf id)).bindings[b]? = some β ∧ β.scope ∈ r.stack := by
  rw [step_nameSelf hn] at hb ⊢
  cases hself : r.selfBinding? id.name with
  | some c =>
    simp only [hself] at hb ⊢
    obtain ⟨i, hi, hbound⟩ := exists_of_selfBinding? h hway hself
    exact exists_open_of_addReference h hi hbound hb
  | none =>
    simp only [hself] at hb ⊢
    obtain ⟨c, γ, hbinds⟩ := exists_binds h ⟨r.current, id.name, .functionDecl, n⟩
    cases hbinds.attaches.nodeBinding_self.symm.trans hb
    obtain ⟨hscope, _⟩ := DeclSite.isOf_iff.mp hbinds.site
    exact ⟨γ, hbinds.binding, hscope ▸ List.mem_cons_self⟩

/-- The node that the second pass acts on gets a binding of an open scope. -/
theorem exists_open_of_step (h : r.Sound) (hway : Reaches r.scopes r.stack r.current)
    (hd : ∀ m ∈ r.declarations, m ∈ r.nodeBinding) (hfresh : n ∉ r.nodeBinding)
    (hn : e.touched? x .resolve = some n)
    (hb : (r.step x .resolve e).nodeBinding[n]? = some b) :
    ∃ β, (r.step x .resolve e).bindings[b]? = some β ∧ β.scope ∈ r.stack := by
  obtain ⟨id, hact, hnode⟩ := touched?_iff.mp hn
  cases e with
  | refer other =>
    cases hact
    exact exists_open_of_refer h hway hnode hd hfresh hb
  | nameSelf other =>
    cases hact
    exact exists_open_of_nameSelf h hway hnode hb
  | _ => cases hact

/-! ## The first pass -/

/-- A scope that has been left is not opened again. -/
theorem Rooted.not_mem_stack_run (h : r.Rooted) (hc : c < r.scopes.size) (hleft : c ∉ r.stack)
    (x : Index) (es : List Event) : c ∉ (r.run x .declare es).stack := by
  obtain ⟨names, hnames⟩ : ∃ names, names? r.scopes c = some names :=
    ⟨_, congrArg (Option.map ScopeRecord.names) (Array.getElem?_eq_getElem hc)⟩
  refine And.right (run_induction
    (P := fun _ r' => names? r'.scopes c = some names ∧ c ∉ r'.stack) ⟨hnames, hleft⟩ ?_)
  intro before e _ _ hbefore
  exact (h.run x before).names?_step hbefore.1 hbefore.2 x e

theorem exists_of_mem_sites {pass : Pass} {es : List Event} (hs : s ∈ r.sites x pass es) :
    ∃ before e rest, es = before ++ e :: rest ∧ (r.run x pass before).site? x pass e = some s := by
  induction es generalizing r with
  | nil => cases hs
  | cons e rest ih =>
    rcases List.mem_append.mp hs with hs | hs
    · exact ⟨[], e, rest, rfl, Option.mem_toList.mp hs⟩
    · obtain ⟨before, f, others, rfl, hsite⟩ := ih hs
      exact ⟨e :: before, f, others, rfl, hsite⟩

theorem Rooted.site_mem_stack (h : r.Rooted) (hs : r.site? x .declare e = some s) :
    s.scope ∈ r.stack := by
  cases e with
  | declare kind id =>
    obtain ⟨n, _, rfl⟩ := Option.map_eq_some_iff.mp hs
    exact h.target_mem kind
  | _ => cases hs

theorem Rooted.sites_lt (h : r.Rooted) {es : List Event} (hs : s ∈ r.sites x .declare es) :
    s.scope < (r.run x .declare es).scopes.size := by
  obtain ⟨before, e, rest, rfl, hsite⟩ := exists_of_mem_sites hs
  have hlt := (h.run x before).mem_stack_lt ((h.run x before).site_mem_stack hsite)
  rw [run_append, size_run]
  omega

theorem Rooted.sites_ne (h : r.Rooted) (hc : c < r.scopes.size) (hleft : c ∉ r.stack)
    {es : List Event} (hs : s ∈ r.sites x .declare es) : s.scope ≠ c := by
  obtain ⟨before, e, rest, rfl, hsite⟩ := exists_of_mem_sites hs
  rintro rfl
  exact h.not_mem_stack_run hc hleft x before ((h.run x before).site_mem_stack hsite)

theorem Accounts.exists_boundIn?_iff {sites : List DeclSite} (h : r.Accounts sites) (hr : r.Sound)
    (i : Nat) (name : String) :
    (∃ b, boundIn? r.scopes i name = some b) ↔ ∃ s ∈ sites, s.scope = i ∧ s.name = name := by
  constructor
  · rintro ⟨b, hb⟩
    obtain ⟨β, hβ, rfl, rfl⟩ := (hr.graph.bound_iff i name b).mp hb
    obtain ⟨s, hs, _⟩ := h.chosen b β hβ
    obtain ⟨hmem, hof⟩ := List.mem_filter.mp (DeclSite.chosen?_eq_some hs).1
    exact ⟨s, hmem, DeclSite.isOf_iff.mp hof⟩
  · rintro ⟨s, hs, rfl, rfl⟩
    obtain ⟨b, β, _, hβ, hof⟩ := h.bound s hs
    obtain ⟨hscope, hname⟩ := DeclSite.isOf_iff.mp hof
    exact ⟨b, (hr.graph.bound_iff _ _ b).mpr ⟨β, hβ, hscope.symm, hname.symm⟩⟩

end Resolver

namespace Program
variable {p : Program} {source : String} {before rest : List Event} {e : Event} {n b : Nat}
  {β : BindingRecord}

theorem frame?_resolving_of_declaring (x : Index) (hevents : p.events = before ++ rest) {c : Nat}
    {f : Frame} (hf : frame? (p.declaring x before).scopes c = some f) :
    frame? (p.resolving x before).scopes c = some f :=
  Resolver.frame?_run (frame?_declared_of_declaring x hevents hf) x .resolve before

/-- In the second pass, too, the open scopes are the way from the current one to the root. -/
theorem reaches_resolving (x : Index) (hevents : p.events = before ++ rest) :
    Reaches (p.resolving x before).scopes (p.resolving x before).stack
      (p.resolving x before).current := by
  have hrooted := p.declaring_rooted x before
  have hstack := stack_resolving x hevents
  have hcurrent : (p.resolving x before).current = (p.declaring x before).current :=
    (List.cons.inj hstack).1
  rw [hstack, hcurrent]
  exact hrooted.reaches.mono hrooted.graph.toScopeTree
    (p.resolving_sound x before).graph.toScopeTree
    fun c f => frame?_resolving_of_declaring x hevents

namespace DistinctIdents

/-- What the second pass records about a node at its event stays. -/
theorem resolved_of_step (h : p.DistinctIdents) (hevents : p.events = before ++ e :: rest)
    (hn : e.touched? (p.index source) .resolve = some n) :
    let after := (p.resolving (p.index source) before).step (p.index source) .resolve e
    (p.resolved (p.index source)).nodeBinding[n]? = after.nodeBinding[n]? ∧
      OnlyUsed after.bindings (p.resolved (p.index source)).bindings := by
  intro after
  have hsound : after.Sound := (p.resolving_sound (p.index source) before).step _ .resolve e
  have hfinal : p.resolved (p.index source) = after.run (p.index source) .resolve rest :=
    resolved_eq_run (p.index source) hevents
  rw [hfinal]
  exact ⟨Resolver.run_nodeBinding_eq hsound (h.touched_fresh hevents hn).2,
    Resolver.onlyUsed_run hsound (p.index source) rest⟩

theorem scope_mem_stack_of_declare (h : p.DistinctIdents) {kind : BindingKind} {id : Ident}
    (hevents : p.events = before ++ .declare kind id :: rest)
    (hn : (p.index source).identNode? id = some n)
    (hb : (p.resolved (p.index source)).nodeBinding[n]? = some b)
    (hβ : (p.resolved (p.index source)).bindings[b]? = some β) :
    β.scope ∈ (p.declaring (p.index source) before).stack := by
  obtain ⟨c, γ, hc, hγ, hof⟩ := (h.accounts source).bound _
    (mem_sites (p.index source) hevents hn)
  cases hc.symm.trans hb
  cases hγ.symm.trans hβ
  obtain ⟨hscope, _⟩ := DeclSite.isOf_iff.mp hof
  rw [← hscope]
  exact (p.declaring_rooted (p.index source) before).target_mem kind

theorem scope_mem_stack_of_resolve (h : p.DistinctIdents)
    (hevents : p.events = before ++ e :: rest)
    (hn : e.touched? (p.index source) .resolve = some n)
    (hb : (p.resolved (p.index source)).nodeBinding[n]? = some b)
    (hβ : (p.resolved (p.index source)).bindings[b]? = some β) :
    β.scope ∈ (p.declaring (p.index source) before).stack := by
  have hdeclares := Resolver.run_declares (p.declared_sound (p.index source))
    (p.declared_declares _) (p.index source) .resolve before
  obtain ⟨hnode, hkept⟩ := h.resolved_of_step hevents hn
  obtain ⟨γ, hγ, hopen⟩ := Resolver.exists_open_of_step
    (p.resolving_sound (p.index source) before) (reaches_resolving _ hevents) hdeclares
    (h.touched_fresh hevents hn).1 hn (hnode.symm.trans hb)
  obtain ⟨uses, hfinal⟩ := hkept b γ hγ
  cases hfinal.symm.trans hβ
  rw [← stack_resolving (p.index source) hevents]
  exact hopen

/-- The binding of a node lives in a scope that is open at the event of the node. -/
theorem scope_mem_stack (h : p.DistinctIdents)
    (hevents : p.events = before ++ e :: rest) (hn : e.node? (p.index source) = some n)
    (hb : (p.resolve (p.index source)).nodeBinding[n]? = some b)
    (hβ : (p.resolve (p.index source)).bindings[b]? = some β) :
    β.scope ∈ (p.declaring (p.index source) before).stack := by
  rw [p.resolve_eq_finish] at hb hβ
  have he : e ∈ p.events := by simp [hevents]
  obtain ⟨o, ho, hnode⟩ := Option.bind_eq_some_iff.mp hn
  cases o with
  | property id =>
    have hknows : (p.resolved (p.index source)).Knows n :=
      .inl (Std.HashMap.mem_iff_isSome_getElem?.mpr (Option.isSome_of_eq_some hb))
    obtain ⟨other, hother, hsame⟩ := (p.resolved_knows_iff _ n).mp hknows
    exact absurd hsame (h.not_inScope_of_property (occurrence_of_event he ho) hnode hother)
  | inScope id =>
    obtain ⟨pass, hact⟩ := inScope_iff.mp ho
    cases pass with
    | declare =>
      cases e with
      | declare kind other =>
        cases hact
        exact h.scope_mem_stack_of_declare hevents hnode hb hβ
      | _ => cases hact
    | resolve => exact h.scope_mem_stack_of_resolve hevents (touched?_eq_some hact hnode) hb hβ

end DistinctIdents

end Program

end ScriptLens
