import ScriptLens.Proofs.Scope.Sites

/-! # What a binding knows of its declarations and uses

A run keeps an account: each declaration made so far has a binding of its name in its scope,
each binding points to the declaration that decides among its own, and the uses in its list are
the other nodes that have it. One step keeps this as long as it acts on a node that nothing is
recorded about, and where identifiers can be told apart every step does.
-/
namespace ScriptLens

namespace Resolver

/-- The declarations made so far agree with what is recorded. -/
structure Accounts (r : Resolver) (sites : List DeclSite) : Prop where
  bound : ∀ s ∈ sites, ∃ (b : Nat) (β : BindingRecord), r.nodeBinding[s.node]? = some b ∧
    r.bindings[b]? = some β ∧ s.isOf β = true
  declared : ∀ n, n ∈ r.declarations ↔ ∃ s ∈ sites, s.node = n
  known : ∀ (n b : Nat), r.nodeBinding[n]? = some b → ∃ β, r.bindings[b]? = some β
  chosen : ∀ (b : Nat) (β : BindingRecord), r.bindings[b]? = some β →
    ∃ s, DeclSite.chosen? (sites.filter (DeclSite.isOf β)) = some s ∧ β.decl = s.node ∧
      β.kind = s.kind
  used : ∀ (b : Nat) (β : BindingRecord), r.bindings[b]? = some β → ∀ n,
    n ∈ β.references ↔ r.nodeBinding[n]? = some b ∧ n ∉ r.declarations
  used_once : ∀ (b : Nat) (β : BindingRecord), r.bindings[b]? = some β →
    β.references.toList.Nodup

variable {r after : Resolver} {sites : List DeclSite} {s : DeclSite} {n b : Nat} {β : BindingRecord}

theorem Sound.binding_unique (h : r.Sound) {c : Nat} {γ : BindingRecord}
    (hβ : r.bindings[b]? = some β) (hγ : r.bindings[c]? = some γ) (hs : s.isOf β = true)
    (hs' : s.isOf γ = true) : b = c := by
  obtain ⟨hscope, hname⟩ := DeclSite.isOf_iff.mp hs
  obtain ⟨hscope', hname'⟩ := DeclSite.isOf_iff.mp hs'
  have hb := (h.graph.bound_iff s.scope s.name b).mpr ⟨β, hβ, hscope.symm, hname.symm⟩
  have hc := (h.graph.bound_iff s.scope s.name c).mpr ⟨γ, hγ, hscope'.symm, hname'.symm⟩
  exact Option.some.inj (hb.symm.trans hc)

theorem nodeBinding_of_fresh (hn : ¬ r.Knows n) : r.nodeBinding[n]? = none :=
  Std.HashMap.getElem?_eq_none fun hmem => hn (.inl hmem)

/-- A node gets a binding, and bindings stay with their scopes and names. -/
structure Attaches (r after : Resolver) (n b : Nat) (β : BindingRecord) : Prop where
  nodeBinding : after.nodeBinding = r.nodeBinding.insert n b
  binding : after.bindings[b]? = some β
  kept : ∀ (c : Nat) (γ : BindingRecord), r.bindings[c]? = some γ →
    ∃ δ, after.bindings[c]? = some δ ∧ DeclSite.isOf δ = DeclSite.isOf γ

namespace Attaches

theorem nodeBinding_self (h : Attaches r after n b β) : after.nodeBinding[n]? = some b := by
  rw [h.nodeBinding]
  exact Std.HashMap.getElem?_insert_self

theorem nodeBinding_of_ne (h : Attaches r after n b β) {m : Nat} (hm : m ≠ n) :
    after.nodeBinding[m]? = r.nodeBinding[m]? := by
  rw [h.nodeBinding, Std.HashMap.getElem?_insert, if_neg (by simpa using Ne.symm hm)]

theorem known (h : Attaches r after n b β) (hr : r.Accounts sites) {m c : Nat}
    (hm : after.nodeBinding[m]? = some c) : ∃ γ, after.bindings[c]? = some γ := by
  by_cases hn : m = n
  · subst hn
    cases h.nodeBinding_self.symm.trans hm
    exact ⟨β, h.binding⟩
  · obtain ⟨γ, hγ⟩ := hr.known m c ((h.nodeBinding_of_ne hn).symm.trans hm)
    obtain ⟨δ, hδ, _⟩ := h.kept c γ hγ
    exact ⟨δ, hδ⟩

theorem bound (h : Attaches r after n b β) (hr : r.Accounts sites)
    (hunbound : r.nodeBinding[n]? = none) (hs : s ∈ sites) :
    ∃ (c : Nat) (γ : BindingRecord), after.nodeBinding[s.node]? = some c ∧
      after.bindings[c]? = some γ ∧ s.isOf γ = true := by
  obtain ⟨c, γ, hnode, hγ, hof⟩ := hr.bound s hs
  obtain ⟨δ, hδ, hsame⟩ := h.kept c γ hγ
  refine ⟨c, δ, (h.nodeBinding_of_ne ?_).trans hnode, hδ, hsame ▸ hof⟩
  intro heq
  cases hunbound.symm.trans (heq ▸ hnode)

end Attaches

namespace Binds

theorem attaches (h : Binds r after s b β) : Attaches r after s.node b β := by
  refine ⟨h.nodeBinding, h.binding, fun c γ hγ => ?_⟩
  by_cases hc : c = b
  · subst hc
    rcases h.record with ⟨_, hnone, _⟩ | ⟨γ', hγ', rfl⟩
    · cases hnone.symm.trans hγ
    · cases hγ'.symm.trans hγ
      obtain ⟨hscope, hname, _⟩ := redeclare_scope s.kind s.node γ
      exact ⟨_, h.binding, DeclSite.isOf_congr hscope hname⟩
  · exact ⟨γ, (h.others c hc).trans hγ, rfl⟩

theorem mem_declarations (h : Binds r after s b β) (n : Nat) :
    n ∈ after.declarations ↔ s.node = n ∨ n ∈ r.declarations := by
  rw [h.declarations, Std.HashSet.mem_insert, beq_iff_eq]

theorem references_eq (h : Binds r after s b β) {c : Nat} {δ : BindingRecord}
    (hδ : after.bindings[c]? = some δ) :
    r.bindings[c]? = none ∧ δ.references = #[] ∨
      ∃ γ, r.bindings[c]? = some γ ∧ δ.references = γ.references := by
  by_cases hc : c = b
  · subst hc
    cases h.binding.symm.trans hδ
    rcases h.record with ⟨_, hnone, rfl⟩ | ⟨γ, hγ, rfl⟩
    · exact .inl ⟨hnone, rfl⟩
    · exact .inr ⟨γ, hγ, (redeclare_scope s.kind s.node γ).2.2⟩
  · exact .inr ⟨δ, (h.others c hc).symm.trans hδ, rfl⟩

end Binds

def addUse (n : Nat) (β : BindingRecord) : BindingRecord :=
  { β with references := β.references.push n }

theorem bindings_addReference (n b c : Nat) :
    (r.addReference n b).bindings[c]? =
      if b = c then (r.bindings[c]?).map (addUse n) else r.bindings[c]? :=
  Array.getElem?_modify ..

theorem exists_of_addReference {c : Nat} {δ : BindingRecord}
    (hδ : (r.addReference n b).bindings[c]? = some δ) :
    ∃ γ, r.bindings[c]? = some γ ∧ δ = if b = c then addUse n γ else γ := by
  rw [bindings_addReference] at hδ
  split at hδ
  · next hc =>
    obtain ⟨γ, hγ, rfl⟩ := Option.map_eq_some_iff.mp hδ
    exact ⟨γ, hγ, (if_pos hc).symm⟩
  · next hc => exact ⟨δ, hδ, (if_neg hc).symm⟩

theorem attaches_addReference (n : Nat) (hβ : r.bindings[b]? = some β) :
    Attaches r (r.addReference n b) n b (addUse n β) := by
  refine ⟨rfl, ?_, fun c γ hγ => ?_⟩
  · rw [bindings_addReference, if_pos rfl, hβ]
    rfl
  · rw [bindings_addReference, hγ]
    split
    · exact ⟨addUse n γ, rfl, rfl⟩
    · exact ⟨γ, rfl, rfl⟩

namespace Accounts

theorem start (span : Span) : (Resolver.start span).Accounts [] := by
  constructor <;> simp [Resolver.start]

theorem rewind (h : r.Accounts sites) : r.rewind.Accounts sites :=
  ⟨h.bound, h.declared, h.known, h.chosen, h.used, h.used_once⟩

theorem of_same (h : r.Accounts sites) (bindings : after.bindings = r.bindings)
    (nodeBinding : after.nodeBinding = r.nodeBinding)
    (declarations : after.declarations = r.declarations) : after.Accounts sites := by
  constructor
  · rw [bindings, nodeBinding]
    exact h.bound
  · rw [declarations]
    exact h.declared
  · rw [bindings, nodeBinding]
    exact h.known
  · rw [bindings]
    exact h.chosen
  · rw [bindings, nodeBinding, declarations]
    exact h.used
  · rw [bindings]
    exact h.used_once

/-- Of the declarations of a binding the new one decides if it is a function or the first. -/
theorem chosen_declares (h : r.Accounts sites) (hr : r.Sound) (hb : Binds r after s b β) :
    ∃ t, DeclSite.chosen? (sites.filter (DeclSite.isOf β) ++ [s]) = some t ∧ β.decl = t.node ∧
      β.kind = t.kind := by
  rw [DeclSite.chosen?_concat]
  rcases hb.record with ⟨hnew, _, rfl⟩ | ⟨γ, hγ, rfl⟩
  · have hnone : sites.filter (DeclSite.isOf ⟨b, s.name, s.kind, s.node, s.scope, #[]⟩) = [] := by
      refine List.filter_eq_nil_iff.mpr fun t ht hof => ?_
      obtain ⟨c, γ, _, hγ, hof'⟩ := h.bound t ht
      obtain ⟨hscope, hname⟩ := DeclSite.isOf_iff.mp hof
      obtain ⟨hscope', hname'⟩ := DeclSite.isOf_iff.mp hof'
      have hc := (hr.graph.bound_iff s.scope s.name c).mpr
        ⟨γ, hγ, hscope'.symm.trans hscope, hname'.symm.trans hname⟩
      cases hnew.symm.trans hc
    refine ⟨s, ?_, rfl, rfl⟩
    rw [hnone]
    split <;> rfl
  · obtain ⟨t, ht, hdecl, hkind⟩ := h.chosen b γ hγ
    obtain ⟨hscope, hname, _⟩ := redeclare_scope s.kind s.node γ
    rw [DeclSite.isOf_congr hscope hname, ht, redeclare]
    by_cases hs : s.kind = .functionDecl
    · refine ⟨s, if_pos (by simpa [DeclSite.isFunction] using hs), ?_⟩
      rw [if_pos hs]
      exact ⟨rfl, hs.symm⟩
    · refine ⟨t, if_neg (by simpa [DeclSite.isFunction] using hs), ?_⟩
      rw [if_neg hs]
      exact ⟨hdecl, hkind⟩

theorem declares (h : r.Accounts sites) (hr : r.Sound) (ha : after.Sound)
    (hb : Binds r after s b β) (hfresh : ¬ r.Knows s.node) : after.Accounts (sites ++ [s]) := by
  have hunbound := nodeBinding_of_fresh hfresh
  constructor
  · intro t ht
    rcases List.mem_append.mp ht with ht | ht
    · exact hb.attaches.bound h hunbound ht
    · cases List.mem_singleton.mp ht
      exact ⟨b, β, hb.attaches.nodeBinding_self, hb.binding, hb.site⟩
  · intro n
    rw [hb.mem_declarations, h.declared]
    simp [or_and_right, exists_or, or_comm]
  · exact fun _ _ => hb.attaches.known h
  · intro c δ hδ
    rw [List.filter_append]
    by_cases hc : c = b
    · subst hc
      cases hb.binding.symm.trans hδ
      have hself : [s].filter (DeclSite.isOf β) = [s] := by simp [hb.site]
      rw [hself]
      exact h.chosen_declares hr hb
    · have hother : [s].filter (DeclSite.isOf δ) = [] := by
        refine List.filter_eq_nil_iff.mpr fun t ht hof => ?_
        cases List.mem_singleton.mp ht
        exact hc (ha.binding_unique hδ hb.binding hof hb.site)
      rw [hother, List.append_nil]
      exact h.chosen c δ ((hb.others c hc).symm.trans hδ)
  · intro c δ hδ n
    have hbefore : n ∈ δ.references ↔ r.nodeBinding[n]? = some c ∧ n ∉ r.declarations := by
      rcases hb.references_eq hδ with ⟨hnone, hempty⟩ | ⟨γ, hγ, hsame⟩
      · refine ⟨fun hmem => absurd (hempty ▸ hmem) (Array.not_mem_empty n), fun ⟨hc, _⟩ => ?_⟩
        obtain ⟨γ, hγ⟩ := h.known n c hc
        cases hnone.symm.trans hγ
      · rw [hsame]
        exact h.used c γ hγ n
    rw [hbefore, hb.mem_declarations]
    by_cases hn : n = s.node
    · subst hn
      simp [hunbound]
    · rw [hb.attaches.nodeBinding_of_ne hn, or_iff_right (Ne.symm hn)]
  · intro c δ hδ
    rcases hb.references_eq hδ with ⟨_, hempty⟩ | ⟨γ, hγ, hsame⟩
    · rw [hempty]
      exact List.nodup_nil
    · rw [hsame]
      exact h.used_once c γ hγ

theorem refers (h : r.Accounts sites) (hβ : r.bindings[b]? = some β) (hfresh : ¬ r.Knows n) :
    (r.addReference n b).Accounts sites := by
  have hunbound := nodeBinding_of_fresh hfresh
  have hattaches := attaches_addReference n hβ
  have hundeclared : n ∉ (r.addReference n b).declarations := by
    intro hmem
    obtain ⟨s, hs, rfl⟩ := (h.declared n).mp hmem
    obtain ⟨c, _, hc, _⟩ := h.bound s hs
    cases hunbound.symm.trans hc
  have hunused : ∀ (c : Nat) (γ : BindingRecord), r.bindings[c]? = some γ → n ∉ γ.references := by
    intro c γ hγ hmem
    cases hunbound.symm.trans ((h.used c γ hγ n).mp hmem).1
  constructor
  · exact fun _ => hattaches.bound h hunbound
  · exact h.declared
  · exact fun _ _ => hattaches.known h
  · intro c δ hδ
    obtain ⟨γ, hγ, rfl⟩ := exists_of_addReference hδ
    split <;> exact h.chosen c γ hγ
  · intro c δ hδ m
    obtain ⟨γ, hγ, rfl⟩ := exists_of_addReference hδ
    by_cases hm : m = n
    · subst hm
      rw [hattaches.nodeBinding_self]
      split
      · next hc => exact iff_of_true Array.mem_push_self ⟨congrArg some hc, hundeclared⟩
      · next hc => simp [hc, hunused c γ hγ]
    · have hsame : m ∈ (if b = c then addUse n γ else γ).references ↔ m ∈ γ.references := by
        split
        · rw [addUse, Array.mem_push, or_iff_left hm]
        · rfl
      rw [hsame, hattaches.nodeBinding_of_ne hm]
      exact h.used c γ hγ m
  · intro c δ hδ
    obtain ⟨γ, hγ, rfl⟩ := exists_of_addReference hδ
    split
    · rw [addUse, Array.toList_push, ← List.concat_eq_append]
      exact (h.used_once c γ hγ).concat fun hmem => hunused c γ hγ (Array.mem_toList_iff.mp hmem)
    · exact h.used_once c γ hγ

theorem step (h : r.Accounts sites) (hr : r.Sound) (x : Index) (pass : Pass) (e : Event)
    (hfresh : ∀ n, e.touched? x pass = some n → ¬ r.Knows n) :
    (r.step x pass e).Accounts (sites ++ (r.site? x pass e).toList) := by
  have ha := hr.step x pass e
  cases bindingStep_step hr x pass e with
  | quiet none bindings nodeBinding declarations =>
    rw [none]
    simpa using h.of_same bindings nodeBinding declarations
  | declares site touched _ same =>
    obtain ⟨b, β, hb⟩ := exists_binds hr _
    rw [site]
    rw [same] at ha ⊢
    exact h.declares hr ha hb (hfresh _ touched)
  | refers none touched binding same =>
    rw [none, same]
    simpa using h.refers binding (hfresh _ touched)

end Accounts

theorem run_fresh (hr : r.Sound) (hd : ∀ n ∈ r.declarations, n ∈ r.nodeBinding) {x : Index}
    {pass : Pass} {before rest : List Event} {e : Event}
    (hnodup : ((before ++ e :: rest).filterMap (Event.touched? x pass)).Nodup)
    (hnew : ∀ n ∈ (before ++ e :: rest).filterMap (Event.touched? x pass), ¬ r.Knows n)
    (hn : e.touched? x pass = some n) : ¬ (r.run x pass before).Knows n := by
  rw [List.filterMap_append, List.filterMap_cons_some hn] at hnodup hnew
  rw [run_knows_iff hr hd]
  rintro (hknows | hmem)
  · exact hnew n (by simp) hknows
  · exact (List.nodup_append.mp hnodup).2.2 n hmem n List.mem_cons_self rfl

theorem Accounts.run (h : r.Accounts sites) (hr : r.Sound)
    (hd : ∀ n ∈ r.declarations, n ∈ r.nodeBinding) {x : Index} {pass : Pass} {es : List Event}
    (hnodup : (es.filterMap (Event.touched? x pass)).Nodup)
    (hnew : ∀ n ∈ es.filterMap (Event.touched? x pass), ¬ r.Knows n) :
    (r.run x pass es).Accounts (sites ++ r.sites x pass es) := by
  refine run_induction (P := fun done r' => r'.Accounts (sites ++ r.sites x pass done)) ?_ ?_
  · simpa [Resolver.sites] using h
  · rintro before e rest rfl hbefore
    have hfresh := fun n => run_fresh (n := n) hr hd hnodup hnew
    have hstep := hbefore.step (hr.run x pass before) x pass e hfresh
    rw [sites_append, ← List.append_assoc]
    simpa [Resolver.sites] using hstep

end Resolver

namespace Program

/-- All declarations of a program: those of the first pass, and then the functions that name
themselves in the second. -/
def sites (p : Program) (x : Index) : List DeclSite :=
  (Resolver.start p.span).sites x .declare p.events ++
    (p.declared x).sites x .resolve p.events

theorem DistinctIdents.declared_accounts {p : Program} (h : p.DistinctIdents) (source : String) :
    (p.declared (p.index source)).Accounts
      ((Resolver.start p.span).sites (p.index source) .declare p.events) := by
  have hfirst := (Resolver.Accounts.start p.span).run (Resolver.start_sound p.span)
    (by simp [Resolver.start]) (h.touched_nodup source .declare)
    (by simp [Resolver.Knows, Resolver.start])
  exact hfirst.rewind

theorem DistinctIdents.accounts {p : Program} (h : p.DistinctIdents) (source : String) :
    (p.resolved (p.index source)).Accounts (p.sites (p.index source)) := by
  refine (h.declared_accounts source).run (p.declared_sound _) (p.declared_declares _)
    (h.touched_nodup source .resolve) ?_
  intro n hn hknows
  cases h.touched_apart hn ((p.declared_knows_iff _ n).mp hknows)

end Program

/-- The declarations of a binding, in their order, and its uses. -/
structure Resolution.Usages (r : Resolution) (sites : List DeclSite) (b : Nat) (β : BindingRecord) :
    Prop where
  /-- All nodes of the binding are among them. -/
  nodes : ∀ n, r.nodeBinding[n]? = some b ↔ (∃ s ∈ sites, s.node = n) ∨ n ∈ β.references
  declarations : ∀ n, (∃ s ∈ sites, s.node = n) ↔
    r.nodeBinding[n]? = some b ∧ r.isDeclaration n = true
  apart : ∀ s ∈ sites, s.node ∉ β.references
  once : β.references.toList.Nodup
  /-- The last function decides, or else the first declaration. -/
  chosen : ∃ first, sites.head? = some first ∧
    β.decl = ((sites.filter DeclSite.isFunction).getLast?.getD first).node ∧
    β.kind = if sites.any DeclSite.isFunction then .functionDecl else first.kind

/-- The uses of a binding are exactly the nodes that have it and do not declare it. -/
theorem Program.resolve_usages (p : Program) (source : String) (h : p.DistinctIdents) (b : Nat)
    (β : BindingRecord) (hβ : (p.resolve (p.index source)).bindings[b]? = some β) :
    (p.resolve (p.index source)).Usages
      ((p.sites (p.index source)).filter (DeclSite.isOf β)) b β := by
  rw [p.resolve_eq_finish] at hβ ⊢
  have haccounts := h.accounts source
  have hsound := p.resolved_sound (p.index source)
  have hused := haccounts.used b β hβ
  have hdeclared : ∀ n, (∃ s ∈ (p.sites (p.index source)).filter (DeclSite.isOf β), s.node = n) ↔
      (p.resolved (p.index source)).nodeBinding[n]? = some b ∧
        n ∈ (p.resolved (p.index source)).declarations := by
    intro n
    constructor
    · rintro ⟨s, hs, rfl⟩
      obtain ⟨hmem, hof⟩ := List.mem_filter.mp hs
      obtain ⟨c, γ, hnode, hγ, hof'⟩ := haccounts.bound s hmem
      refine ⟨?_, (haccounts.declared s.node).mpr ⟨s, hmem, rfl⟩⟩
      rw [hnode, hsound.binding_unique hγ hβ hof' hof]
    · rintro ⟨hnode, hn⟩
      obtain ⟨s, hs, rfl⟩ := (haccounts.declared n).mp hn
      obtain ⟨c, γ, hnode', hγ, hof⟩ := haccounts.bound s hs
      cases hnode.symm.trans hnode'
      cases hβ.symm.trans hγ
      exact ⟨s, List.mem_filter.mpr ⟨hs, hof⟩, rfl⟩
  obtain ⟨s, hs, hdecl, hkind⟩ := haccounts.chosen b β hβ
  obtain ⟨_, first, hfirst, hdecides, hfunction⟩ := DeclSite.chosen?_eq_some hs
  constructor
  · intro n
    rw [hdeclared, hused, ← and_or_left]
    exact (and_iff_left (Classical.em _)).symm
  · intro n
    rw [hdeclared]
    exact and_congr_right fun _ => Std.HashSet.contains_iff_mem.symm
  · intro t ht hmem
    exact ((hused t.node).mp hmem).2 ((hdeclared t.node).mp ⟨t, ht, rfl⟩).2
  · exact haccounts.used_once b β hβ
  · exact ⟨first, hfirst, hdecides ▸ hdecl, hkind.trans hfunction⟩

def redeclaredText : String := "var f; function f() \x7b\x7d f;"

def redeclaredProgram : Program where
  span := ⟨1, 26⟩
  body := .ofList
    [.varStmt (.declarationOf ⟨1, 7⟩ .varDecl (.ofList
      [.declaratorOf ⟨5, 6⟩ (.target ⟨⟨5, 6⟩, "f"⟩) .absent])),
     .functionDecl ⟨⟨8, 23⟩, false, false⟩ (some ⟨⟨17, 18⟩, "f"⟩) .nil ⟨21, 23⟩ .nil,
     .exprStmt ⟨24, 26⟩ (.ident ⟨⟨24, 25⟩, "f"⟩)]

theorem redeclaredProgram_distinctIdents : redeclaredProgram.DistinctIdents :=
  ⟨by decide, by decide⟩

theorem redeclaredProgram_usages :
    let x := redeclaredProgram.index redeclaredText
    let β : BindingRecord := ⟨0, "f", .functionDecl, 5, 0, #[8]⟩
    let sites := (redeclaredProgram.sites x).filter (DeclSite.isOf β)
    redeclaredProgram.DistinctIdents ∧
    (redeclaredProgram.resolve x).bindings[0]? = some β ∧
    (redeclaredProgram.resolve x).Usages sites 0 β := by
  intro x β sites
  have hvar : x.identNode? ⟨⟨5, 6⟩, "f"⟩ = some 3 :=
    redeclaredProgram_distinctIdents.identNode?_entry (by decide) rfl
  have hfunction : x.identNode? ⟨⟨17, 18⟩, "f"⟩ = some 5 :=
    redeclaredProgram_distinctIdents.identNode?_entry (by decide) rfl
  have huse : x.identNode? ⟨⟨24, 25⟩, "f"⟩ = some 8 :=
    redeclaredProgram_distinctIdents.identNode?_entry (by decide) rfl
  have hevents : redeclaredProgram.events = [.declare .varDecl ⟨⟨5, 6⟩, "f"⟩,
      .declare .functionDecl ⟨⟨17, 18⟩, "f"⟩, .enter .function ⟨8, 23⟩, .leave,
      .refer ⟨⟨24, 25⟩, "f"⟩] := by
    decide
  have hβ : (redeclaredProgram.resolve x).bindings[0]? = some β := by
    rw [Program.resolve_eq_run, hevents]
    simp [Resolver.run, Resolver.step, Resolver.start, Resolver.enter, Resolver.create,
      Resolver.moveTo, Resolver.declare, hvar, hfunction, huse, Resolver.bind, Resolver.leave,
      Span.isNowhere, BindingKind.isHoisted, ScopeRecord.binding?, hoistTarget, Resolver.rewind,
      Resolver.finish, Resolver.refer, lookupFrom?, Resolver.redeclare,
      Resolver.addReference, β]
  exact ⟨redeclaredProgram_distinctIdents, hβ,
    redeclaredProgram.resolve_usages redeclaredText redeclaredProgram_distinctIdents 0 β hβ⟩

end ScriptLens
