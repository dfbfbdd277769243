import ScriptLens.Proofs.Scope.Usages

/-! # Where bindings live

A `var` and a function go to the nearest scope around them that collects declarations, and any
other declaration stays where it stands. What stands in a scope suits it: parameters stand in
functions and the parameter of a `catch` in its handler. Since only a function takes a binding
over from another declaration, and it has been sent to the same scope, a binding suits its scope
in whatever order its declarations come.
-/
namespace ScriptLens

open Event

/-- The scopes that a binding can be in, by its kind. -/
def BindingKind.LivesIn : BindingKind → ScopeKind → Prop
  | .varDecl, scope | .functionDecl, scope => scope = .global ∨ scope = .function
  | .parameter, scope => scope = .function
  | .catchParameter, scope => scope = .handler
  | .letDecl, _ | .constDecl, _ | .classDecl, _ => True

/-- The nearest scope on the way outwards that is global or a function. -/
inductive HoistsTo (scopes : Array ScopeRecord) : Nat → Nat → Prop where
  | here {i : Nat} {s : ScopeRecord} (known : scopes[i]? = some s)
      (collects : s.kind = .global ∨ s.kind = .function) : HoistsTo scopes i i
  | outward {i q t : Nat} {s : ScopeRecord} (known : scopes[i]? = some s)
      (passes : ¬ (s.kind = .global ∨ s.kind = .function)) (parent : s.parent = some q)
      (next : HoistsTo scopes q t) : HoistsTo scopes i t

/-- The scope that a declaration goes to from the scope that it stands in. -/
def BindingKind.GoesTo (scopes : Array ScopeRecord) (here scope : Nat) : BindingKind → Prop
  | .varDecl | .functionDecl => HoistsTo scopes here scope
  | .letDecl | .constDecl | .classDecl | .parameter | .catchParameter => scope = here

theorem ScopeKind.isHoistTarget_iff (kind : ScopeKind) :
    kind.isHoistTarget = true ↔ kind = .global ∨ kind = .function := by
  cases kind <;> simp [isHoistTarget]

theorem BindingKind.livesIn_of_isHoisted {kind : BindingKind} {scope : ScopeKind}
    (h : kind.isHoisted = true) (hscope : scope = .global ∨ scope = .function) :
    kind.LivesIn scope := by
  cases kind with
  | varDecl | functionDecl => exact hscope
  | _ => cases h

theorem exists_frame {scopes : Array ScopeRecord} {i : Nat} (hi : i < scopes.size) :
    ∃ f, frame? scopes i = some f :=
  ⟨_, frame?_eq_some.mpr ⟨_, Array.getElem?_eq_getElem hi, rfl⟩⟩

namespace HoistsTo
variable {scopes : Array ScopeRecord} {i t : Nat}

theorem exists_scope (h : HoistsTo scopes i t) :
    ∃ s, scopes[t]? = some s ∧ (s.kind = .global ∨ s.kind = .function) := by
  induction h with
  | here known collects => exact ⟨_, known, collects⟩
  | outward _ _ _ _ ih => exact ih

end HoistsTo

theorem hoistsTo_hoistTarget {scopes : Array ScopeRecord} (h : ScopeTree scopes)
    (hroot : ∃ f, frame? scopes 0 = some f ∧ f.kind = .global) {i : Nat} (hi : i < scopes.size) :
    HoistsTo scopes i (hoistTarget scopes i) := by
  induction i using Nat.strongRecOn with
  | _ i ih =>
    have hs := Array.getElem?_eq_getElem hi
    rw [hoistTarget, hs]
    simp only
    split
    · next hcollects => exact .here hs ((ScopeKind.isHoistTarget_iff _).mp hcollects)
    · next hpasses =>
      rw [ScopeKind.isHoistTarget_iff] at hpasses
      rcases Nat.eq_zero_or_pos i with rfl | hpos
      · obtain ⟨f, hf, hglobal⟩ := hroot
        obtain ⟨s, hzero, rfl⟩ := frame?_eq_some.mp hf
        cases hs.symm.trans hzero
        exact absurd (.inl hglobal) hpasses
      · obtain ⟨q, hq, hlt⟩ := h.parent_lt hs hpos
        simp only [hq, if_pos hlt]
        exact .outward hs hpasses hq (ih q hlt (Nat.lt_trans hlt hi))

/-! ## What stands in which scope -/

theorem singleton_eq_split {α : Type} {a b : α} {before rest : List α}
    (h : [a] = before ++ b :: rest) : before = [] ∧ a = b := by
  rcases List.cons_eq_append_iff.mp h with ⟨rfl, hrest⟩ | ⟨_, _, hnil⟩
  · cases hrest
    exact ⟨rfl, rfl⟩
  · simp at hnil

namespace Event

def FitsIn (scope : ScopeKind) : Event → Prop
  | .declare kind _ => kind.isHoisted = true ∨ kind.LivesIn scope
  | .nameSelf _ => scope = .function
  | _ => True

/-- Events that may happen in a scope of a kind, with the scopes inside of it. -/
inductive Fits : ScopeKind → List Event → Prop where
  | nil (scope : ScopeKind) : Fits scope []
  | declare {scope : ScopeKind} {kind : BindingKind} (id : Ident)
      (fits : kind.isHoisted = true ∨ kind.LivesIn scope) : Fits scope [.declare kind id]
  | refer (scope : ScopeKind) (id : Ident) : Fits scope [.refer id]
  | property (scope : ScopeKind) (id : Ident) : Fits scope [.property id]
  | append {scope : ScopeKind} {es fs : List Event} (first : Fits scope es)
      (rest : Fits scope fs) : Fits scope (es ++ fs)
  | within (scope : ScopeKind) {kind : ScopeKind} (span : Span) {name : Option Ident}
      {body : List Event} (named : name.isSome = true → kind = .function)
      (inside : Fits kind body) :
      Fits scope (within kind span (name.toList.map .nameSelf ++ body))

namespace Fits
variable {scope kind : ScopeKind} {es : List Event}

theorem shape (h : Fits scope es) : Shape es := by
  induction h with
  | nil => exact .nil
  | declare id _ => exact .declare _ id
  | refer _ id => exact .refer id
  | property _ id => exact .property id
  | append _ _ ihe ihf => exact ihe.append ihf
  | within _ span _ _ ih => exact .within _ span _ ih

theorem plain (scope : ScopeKind) (span : Span) (h : Fits kind es) :
    Fits scope (Event.within kind span es) := by
  have hnameless : (none : Option Ident).isSome = true → kind = .function := fun hsome => by
    cases hsome
  exact .within scope span hnameless h

theorem withinIf (needed : Bool) (span : Span) (h : ∀ k, Fits k es) :
    Fits scope (Event.withinIf needed kind span es) := by
  cases needed with
  | false => exact h scope
  | true => exact (h kind).plain scope span

theorem names {make : Ident → Event} (h : ∀ id, Fits scope [make id]) (ids : List Ident) :
    Fits scope (ids.map make) := by
  induction ids with
  | nil => exact .nil scope
  | cons id rest ih => exact (h id).append ih

end Fits

def BinderFits (binder : Option BindingKind) (scope : ScopeKind) : Prop :=
  ∀ kind ∈ binder, kind.isHoisted = true ∨ kind.LivesIn scope

theorem BinderFits.none (scope : ScopeKind) : BinderFits Option.none scope := by
  intro kind hkind
  cases hkind

theorem BinderFits.some {kind : BindingKind} {scope : ScopeKind}
    (h : kind.isHoisted = true ∨ kind.LivesIn scope) : BinderFits (Option.some kind) scope := by
  intro other hother
  cases hother
  exact h

theorem fits_targetEvent {b : Option BindingKind} {scope : ScopeKind} (hb : BinderFits b scope)
    (id : Ident) : Fits scope [Ast.targetEvent b id] := by
  cases b with
  | none => exact .refer scope id
  | some kind => exact .declare id (hb kind rfl)

end Event

theorem DeclKind.fits (kind : DeclKind) (scope : ScopeKind) :
    kind.bindingKind.isHoisted = true ∨ kind.bindingKind.LivesIn scope := by
  cases kind with
  | varDecl => exact .inl rfl
  | letDecl | constDecl => exact .inr trivial

theorem Ast.fits_events {c : Category} (a : Ast c) {b : Option BindingKind} {scope : ScopeKind}
    (hb : BinderFits b scope) : Fits scope (a.events b) := by
  have hnone := BinderFits.none
  have hparameter : BinderFits (some .parameter) .function := .some (.inr rfl)
  have hcaught : BinderFits (some .catchParameter) .handler := .some (.inr rfl)
  have hclass : ∀ k id, Fits k [.declare .classDecl id] := fun _ id => .declare id (.inr trivial)
  have himport : ∀ k id, Fits k [.declare .constDecl id] := fun _ id => .declare id (.inr trivial)
  have hfunction : ∀ k id, Fits k [.declare .functionDecl id] := fun _ id => .declare id (.inl rfl)
  induction a generalizing b scope with
  | nil | absent | literal | keyword | hidden | keyString | keyNumber | keyPrivate => exact .nil _
  | jumpStmt | emptyStmt | debuggerStmt => exact .nil _
  | ident id | shorthand id => exact .refer _ id
  | named id | keyIdent id => exact .property _ id
  | target id => exact fits_targetEvent hb id
  | present _ ih | fieldShorthand _ ih => exact ih hb
  | objectPattern _ _ ih | arrayPattern _ _ ih | restPattern _ _ ih => exact ih hb
  | fieldRest _ _ ih => exact ih hb
  | arrowExpr _ ih | computed _ ih | keyComputed _ ih | methodProp _ ih => exact ih (hnone _)
  | methodMember _ ih | exprPattern _ ih | varStmt _ ih | blockStmt _ ih => exact ih (hnone _)
  | initDecl _ ih | initExpr _ ih | headDecl _ ih | headPattern _ ih => exact ih (hnone _)
  | template _ _ ih | array _ _ ih | object _ _ ih | sequence _ _ ih => exact ih (hnone _)
  | paren _ _ ih | badExpr _ _ ih | arrowBlock _ _ ih | spreadProp _ _ ih => exact ih (hnone _)
  | exprStmt _ _ ih | badStmt _ _ ih => exact ih (hnone _)
  | exitStmt _ _ _ ih | labeledStmt _ _ _ ih => exact ih (hnone _)
  | unary _ _ _ _ _ ih => exact ih (hnone _)
  | declarationOf _ kind _ ih => exact ih (.some (kind.fits scope))
  | cons _ _ ihf ihr => exact (ihf hb).append (ihr hb)
  | defaultPattern _ _ _ ihl ihr | declaratorOf _ _ _ ihl ihr =>
    exact (ihl hb).append (ihr (hnone _))
  | fieldPair _ _ _ ihk ihv => exact (ihk (hnone _)).append (ihv hb)
  | pair _ _ _ ihl ihr | whileStmt _ _ _ ihl ihr | doWhileStmt _ _ _ ihl ihr =>
    exact (ihl (hnone _)).append (ihr (hnone _))
  | withStmt _ _ _ ihl ihr | caseOf _ _ _ ihl ihr => exact (ihl (hnone _)).append (ihr (hnone _))
  | tagged _ _ _ _ ihl ihr | binary _ _ _ _ ihl ihr =>
    exact (ihl (hnone _)).append (ihr (hnone _))
  | assign _ _ _ _ ihl ihr | get _ _ _ _ ihl ihr => exact (ihl (hnone _)).append (ihr (hnone _))
  | call _ _ _ _ _ ihl ihr => exact (ihl (hnone _)).append (ihr (hnone _))
  | conditional _ _ _ _ iht ihc iha | ifStmt _ _ _ _ iht ihc iha | tryStmt _ _ _ _ iht ihc iha =>
    exact (iht (hnone _)).append ((ihc (hnone _)).append (iha (hnone _)))
  | importDecl _ names _ => exact .names (himport _) names
  | exportDecl _ names _ => exact .names (.refer _) names
  | classDecl _ name _ _ ihb ihm =>
    exact (Fits.names (hclass _) name.toList).append
      ((ihb (hnone _)).append (ihm (hnone _)))
  | function _ name _ _ _ ihp ihb =>
    exact .within _ _ (fun _ => rfl) ((ihp hparameter).append (ihb (hnone _)))
  | arrow _ _ _ _ ihp ihb =>
    exact ((ihp hparameter).append (ihb (hnone _))).plain _ _
  | classExpr _ name _ _ ihb ihm =>
    exact .withinIf _ _ fun k =>
      (Fits.names (hclass _) name.toList).append
        ((ihb (hnone k)).append (ihm (hnone k)))
  | functionDecl _ name _ _ _ ihp ihb =>
    exact (Fits.names (hfunction _) name.toList).append
      (((ihp hparameter).append (ihb (hnone _))).plain _ _)
  | methodDef _ _ _ _ _ _ _ _ ihk ihp ihb =>
    exact (ihk (hnone _)).append (((ihp hparameter).append (ihb (hnone _))).plain _ _)
  | fieldMember _ _ _ _ ihk ihv =>
    exact (ihk (hnone _)).append (.withinIf _ _ fun k => ihv (hnone k))
  | staticBlock _ _ _ ih => exact (ih (hnone _)).plain _ _
  | forStmt _ _ _ _ _ ihi iht ihu ihb =>
    exact .withinIf _ _ fun k =>
      (ihi (hnone k)).append ((iht (hnone k)).append ((ihu (hnone k)).append (ihb (hnone k))))
  | forInStmt _ _ _ _ _ ihl ihr ihb =>
    exact .withinIf _ _ fun k => (ihl (hnone k)).append ((ihr (hnone k)).append (ihb (hnone k)))
  | switchStmt _ _ _ ihd ihc => exact (ihd (hnone _)).append (.withinIf _ _ fun k => ihc (hnone k))
  | blockOf _ _ ih => exact .withinIf _ _ fun k => ih (hnone k)
  | handlerOf span param _ ihp ihb =>
    cases param with
    | absent => exact ihb (hnone _)
    | present => exact ((ihp hcaught).append (ihb (hnone _))).plain _ span

theorem Program.fits_events (p : Program) : Fits .global p.events := p.body.fits_events (.none _)

namespace Resolver

def kind? (r : Resolver) : Option ScopeKind := (frame? r.scopes r.current).map Frame.kind

variable {r : Resolver} {x : Index} {es : List Event}

theorem kind?_enter (r : Resolver) (kind : ScopeKind) (span : Span) :
    (r.enter .declare kind span).kind? = some kind := by
  have hscopes : (r.enter .declare kind span).scopes = withScope r.scopes r.current kind _ := rfl
  have hcurrent : (r.enter .declare kind span).current = r.scopes.size := rfl
  rw [kind?, hscopes, hcurrent, frame?_withScope, if_pos rfl]
  rfl

theorem Sound.kind?_run (h : r.Sound) (hes : Shape es) (x : Index) :
    (r.run x .declare es).kind? = r.kind? := by
  have hcurrent := (List.cons.inj (stack_run hes x r)).1
  rw [kind?, kind?, hcurrent, frame?_run_of_lt h.current_lt]

/-- What fits in the scope of the first event fits where it happens. -/
theorem Sound.fitsIn_run {scope : ScopeKind} (hes : Fits scope es) (h : r.Sound)
    (hscope : r.kind? = some scope) {before rest : List Event} {e : Event}
    (hsplit : es = before ++ e :: rest) {kind : ScopeKind}
    (hkind : (r.run x .declare before).kind? = some kind) : e.FitsIn kind := by
  induction hes generalizing r before rest with
  | nil => simp at hsplit
  | declare id fits =>
    obtain ⟨rfl, rfl⟩ := singleton_eq_split hsplit
    cases hscope.symm.trans hkind
    exact fits
  | refer | property =>
    obtain ⟨rfl, rfl⟩ := singleton_eq_split hsplit
    trivial
  | @append scope es fs first _ ihe ihf =>
    rcases append_eq_split hsplit with ⟨mid, hfirst, _⟩ | ⟨mid, rfl, hsecond⟩
    · exact ihe h hscope hfirst hkind
    · rw [run_append] at hkind
      exact ihf (h.run x .declare es) ((h.kind?_run first.shape x).trans hscope) hsecond hkind
  | @within scope inner span name body named _ ih =>
    have hentered := kind?_enter r inner span
    rcases List.cons_eq_append_iff.mp hsplit with ⟨rfl, hfirst⟩ | ⟨before, rfl, hinside⟩
    · cases hfirst
      trivial
    have hrun : (r.run x .declare (.enter inner span :: before)) =
        (r.enter .declare inner span).run x .declare before := rfl
    rw [hrun] at hkind
    rcases append_eq_split hinside with ⟨mid, hopened, _⟩ | ⟨mid, _, hleave⟩
    · cases name with
      | none => exact ih (h.enter .declare inner span) hentered hopened hkind
      | some id =>
        rcases List.cons_eq_append_iff.mp hopened with ⟨rfl, hself⟩ | ⟨before, rfl, hbody⟩
        · cases hself
          cases hentered.symm.trans hkind
          exact named rfl
        · exact ih (h.enter .declare inner span) hentered hbody hkind
    · obtain ⟨_, rfl⟩ := singleton_eq_split hleave
      trivial

/-- Each binding lives in a scope that suits it, and the first scope of all is global. -/
structure Housed (r : Resolver) : Prop where
  root : ∃ f, frame? r.scopes 0 = some f ∧ f.kind = .global
  home : ∀ (b : Nat) (β : BindingRecord), r.bindings[b]? = some β →
    ∃ f, frame? r.scopes β.scope = some f ∧ β.kind.LivesIn f.kind

namespace Housed
variable {pass : Pass} {e : Event}

theorem start (span : Span) : (Resolver.start span).Housed := by
  refine ⟨⟨⟨none, .global, span⟩, rfl, rfl⟩, fun b β hβ => ?_⟩
  simp [Resolver.start] at hβ

theorem rewind (h : r.Housed) : r.rewind.Housed := ⟨h.root, h.home⟩

theorem site (h : r.Housed) (hr : r.Sound) (he : ∀ kind, r.kind? = some kind → e.FitsIn kind)
    {s : DeclSite} (hs : r.site? x pass e = some s) :
    ∃ f, frame? r.scopes s.scope = some f ∧ s.kind.LivesIn f.kind := by
  obtain ⟨here, hcurrent⟩ := exists_frame hr.current_lt
  have hfits : e.FitsIn here.kind := he here.kind (by rw [kind?, hcurrent]; rfl)
  unfold site? at hs
  split at hs
  · next kind id =>
    obtain ⟨n, _, rfl⟩ := Option.map_eq_some_iff.mp hs
    unfold target
    split
    · next hhoisted =>
      obtain ⟨t, ht, hcollects⟩ :=
        (hoistsTo_hoistTarget hr.graph.toScopeTree h.root hr.current_lt).exists_scope
      exact ⟨t.frame, frame?_eq_some.mpr ⟨t, ht, rfl⟩,
        BindingKind.livesIn_of_isHoisted hhoisted hcollects⟩
    · next hstays => exact ⟨_, hcurrent, hfits.resolve_left hstays⟩
  · split at hs
    · cases hs
    · obtain ⟨n, _, rfl⟩ := Option.map_eq_some_iff.mp hs
      exact ⟨_, hcurrent, .inr hfits⟩
  · cases hs

theorem step (h : r.Housed) (hr : r.Sound) (he : ∀ kind, r.kind? = some kind → e.FitsIn kind) :
    (r.step x pass e).Housed := by
  have hkept := fun i f => (tableStep_step x pass r e).frame? (i := i) (f := f)
  obtain ⟨root, hroot, hglobal⟩ := h.root
  have hold : ∀ (b : Nat) (β : BindingRecord), r.bindings[b]? = some β →
      ∃ f, frame? (r.step x pass e).scopes β.scope = some f ∧ β.kind.LivesIn f.kind := by
    intro b β hβ
    obtain ⟨f, hf, hlives⟩ := h.home b β hβ
    exact ⟨f, hkept _ _ hf, hlives⟩
  refine ⟨⟨root, hkept _ _ hroot, hglobal⟩, fun b β hβ => ?_⟩
  cases bindingStep_step hr x pass e with
  | quiet _ bindings _ _ => exact hold b β (bindings ▸ hβ)
  | @declares s site _ _ same =>
    obtain ⟨f, hf, hlives⟩ := h.site hr he site
    obtain ⟨c, γ, hbinds⟩ := exists_binds hr s
    rw [← same] at hbinds
    by_cases hb : b = c
    · subst hb
      cases hbinds.binding.symm.trans hβ
      obtain ⟨hscope, _⟩ := DeclSite.isOf_iff.mp hbinds.site
      rcases hbinds.record with ⟨_, _, rfl⟩ | ⟨δ, hδ, rfl⟩
      · exact ⟨f, hkept _ _ hf, hlives⟩
      · by_cases hfunction : s.kind = .functionDecl
        · refine ⟨f, hscope ▸ hkept _ _ hf, ?_⟩
          rw [redeclare, if_pos hfunction]
          exact hfunction ▸ hlives
        · have hsame : redeclare s.kind s.node δ = δ := if_neg hfunction
          rw [hsame]
          exact hold b δ hδ
    · exact hold b β ((hbinds.others b hb).symm.trans hβ)
  | refers _ _ _ same =>
    rw [same] at hβ
    obtain ⟨γ, hγ, rfl⟩ := exists_of_addReference hβ
    split <;> exact hold b γ hγ

end Housed

end Resolver

namespace Program
variable {p : Program} {before rest : List Event}

theorem fitsIn_declaring (x : Index) {e : Event} (hevents : p.events = before ++ e :: rest)
    {kind : ScopeKind} (hkind : (p.declaring x before).kind? = some kind) : e.FitsIn kind :=
  (Resolver.start_sound p.span).fitsIn_run p.fits_events rfl hevents hkind

theorem kind?_resolving (x : Index) (hevents : p.events = before ++ rest) :
    (p.resolving x before).kind? = (p.declaring x before).kind? := by
  have hcurrent : (p.resolving x before).current = (p.declaring x before).current :=
    (List.cons.inj (stack_resolving x hevents)).1
  obtain ⟨f, hframe⟩ := exists_frame (p.declaring_rooted x before).current_lt
  have hfinal := frame?_resolve_of_declaring x hevents hframe
  have hlater : (p.resolve x).scopes = ((p.resolving x before).run x .resolve rest).scopes := by
    rw [p.scopes_resolve, resolving, ← Resolver.run_append, ← hevents]
    rfl
  rw [hlater, ← hcurrent, Resolver.frame?_run_of_lt (p.resolving_sound x before).current_lt]
    at hfinal
  rw [Resolver.kind?, Resolver.kind?, hfinal, hframe]

theorem resolved_housed (p : Program) (x : Index) : (p.resolved x).Housed := by
  have hfirst : (p.declaring x p.events).Housed := by
    refine Resolver.run_induction (P := fun _ r => r.Housed) (.start p.span) ?_
    intro before e rest hevents h
    exact h.step (p.declaring_rooted x before).toSound fun _ => fitsIn_declaring x hevents
  refine Resolver.run_induction (P := fun _ r => r.Housed) hfirst.rewind ?_
  intro before e rest hevents h
  refine h.step (p.resolving_sound x before) fun kind hkind => ?_
  exact fitsIn_declaring x hevents ((kind?_resolving x hevents).symm.trans hkind)

theorem mem_sites (x : Index) {kind : BindingKind} {id : Ident} {n : Nat}
    (hevents : p.events = before ++ .declare kind id :: rest) (hn : x.identNode? id = some n) :
    ⟨(p.declaring x before).target kind, id.name, kind, n⟩ ∈ p.sites x := by
  refine List.mem_append_left _ ?_
  rw [hevents, Resolver.sites_append, Resolver.sites]
  simp [Resolver.site?, hn, declaring]

theorem goesTo_target (p : Program) (x : Index) (before rest : List Event)
    (hevents : p.events = before ++ rest) (kind : BindingKind) :
    kind.GoesTo (p.resolve x).scopes (p.declaring x before).current
      ((p.declaring x before).target kind) := by
  have hlt := (p.declaring_rooted x before).current_lt
  have hframes : ∀ i ≤ (p.declaring x before).current,
      frame? (p.resolve x).scopes i = frame? (p.declaring x before).scopes i := by
    intro i hi
    obtain ⟨f, hknown⟩ := exists_frame (Nat.lt_of_le_of_lt hi hlt)
    rw [frame?_resolve_of_declaring x hevents hknown, hknown]
  have hfinal : (p.declaring x before).current < (p.resolve x).scopes.size := by
    obtain ⟨f, hknown⟩ := exists_frame hlt
    exact lt_of_frame? (frame?_resolve_of_declaring x hevents hknown)
  have hhoists : HoistsTo (p.resolve x).scopes (p.declaring x before).current
      (hoistTarget (p.declaring x before).scopes (p.declaring x before).current) := by
    rw [← hoistTarget_congr hframes]
    have hroot := (p.resolved_housed x).root
    rw [← p.scopes_resolve] at hroot
    exact hoistsTo_hoistTarget (p.resolve_graph x).toScopeTree hroot hfinal
  cases kind with
  | varDecl | functionDecl => exact hhoists
  | _ => rfl

theorem DistinctIdents.exists_node (h : p.DistinctIdents) (source : String) {id : Ident}
    (hid : id ∈ p.idents) (hplaced : id.isPlaced = true) :
    ∃ n, (p.index source).identNode? id = some n := by
  have hentry : id.entry ∈ p.toTree.identEntries := by
    rw [p.identEntries_toTree]
    exact List.mem_map_of_mem (List.mem_filter.mpr ⟨hid, hplaced⟩)
  obtain ⟨n, hn⟩ := List.getElem?_of_mem (List.mem_filter.mp hentry).1
  exact ⟨n, h.identNode?_entry hid hn⟩

end Program

/-- The binding of a declaration lives in the scope that the declaration goes to, and every
binding lives in a scope that suits it. -/
theorem Program.resolve_placement (p : Program) :
    (∀ source before kind id rest, p.DistinctIdents →
      p.events = before ++ .declare kind id :: rest → id.isPlaced = true →
      let x := p.index source
      let r := p.resolve x
      ∃ (n b : Nat) (β : BindingRecord), x.identNode? id = some n ∧
        r.nodeBinding[n]? = some b ∧ r.bindings[b]? = some β ∧ β.name = id.name ∧
        kind.GoesTo r.scopes (p.declaring x before).current β.scope) ∧
    ∀ (x : Index) (b : Nat) (β : BindingRecord), (p.resolve x).bindings[b]? = some β →
      ∃ s, (p.resolve x).scopes[β.scope]? = some s ∧ β.kind.LivesIn s.kind := by
  constructor
  · intro source before kind id rest h hevents hplaced x
    have hgoes := p.goesTo_target x before _ hevents kind
    rw [p.resolve_eq_finish] at hgoes ⊢
    intro r
    have hevent : .declare kind id ∈ p.events := by simp [hevents]
    have hacting : Event.acting? .declare (.declare kind id) = some id := rfl
    have hid : id ∈ p.idents := idents_of_acting hevent hacting
    obtain ⟨n, hn⟩ := h.exists_node source hid hplaced
    obtain ⟨b, β, hnode, hβ, hof⟩ := (h.accounts source).bound _ (mem_sites x hevents hn)
    obtain ⟨hscope, hname⟩ := DeclSite.isOf_iff.mp hof
    refine ⟨n, b, β, hn, hnode, hβ, hname.symm, ?_⟩
    rw [← hscope]
    exact hgoes
  · intro x b β hβ
    rw [p.resolve_eq_finish] at hβ ⊢
    obtain ⟨f, hf, hlives⟩ := (p.resolved_housed x).home b β hβ
    obtain ⟨s, hs, rfl⟩ := frame?_eq_some.mp hf
    exact ⟨s, hs, hlives⟩

def blockedText : String := "\x7b let a; var v; \x7d"

def blockedProgram : Program where
  span := ⟨1, 18⟩
  body := .ofList
    [.blockStmt (.blockOf ⟨1, 18⟩ (.ofList
      [.varStmt (.declarationOf ⟨3, 9⟩ .letDecl (.ofList
        [.declaratorOf ⟨7, 8⟩ (.target ⟨⟨7, 8⟩, "a"⟩) .absent])),
       .varStmt (.declarationOf ⟨10, 16⟩ .varDecl (.ofList
        [.declaratorOf ⟨14, 15⟩ (.target ⟨⟨14, 15⟩, "v"⟩) .absent]))]))]

theorem blockedProgram_placement :
    let x := blockedProgram.index blockedText
    let r := blockedProgram.resolve x
    let before := blockedProgram.events.take 2
    let v : Ident := ⟨⟨14, 15⟩, "v"⟩
    blockedProgram.DistinctIdents ∧
    blockedProgram.events = before ++ .declare .varDecl v :: [.leave] ∧
    (blockedProgram.declaring x before).current = 1 ∧
    ∃ (n b : Nat) (β : BindingRecord), x.identNode? v = some n ∧ r.nodeBinding[n]? = some b ∧
      r.bindings[b]? = some β ∧ HoistsTo r.scopes 1 β.scope ∧
      ∃ s, r.scopes[β.scope]? = some s ∧ β.kind.LivesIn s.kind := by
  intro x r before v
  have hdistinct : blockedProgram.DistinctIdents := ⟨by decide, by decide⟩
  have hevents : blockedProgram.events = before ++ .declare .varDecl v :: [.leave] := by decide
  have hcurrent : (blockedProgram.declaring x before).current = 1 :=
    (Resolver.declare_stays x _ .letDecl ⟨⟨7, 8⟩, "a"⟩).current
  obtain ⟨hplaced, hlives⟩ := blockedProgram.resolve_placement
  obtain ⟨n, b, β, hn, hnode, hβ, _, hgoes⟩ :=
    hplaced blockedText before .varDecl v [.leave] hdistinct hevents rfl
  exact ⟨hdistinct, hevents, hcurrent, n, b, β, hn, hnode, hβ, hcurrent ▸ hgoes, hlives x b β hβ⟩

end ScriptLens
