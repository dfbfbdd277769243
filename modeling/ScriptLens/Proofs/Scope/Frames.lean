import ScriptLens.Proofs.Scope.Replay

/-! # The table of scopes along the first pass

A scope keeps its parent, its kind and its span from its opening on. The open scopes are the
way from the current one to the root, and only they get names: a declaration goes to the
current scope or to the nearest one around it that collects it. So a scope that has been left
keeps its names, and a function keeps the names of the scopes around it as they are.
-/
namespace ScriptLens

open Event

structure Frame where
  parent : Option Nat
  kind : ScopeKind
  span : Span

def ScopeRecord.frame (s : ScopeRecord) : Frame := ⟨s.parent, s.kind, s.span⟩

def frame? (scopes : Array ScopeRecord) (i : Nat) : Option Frame :=
  (scopes[i]?).map ScopeRecord.frame

def names? (scopes : Array ScopeRecord) (i : Nat) : Option (Array (String × Nat)) :=
  (scopes[i]?).map ScopeRecord.names

/-- Scopes list their children in the order of opening. -/
def Ascending (scopes : Array ScopeRecord) : Prop :=
  ∀ (i : Nat) (s : ScopeRecord), scopes[i]? = some s → s.children.toList.Pairwise (· < ·)

variable {scopes after : Array ScopeRecord} {i : Nat}

theorem frame?_eq_some {f : Frame} :
    frame? scopes i = some f ↔ ∃ s, scopes[i]? = some s ∧ s.frame = f :=
  Option.map_eq_some_iff

theorem lt_of_frame? {f : Frame} (h : frame? scopes i = some f) : i < scopes.size := by
  obtain ⟨s, hs, _⟩ := frame?_eq_some.mp h
  exact (Array.getElem?_eq_some_iff.mp hs).1

theorem lt_of_names? {n : Array (String × Nat)} (h : names? scopes i = some n) :
    i < scopes.size := by
  obtain ⟨s, hs, _⟩ := Option.map_eq_some_iff.mp h
  exact (Array.getElem?_eq_some_iff.mp hs).1

theorem parentOf?_eq_frame? (scopes : Array ScopeRecord) (i : Nat) :
    parentOf? scopes i = (frame? scopes i).bind Frame.parent := by
  rw [parentOf?, frame?, Option.bind_map]
  rfl

theorem frame?_withScope (q : Nat) (kind : ScopeKind) (span : Span) :
    frame? (withScope scopes q kind span) i =
      if i = scopes.size then some ⟨some q, kind, span⟩ else frame? scopes i := by
  rw [frame?, getElem?_withScope]
  split
  · rfl
  · split
    · rw [Option.map_map]
      rfl
    · rfl

theorem names?_withScope (q : Nat) (kind : ScopeKind) (span : Span) :
    names? (withScope scopes q kind span) i =
      if i = scopes.size then some #[] else names? scopes i := by
  rw [names?, getElem?_withScope]
  split
  · rfl
  · split
    · rw [Option.map_map]
      rfl
    · rfl

theorem hoistTarget_congr {scope : Nat} (h : ∀ i ≤ scope, frame? after i = frame? scopes i) :
    hoistTarget after scope = hoistTarget scopes scope := by
  induction scope using Nat.strongRecOn with
  | _ scope ih =>
    have hscope := h scope (Nat.le_refl _)
    unfold hoistTarget
    cases hs : scopes[scope]? with
    | none =>
      rw [frame?, frame?, hs, Option.map_none, Option.map_eq_none_iff] at hscope
      rw [hscope]
    | some s =>
      obtain ⟨t, ht, hframe⟩ := frame?_eq_some.mp (hscope.trans (frame?_eq_some.mpr ⟨s, hs, rfl⟩))
      simp only [ScopeRecord.frame, Frame.mk.injEq] at hframe
      simp only [ht, hframe.1, hframe.2.1]
      split
      · rfl
      · split
        · rfl
        · split
          · next hlt => exact ih _ hlt fun i hi => h i (Nat.le_trans hi (Nat.le_of_lt hlt))
          · rfl

theorem parentOf?_of_frames (h : ∀ i f, frame? scopes i = some f → frame? after i = some f)
    {p : Nat} (hp : parentOf? scopes i = some p) : parentOf? after i = some p := by
  rw [parentOf?_eq_frame?] at *
  obtain ⟨f, hf, hparent⟩ := Option.bind_eq_some_iff.mp hp
  rw [h i f hf]
  exact hparent

theorem hoistTarget_withScope {q : Nat} (hq : q < scopes.size) (kind : ScopeKind) (span : Span) :
    hoistTarget (withScope scopes q kind span) scopes.size =
      if kind.isHoistTarget then scopes.size else hoistTarget scopes q := by
  have haround : hoistTarget (withScope scopes q kind span) q = hoistTarget scopes q := by
    apply hoistTarget_congr
    intro i hi
    rw [frame?_withScope, if_neg (Nat.ne_of_lt (Nat.lt_of_le_of_lt hi hq))]
  have hlast : (withScope scopes q kind span)[scopes.size]? =
      some ⟨scopes.size, some q, kind, span, #[], #[]⟩ := by
    rw [getElem?_withScope, if_pos rfl]
  rw [hoistTarget, hlast]
  simp only [if_pos hq, haround]

namespace Reaches
variable {way : List Nat} {c q : Nat}

theorem head_eq {d : Nat} (h : Reaches scopes (c :: way) d) : c = d := by
  cases h <;> rfl

theorem tail {d : Nat} (h : Reaches scopes (c :: q :: way) d) : Reaches scopes (q :: way) q := by
  cases h with
  | child parent =>
    cases parent.head_eq
    exact parent

theorem of_parent (ht : ScopeTree scopes) (h : Reaches scopes way q)
    (hp : parentOf? scopes c = some q) : Reaches scopes (c :: way) c := by
  have hq := Array.getElem?_eq_getElem (ht.parentOf?_lt_size hp)
  exact h.child hq ((ht.mem_children_iff hq).mpr hp)

theorem le_of_mem (ht : ScopeTree scopes) (h : Reaches scopes way c) (hq : q ∈ way) : q ≤ c := by
  induction h generalizing q with
  | root => exact Nat.le_of_eq (List.mem_singleton.mp hq)
  | child _ known listed ih =>
    rcases List.mem_cons.mp hq with rfl | hq
    · exact Nat.le_refl _
    · have hlt := ht.parentOf?_lt ((ht.mem_children_iff known).mp listed)
      exact Nat.le_trans (ih hq) (Nat.le_of_lt hlt)

theorem pairwise (ht : ScopeTree scopes) (h : Reaches scopes way c) : way.Pairwise (· > ·) := by
  induction h with
  | root => exact List.pairwise_singleton _ _
  | child parent known listed ih =>
    refine .cons ?_ ih
    intro q hq
    have hlt := ht.parentOf?_lt ((ht.mem_children_iff known).mp listed)
    exact Nat.lt_of_le_of_lt (parent.le_of_mem ht hq) hlt

theorem mono (ht : ScopeTree scopes) (ht' : ScopeTree after)
    (hkept : ∀ i f, frame? scopes i = some f → frame? after i = some f)
    (h : Reaches scopes way c) : Reaches after way c := by
  induction h with
  | root => exact .root
  | child _ known listed ih =>
    exact ih.of_parent ht' (parentOf?_of_frames hkept ((ht.mem_children_iff known).mp listed))

theorem hoistTarget_mem (ht : ScopeTree scopes) (h : Reaches scopes way c) :
    hoistTarget scopes c ∈ way := by
  induction h with
  | root =>
    obtain ⟨s, hs, hp⟩ := ht.root_parent
    rw [hoistTarget, hs]
    simp [hp]
  | @child way q c _ _ known listed ih =>
    have hparent := (ht.mem_children_iff known).mp listed
    obtain ⟨s, hs, hp⟩ := parentOf?_eq_some.mp hparent
    rw [hoistTarget, hs]
    simp only [hp, if_pos (ht.parentOf?_lt hparent)]
    split
    · exact List.mem_cons_self
    · exact List.mem_cons_of_mem c ih

end Reaches

namespace Resolver
variable {r : Resolver}

/-- What a step can do to the table of scopes. -/
inductive TableStep (r after : Resolver) : Prop where
  | same (scopes : after.scopes = r.scopes)
  | named (scope : Nat) (entry : String × Nat) (scopes : after.scopes =
      r.scopes.modify scope fun s => { s with names := s.names.push entry })
  | opened (kind : ScopeKind) (span : Span)
      (scopes : after.scopes = withScope r.scopes r.current kind span)

theorem tableStep_bind (r : Resolver) (scope node : Nat) (name : String) (kind : BindingKind) :
    TableStep r (r.bind scope node name kind) := by
  unfold Resolver.bind
  split
  · exact .same rfl
  · exact .named scope _ rfl

theorem tableStep_step (x : Index) (pass : Pass) (r : Resolver) (e : Event) :
    TableStep r (r.step x pass e) := by
  unfold step
  split
  · next kind span =>
    cases pass with
    | declare => exact .opened kind _ rfl
    | resolve =>
      simp only [Resolver.enter]
      split
      · exact .same rfl
      · exact .opened kind _ rfl
  · unfold Resolver.leave
    split <;> exact .same rfl
  · unfold Resolver.declare
    split
    · exact .same rfl
    · exact tableStep_bind ..
  · exact .same (scopes_refer ..)
  · simp only [Resolver.nameSelf]
    split
    · exact .same rfl
    · split
      · exact .same rfl
      · exact tableStep_bind ..
  · exact .same rfl

theorem names?_bind (r : Resolver) {scope : Nat} (node : Nat) (name : String) (kind : BindingKind)
    (hi : i ≠ scope) : names? (r.bind scope node name kind).scopes i = names? r.scopes i := by
  unfold Resolver.bind
  split
  · rfl
  · rw [names?, Array.getElem?_modify, if_neg (Ne.symm hi)]
    rfl

theorem scopes_enter (r : Resolver) (kind : ScopeKind) {span : Span}
    (hplaced : span.isNowhere = false) :
    (r.enter .declare kind span).scopes = withScope r.scopes r.current kind span := by
  simp only [Resolver.enter, Resolver.create, Resolver.moveTo, hplaced, withScope]
  rfl

theorem names?_enter (r : Resolver) (kind : ScopeKind) (span : Span) (i : Nat) :
    names? (r.enter .declare kind span).scopes i =
      if i = r.scopes.size then some #[] else names? r.scopes i :=
  names?_withScope r.current kind _

theorem hoistTarget_enter (hc : r.current < r.scopes.size) (kind : ScopeKind) (span : Span) :
    hoistTarget (r.enter .declare kind span).scopes r.scopes.size =
      if kind.isHoistTarget then r.scopes.size else hoistTarget r.scopes r.current :=
  hoistTarget_withScope hc kind _

theorem TableStep.frame? {after : Resolver} (h : TableStep r after) {f : Frame}
    (hf : frame? r.scopes i = some f) : ScriptLens.frame? after.scopes i = some f := by
  cases h with
  | same scopes => rw [scopes, hf]
  | named scope entry scopes =>
    rw [scopes, ScriptLens.frame?, Array.getElem?_modify]
    split
    · rw [Option.map_map]
      exact hf
    · exact hf
  | opened kind span scopes =>
    rw [scopes, frame?_withScope, if_neg (Nat.ne_of_lt (lt_of_frame? hf)), hf]

theorem TableStep.ascending {after : Resolver} (h : TableStep r after) (hr : r.Sound)
    (ha : Ascending r.scopes) : Ascending after.scopes := by
  intro i s hs
  cases h with
  | same scopes => exact ha i s (scopes ▸ hs)
  | named scope entry scopes =>
    rw [scopes, Array.getElem?_modify] at hs
    split at hs
    · obtain ⟨t, ht, rfl⟩ := Option.map_eq_some_iff.mp hs
      exact ha i t ht
    · exact ha i s hs
  | opened kind span scopes =>
    rw [scopes, getElem?_withScope] at hs
    split at hs
    · cases hs
      exact .nil
    · split at hs
      · obtain ⟨t, ht, rfl⟩ := Option.map_eq_some_iff.mp hs
        rw [Array.toList_push]
        refine List.pairwise_append.mpr ⟨ha i t ht, List.pairwise_singleton _ _, ?_⟩
        intro c hc new hnew
        rw [List.mem_singleton.mp hnew]
        have hp := (hr.graph.mem_children_iff ht).mp (Array.mem_toList_iff.mp hc)
        obtain ⟨child, hchild, _⟩ := parentOf?_eq_some.mp hp
        exact (Array.getElem?_eq_some_iff.mp hchild).1
      · exact ha i s hs

theorem ascending_run (h : r.Sound) (ha : Ascending r.scopes) (x : Index) (pass : Pass)
    (es : List Event) : Ascending (r.run x pass es).scopes := by
  induction es generalizing r with
  | nil => exact ha
  | cons e rest ih => exact ih (h.step x pass e) ((tableStep_step x pass r e).ascending h ha)

theorem frame?_run {f : Frame} (h : frame? r.scopes i = some f) (x : Index) (pass : Pass)
    (es : List Event) : frame? (r.run x pass es).scopes i = some f := by
  induction es generalizing r with
  | nil => exact h
  | cons e rest ih => exact ih ((tableStep_step x pass r e).frame? h)

theorem frame?_run_of_lt (hi : i < r.scopes.size) (x : Index) (pass : Pass) (es : List Event) :
    frame? (r.run x pass es).scopes i = frame? r.scopes i := by
  have hframe : frame? r.scopes i = some (r.scopes[i]).frame :=
    frame?_eq_some.mpr ⟨_, Array.getElem?_eq_getElem hi, rfl⟩
  rw [hframe]
  exact frame?_run hframe x pass es

theorem size_step (x : Index) (r : Resolver) (e : Event) :
    (r.step x .declare e).scopes.size = r.scopes.size + if e.isEnter then 1 else 0 := by
  cases e with
  | enter kind span => exact size_create r kind span
  | leave =>
    simp only [step, Resolver.leave]
    split <;> rfl
  | declare kind id => exact (declare_stays x r kind id).size
  | _ => rfl

theorem size_run (x : Index) (r : Resolver) (es : List Event) :
    (r.run x .declare es).scopes.size = r.scopes.size + Event.enters es := by
  induction es generalizing r with
  | nil => rfl
  | cons e rest ih =>
    rw [run_cons, ih, size_step, Event.enters_cons]
    omega

/-! ## Open scopes -/

def stack (r : Resolver) : List Nat := r.current :: r.outer

theorem Stays.stack {after : Resolver} (h : r.Stays after) : after.stack = r.stack := by
  rw [Resolver.stack, h.current, h.outer]
  rfl

theorem stack_enter (r : Resolver) (kind : ScopeKind) (span : Span) :
    (r.enter .declare kind span).stack = r.scopes.size :: r.stack := rfl

theorem stack_leave {c : Nat} {way : List Nat} (h : r.stack = c :: way) (hway : way ≠ []) :
    r.leave.stack = way := by
  cases h
  unfold Resolver.leave
  split
  · contradiction
  · next hout => exact hout.symm

theorem mem_stack_leave {c : Nat} (h : c ∈ r.leave.stack) : c ∈ r.stack := by
  unfold Resolver.leave at h
  split at h
  · exact h
  · next hout =>
    refine List.mem_cons_of_mem _ ?_
    rw [hout]
    exact h

theorem scopes_leave (r : Resolver) : r.leave.scopes = r.scopes := by
  unfold Resolver.leave
  split <;> rfl

theorem run_nameSelf (x : Index) (r : Resolver) (name : Option Ident) (es : List Event) :
    r.run x .declare (name.toList.map .nameSelf ++ es) = r.run x .declare es := by
  cases name <;> rfl

theorem stack_run {es : List Event} (h : Shape es) (x : Index) (r : Resolver) :
    (r.run x .declare es).stack = r.stack := by
  induction h generalizing r with
  | nil | refer | property => rfl
  | declare kind id => exact (declare_stays x r kind id).stack
  | append _ _ ihe ihf => rw [run_append, ihf, ihe]
  | within kind span name _ ih =>
    rw [run_within, run_nameSelf]
    exact stack_leave ((ih _).trans (stack_enter r kind span)) (List.cons_ne_nil _ _)

/-- The open scopes are the way from the current scope to the root. -/
structure Rooted (r : Resolver) : Prop extends r.Sound where
  reaches : Reaches r.scopes r.stack r.current

theorem start_rooted (span : Span) : (start span).Rooted := ⟨start_sound span, .root⟩

namespace Rooted

theorem mem_stack_lt (h : r.Rooted) {c : Nat} (hc : c ∈ r.stack) : c < r.scopes.size :=
  Nat.lt_of_le_of_lt (h.reaches.le_of_mem h.graph.toScopeTree hc) h.current_lt

theorem step (h : r.Rooted) (x : Index) (e : Event) : (r.step x .declare e).Rooted := by
  have hsound := h.toSound.step x .declare e
  have hkept : Reaches (r.step x .declare e).scopes r.stack r.current :=
    h.reaches.mono h.graph.toScopeTree hsound.graph.toScopeTree
      fun i f hf => (tableStep_step x .declare r e).frame? hf
  refine ⟨hsound, ?_⟩
  cases e with
  | enter kind span =>
    refine hkept.of_parent hsound.graph.toScopeTree ?_
    have hscopes : (r.step x .declare (.enter kind span)).scopes =
        withScope r.scopes r.current kind _ := rfl
    rw [hscopes, parentOf?_withScope]
    exact if_pos rfl
  | leave =>
    change Reaches r.leave.scopes r.leave.stack r.leave.current
    have hreaches := h.reaches
    rw [stack] at hreaches
    unfold Resolver.leave
    split
    · exact h.reaches
    · next scope rest hout =>
      rw [hout] at hreaches
      exact hreaches.tail
  | declare kind id =>
    have hs := declare_stays x r kind id
    change Reaches _ (r.declare x kind id).stack (r.declare x kind id).current
    rw [hs.stack, hs.current]
    exact hkept
  | _ => exact hkept

theorem run (h : r.Rooted) (x : Index) (es : List Event) : (r.run x .declare es).Rooted := by
  induction es generalizing r with
  | nil => exact h
  | cons e rest ih => exact ih (h.step x e)

theorem target_mem (h : r.Rooted) (kind : BindingKind) :
    (if kind.isHoisted then hoistTarget r.scopes r.current else r.current) ∈ r.stack := by
  split
  · exact h.reaches.hoistTarget_mem h.graph.toScopeTree
  · exact List.mem_cons_self

theorem names?_step (h : r.Rooted) {n : Array (String × Nat)} (hn : names? r.scopes i = some n)
    (hi : i ∉ r.stack) (x : Index) (e : Event) :
    names? (r.step x .declare e).scopes i = some n ∧ i ∉ (r.step x .declare e).stack := by
  cases e with
  | enter kind span =>
    have hne := Nat.ne_of_lt (lt_of_names? hn)
    refine ⟨(names?_enter r kind span i).trans ?_, fun hmem => ?_⟩
    · rw [if_neg hne, hn]
    · rcases List.mem_cons.mp hmem with heq | hmem
      · exact hne heq
      · exact hi hmem
  | leave =>
    refine ⟨?_, fun hmem => hi (mem_stack_leave hmem)⟩
    simp only [Resolver.step, Resolver.leave]
    split <;> exact hn
  | declare kind id =>
    refine ⟨?_, ?_⟩
    · simp only [Resolver.step, Resolver.declare]
      split
      · exact hn
      · rw [names?_bind, hn]
        exact fun heq => hi (heq ▸ h.target_mem kind)
    · change i ∉ (r.declare x kind id).stack
      rw [(declare_stays x r kind id).stack]
      exact hi
  | _ => exact ⟨hn, hi⟩

/-- A scope that has been left keeps its names. -/
theorem names?_run (h : r.Rooted) {n : Array (String × Nat)} (hn : names? r.scopes i = some n)
    (hi : i ∉ r.stack) (x : Index) (es : List Event) :
    names? (r.run x .declare es).scopes i = some n := by
  induction es generalizing r with
  | nil => exact hn
  | cons e rest ih =>
    obtain ⟨hn, hi⟩ := h.names?_step hn hi x e
    exact ih (h.step x e) hn hi

/-- Scopes get names only as the current scope or as the one that collects for it. -/
theorem names?_run_shape {es : List Event} (hes : Shape es) (h : r.Rooted)
    {n : Array (String × Nat)} (hn : names? r.scopes i = some n) (hcurrent : i ≠ r.current)
    (htarget : i ≠ hoistTarget r.scopes r.current) (x : Index) :
    names? (r.run x .declare es).scopes i = some n := by
  induction hes generalizing r with
  | nil | refer | property => exact hn
  | declare kind id =>
    change names? (r.declare x kind id).scopes i = some n
    unfold Resolver.declare
    split
    · exact hn
    · rw [names?_bind, hn]
      split
      · exact htarget
      · exact hcurrent
  | @append es fs hes hfs ihe ihf =>
    have hsame : (r.run x .declare es).current = r.current :=
      (List.cons.inj (stack_run hes x r)).1
    rw [run_append]
    refine ihf (h.run x es) (ihe h hn hcurrent htarget) (hsame ▸ hcurrent) ?_
    rw [hsame, hoistTarget_congr]
    · exact htarget
    · intro j hj
      exact frame?_run_of_lt (Nat.lt_of_le_of_lt hj h.current_lt) x .declare es
  | within kind span name _ ih =>
    have hne := Nat.ne_of_lt (lt_of_names? hn)
    rw [run_within, run_nameSelf, scopes_leave]
    refine ih (h.step x (.enter kind span)) ((names?_enter r kind span i).trans ?_) hne ?_
    · rw [if_neg hne, hn]
    · change i ≠ hoistTarget (r.enter .declare kind span).scopes r.scopes.size
      rw [hoistTarget_enter h.current_lt]
      split
      · exact hne
      · exact htarget

end Rooted

end Resolver

end ScriptLens
