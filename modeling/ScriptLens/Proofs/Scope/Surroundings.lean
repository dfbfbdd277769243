import ScriptLens.Proofs.Scope.Frames
import ScriptLens.Proofs.Scope.Positions

/-! # The scopes around a use

When the first pass comes to a use, the scopes that hold it are those that are open. Of the
scopes that are opened after it only late ones hold it: each of them stands in a scope that is
open at the use, and it belongs to a `switch` statement or has no names.
-/
namespace ScriptLens

open Event

theorem Event.Shape.head_not_nameSelf {es : List Event} (h : Shape es) (rest : List Event) :
    ∀ e ∈ (es ++ .leave :: rest).head?, e.isNameSelf = false := by
  intro e he
  cases es with
  | nil =>
    cases he
    rfl
  | cons first others =>
    cases he
    have hfollows := (List.isChain_cons_cons.mp h.isChain).1
    by_contra hself
    cases hfollows (by simpa using hself)

namespace Resolver
variable {r : Resolver} {x : Index} {o i : Nat} {es fs : List Event}

theorem Rooted.names?_run_quiet (hes : Quiet es) (h : r.Rooted) {n : Array (String × Nat)}
    (hn : names? r.scopes i = some n) (x : Index) :
    names? (r.run x .declare es).scopes i = some n := by
  induction hes generalizing r with
  | nil | refer | property => exact hn
  | append _ _ ihe ihf =>
    rw [run_append]
    exact ihf (h.run x _) (ihe h hn)
  | function span name inside =>
    have hne := Nat.ne_of_lt (lt_of_names? hn)
    have hentered := (names?_enter r .function span i).trans ((if_neg hne).trans hn)
    rw [run_within, run_nameSelf, scopes_leave]
    refine names?_run_shape inside (h.step x (.enter .function span)) hentered hne ?_ x
    change i ≠ hoistTarget (r.enter .declare .function span).scopes r.scopes.size
    rw [hoistTarget_enter h.current_lt]
    exact hne
  | «class» span name _ ih =>
    have hne := Nat.ne_of_lt (lt_of_names? hn)
    have hentered := (names?_enter r .block span i).trans ((if_neg hne).trans hn)
    rw [run_within, scopes_leave, run_cons]
    refine ih ((h.step x (.enter .block span)).step x _) ?_
    change names? ((r.enter .declare .block span).declare x .classDecl name).scopes i = some n
    unfold Resolver.declare
    split
    · exact hentered
    · rw [names?_bind, hentered]
      exact hne

theorem not_contains_of_avoids (hes : Avoids o es) (x : Index) (r : Resolver) {c : Nat} {f : Frame}
    (hc : r.scopes.size ≤ c) (hf : frame? (r.run x .declare es).scopes c = some f) :
    f.span.contains o = false := by
  induction es generalizing r with
  | nil => exact absurd (lt_of_frame? hf) (Nat.not_lt.mpr hc)
  | cons e rest ih =>
    have hrest : Avoids o rest := fun kind span he => hes kind span (List.mem_cons_of_mem e he)
    have hsize := size_step x r e
    cases e with
    | enter kind span =>
      obtain ⟨hplaced, havoids⟩ := hes kind span List.mem_cons_self
      rcases Nat.eq_or_lt_of_le hc with rfl | hlt
      · have hnew : frame? (r.enter .declare kind span).scopes r.scopes.size =
            some ⟨some r.current, kind, span⟩ := by
          rw [scopes_enter r kind hplaced, frame?_withScope, if_pos rfl]
        have hkept := frame?_run hnew x .declare rest
        rw [run_cons] at hf
        cases hkept.symm.trans hf
        exact havoids
      · exact ih hrest _ (by rw [hsize]; exact hlt) hf
    | _ => exact ih hrest _ (by rw [hsize]; exact hc) hf

/-- But for the root, the scopes that hold an offset are those that are open. -/
def Surrounds (o : Nat) (r : Resolver) : Prop :=
  ∀ c f, 0 < c → frame? r.scopes c = some f → (f.span.contains o = true ↔ c ∈ r.stack)

theorem Surrounds.run (hr : r.Surrounds o) (h : r.Rooted) (hes : Leads o es) (x : Index) :
    (r.run x .declare es).Surrounds o := by
  induction hes generalizing r with
  | nil => exact hr
  | @past es rest shape avoids _ ih =>
    rw [run_append]
    refine ih ?_ (h.run x es)
    intro c f hc hf
    rw [stack_run shape]
    by_cases hlt : c < r.scopes.size
    · rw [frame?_run_of_lt hlt] at hf
      exact hr c f hc hf
    · rw [not_contains_of_avoids avoids x r (Nat.not_lt.mp hlt) hf]
      exact ⟨(by cases ·), fun hmem => absurd (h.mem_stack_lt hmem) hlt⟩
  | @into kind span name rest placed holds _ ih =>
    rw [run_cons, run_nameSelf]
    refine ih ?_ (h.step x (.enter kind span))
    intro c f hc hf
    change frame? (r.enter .declare kind span).scopes c = some f at hf
    change _ ↔ c ∈ (r.enter .declare kind span).stack
    rw [scopes_enter r kind placed, frame?_withScope] at hf
    rw [stack_enter, List.mem_cons]
    split at hf
    · next heq =>
      cases hf
      exact ⟨fun _ => .inl heq, fun _ => holds⟩
    · next hne => rw [hr c f hc hf, or_iff_right hne]

/-- The scope with a number is opened among events, the first of which opens the scope with
another number, and no function names itself in it. -/
def Unnamed (es : List Event) (first c : Nat) : Prop :=
  ∃ before kind span after, es = before ++ .enter kind span :: after ∧
    c = first + enters before ∧ ∀ e ∈ after.head?, e.isNameSelf = false

theorem Unnamed.prepend {first c : Nat} (h : Unnamed es (first + enters fs) c) :
    Unnamed (fs ++ es) first c := by
  obtain ⟨before, kind, span, after, rfl, rfl, hhead⟩ := h
  refine ⟨fs ++ before, kind, span, after, (List.append_assoc ..).symm, ?_, hhead⟩
  rw [enters, enters, enters, List.countP_append, Nat.add_assoc]

/-- A scope that holds an offset though it is opened after it. -/
structure Belated (switch : Span → Prop) (opened : List Nat) (es : List Event) (r : Resolver)
    (x : Index) (c : Nat) (f : Frame) : Prop where
  parent : ∃ q ∈ opened, f.parent = some q
  kind : f.kind = .block ∧ switch f.span ∨
    names? (r.run x .declare es).scopes c = some #[] ∧ Unnamed es r.scopes.size c

variable {switch : Span → Prop} {opened : List Nat} {c : Nat} {f : Frame}

theorem Belated.prepend (h : Belated switch opened es (r.run x .declare fs) x c f) :
    Belated switch opened (fs ++ es) r x c f := by
  refine ⟨h.parent, h.kind.imp id ?_⟩
  rintro ⟨hnames, hunnamed⟩
  rw [size_run] at hunnamed
  rw [run_append]
  exact ⟨hnames, hunnamed.prepend⟩

theorem Rooted.belated_within (h : r.Rooted) (hopened : ∀ q ∈ r.stack, q ∈ opened)
    {kind : ScopeKind} {span : Span} {body : List Event} (placed : span.isNowhere = false)
    (opens : Late switch kind span body) (shape : Shape body)
    (hf : frame? (r.run x .declare (within kind span body ++ es)).scopes r.scopes.size = some f) :
    Belated switch opened (within kind span body ++ es) r x r.scopes.size f := by
  have hnew : frame? (r.enter .declare kind span).scopes r.scopes.size =
      some ⟨some r.current, kind, span⟩ := by
    rw [scopes_enter r kind placed, frame?_withScope, if_pos rfl]
  have hrun : r.run x .declare (within kind span body ++ es) =
      (r.run x .declare (within kind span body)).run x .declare es := run_append ..
  have hkept : frame? (r.run x .declare (within kind span body)).scopes r.scopes.size =
      some ⟨some r.current, kind, span⟩ := by
    rw [run_within, scopes_leave]
    exact frame?_run hnew x .declare body
  rw [hrun, frame?_run hkept] at hf
  cases hf
  refine ⟨⟨r.current, hopened _ List.mem_cons_self, rfl⟩, ?_⟩
  cases opens with
  | switch known => exact .inl ⟨rfl, known⟩
  | field quiet =>
    have hnone : names? (r.enter .declare .function span).scopes r.scopes.size = some #[] :=
      (names?_enter ..).trans (if_pos rfl)
    have hinside : names? (r.run x .declare (within .function span body)).scopes r.scopes.size =
        some #[] := by
      rw [run_within, scopes_leave]
      exact (h.step x (.enter .function span)).names?_run_quiet quiet hnone x
    have hleft : r.scopes.size ∉ (r.run x .declare (within .function span body)).stack := by
      rw [stack_run (shape.plain .function span)]
      exact fun hmem => Nat.lt_irrefl _ (h.mem_stack_lt hmem)
    refine .inr ⟨?_, [], .function, span, body ++ .leave :: es, ?_, rfl,
      shape.head_not_nameSelf es⟩
    · rw [hrun]
      exact (h.run x _).names?_run hinside hleft x es
    · simp [within]

theorem Rooted.belated (h : r.Rooted) (hes : Trails switch o es)
    (hopened : ∀ q ∈ r.stack, q ∈ opened) (hc : r.scopes.size ≤ c)
    (hf : frame? (r.run x .declare es).scopes c = some f) (hholds : f.span.contains o = true) :
    Belated switch opened es r x c f := by
  induction hes generalizing r with
  | nil => exact absurd (lt_of_frame? hf) (Nat.not_lt.mpr hc)
  | @past es rest shape avoids _ ih =>
    rw [run_append] at hf
    by_cases hlt : c < (r.run x .declare es).scopes.size
    · rw [frame?_run_of_lt hlt] at hf
      rw [not_contains_of_avoids avoids x r hc hf] at hholds
      cases hholds
    · refine Belated.prepend (ih (h.run x es) ?_ (Nat.not_lt.mp hlt) hf)
      rw [stack_run shape]
      exact hopened
  | @out rest _ ih =>
    have hsize : (r.run x .declare [.leave]).scopes.size = r.scopes.size :=
      congrArg Array.size (scopes_leave r)
    rw [← List.singleton_append] at *
    refine Belated.prepend (ih (h.run x [.leave]) ?_ (hsize ▸ hc) hf)
    intro q hq
    exact hopened q (mem_stack_leave hq)
  | @late kind span body rest placed opens shape avoids _ ih =>
    rcases Nat.eq_or_lt_of_le hc with rfl | hgt
    · exact h.belated_within hopened placed opens shape hf
    · rw [run_append] at hf
      by_cases hlt : c < (r.run x .declare (within kind span body)).scopes.size
      · rw [frame?_run_of_lt hlt, run_within, scopes_leave] at hf
        have hentered : (r.enter .declare kind span).scopes.size ≤ c :=
          (size_create r kind span).trans_le hgt
        rw [not_contains_of_avoids avoids x _ hentered hf] at hholds
        cases hholds
      · refine Belated.prepend (ih (h.run x _) ?_ (Nat.not_lt.mp hlt) hf)
        rw [stack_run (shape.plain kind span)]
        exact hopened

/-! ## The second pass -/

theorem enter_resolve {kind : ScopeKind} {span : Span}
    (h : r.Replays (enters (.enter kind span :: es))) :
    (r.enter .resolve kind span).scopes = r.scopes ∧
    (r.enter .resolve kind span).replay = r.replay + 1 ∧
    (r.enter .resolve kind span).stack = (r.replay + 1) :: r.stack := by
  rw [enters_cons] at h
  rw [enter_eq h]
  exact ⟨rfl, rfl, rfl⟩

theorem replay_step {e : Event} (h : r.Replays (enters (e :: es))) (x : Index) :
    (r.step x .resolve e).replay = r.replay + if e.isEnter then 1 else 0 := by
  cases e with
  | enter kind span => exact (enter_resolve h).2.1
  | leave =>
    simp only [step, Resolver.leave]
    split <;> rfl
  | refer id => exact (refer_stays x r id).replay
  | nameSelf id => exact (nameSelf_stays x r id).replay
  | _ => rfl

theorem replay_run {rest : List Event} (h : r.Replays (enters (es ++ rest))) (x : Index) :
    (r.run x .resolve es).replay = r.replay + enters es := by
  induction es generalizing r with
  | nil => rfl
  | cons e es ih =>
    rw [run_cons, ih (h.step x), replay_step h, enters_cons]
    omega

theorem stack_leave_congr {d : Resolver} (h : r.stack = d.stack) :
    r.leave.stack = d.leave.stack := by
  obtain ⟨hcurrent, houter⟩ := List.cons.inj h
  unfold Resolver.leave
  rw [houter]
  split
  · exact h
  · rfl

/-- The second pass has the same scopes open as the first has at the same event. -/
theorem stack_run_resolve {d : Resolver} {rest : List Event} (hd : d.Numbered)
    (hr : r.Replays (enters (es ++ rest))) (hstack : r.stack = d.stack)
    (hreplay : r.replay = d.order.size) :
    (r.run x .resolve es).stack = (d.run x .declare es).stack := by
  induction es generalizing r d with
  | nil => exact hstack
  | cons e es ih =>
    refine ih (hd.step x e) (hr.step x) ?_ ?_
    · cases e with
      | enter kind span =>
        refine (enter_resolve hr).2.2.trans ?_
        rw [hreplay, hstack, ← hd.size_eq]
        exact (stack_enter d kind span).symm
      | leave => exact stack_leave_congr hstack
      | declare kind id => exact hstack.trans (declare_stays x d kind id).stack.symm
      | refer id => exact (refer_stays x r id).stack.trans hstack
      | nameSelf id => exact (nameSelf_stays x r id).stack.trans hstack
      | property id => exact hstack
    · rw [replay_step hr, size_order_step, hreplay]

/-- The second pass does not touch the scopes that it has not entered. -/
theorem scopes_run_ahead {rest : List Event} (h : r.Replays (enters (es ++ rest))) (x : Index)
    (hi : r.replay + enters es < i) : (r.run x .resolve es).scopes[i]? = r.scopes[i]? := by
  induction es generalizing r with
  | nil => rfl
  | cons e es ih =>
    have hreplay := replay_step h x
    rw [enters_cons] at hi
    rw [run_cons, ih (h.step x) (by omega)]
    cases e with
    | enter kind span => exact congrArg (fun scopes => scopes[i]?) (enter_resolve h).1
    | leave => exact congrArg (fun scopes => scopes[i]?) (scopes_leave r)
    | refer id => exact congrArg (fun scopes => scopes[i]?) (scopes_refer x r id)
    | nameSelf id =>
      have hcurrent := h.current_le
      exact scopes_nameSelf x r id (by omega)
    | _ => rfl

theorem size_run_resolve {rest : List Event} (h : r.Replays (enters (es ++ rest))) (x : Index) :
    (r.run x .resolve es).scopes.size = r.scopes.size := by
  induction es generalizing r with
  | nil => rfl
  | cons e es ih =>
    rw [run_cons, ih (h.step x)]
    cases e with
    | enter kind span => exact congrArg Array.size (enter_resolve h).1
    | leave => exact congrArg Array.size (scopes_leave r)
    | refer id => exact (refer_stays x r id).size
    | nameSelf id => exact (nameSelf_stays x r id).size
    | _ => rfl

end Resolver

end ScriptLens
