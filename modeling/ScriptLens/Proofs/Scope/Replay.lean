import ScriptLens.Proofs.Scope.Nodes
import ScriptLens.Proofs.Scope.Shape

/-! # The second pass walks through the scopes of the first

The first pass numbers scopes as it enters them, so the second pass, which sees the same
events, enters each of them again at the same place and opens none. It holds only scopes
that it has entered, and after it has gone on from the start of a scope it does not change
that scope any more.
-/
namespace ScriptLens

def Event.enters (es : List Event) : Nat := es.countP Event.isEnter

theorem Event.enters_cons (e : Event) (es : List Event) :
    Event.enters (e :: es) = Event.enters es + if e.isEnter then 1 else 0 := List.countP_cons

namespace Resolver

variable {r : Resolver}

/-! ## The first pass -/

/-- Every scope but the global one stands in the order of entering, at its number. -/
structure Numbered (r : Resolver) : Prop where
  size_eq : r.scopes.size = r.order.size + 1
  order_eq : ∀ i < r.order.size, r.order[i]? = some (i + 1)

namespace Numbered

theorem stays {after : Resolver} (h : r.Numbered) (hs : r.Stays after) : after.Numbered := by
  refine ⟨?_, ?_⟩
  · rw [hs.size, hs.order]
    exact h.size_eq
  · rw [hs.order]
    exact h.order_eq

theorem enter (h : r.Numbered) (kind : ScopeKind) (span : Span) :
    (r.enter .declare kind span).Numbered := by
  have hsize : (r.enter .declare kind span).scopes.size = r.scopes.size + 1 :=
    size_create r kind span
  have horder : (r.enter .declare kind span).order = r.order.push r.scopes.size := rfl
  refine ⟨?_, ?_⟩
  · rw [hsize, horder, Array.size_push, h.size_eq]
  · rw [horder]
    intro i hi
    rw [Array.getElem?_push]
    split
    · next hlast => rw [hlast, h.size_eq]
    · next hlast =>
      rw [Array.size_push] at hi
      exact h.order_eq i (by omega)

theorem leave (h : r.Numbered) : r.leave.Numbered := by
  unfold Resolver.leave
  split
  · exact h
  · exact ⟨h.size_eq, h.order_eq⟩

theorem step (h : r.Numbered) (x : Index) (e : Event) : (r.step x .declare e).Numbered := by
  cases e with
  | enter kind span => exact h.enter kind span
  | leave => exact h.leave
  | declare kind id => exact h.stays (declare_stays x r kind id)
  | _ => exact h

theorem run (h : r.Numbered) (x : Index) (es : List Event) : (r.run x .declare es).Numbered := by
  induction es generalizing r with
  | nil => exact h
  | cons e rest ih => exact ih (h.step x e)

end Numbered

theorem size_order_step (x : Index) (r : Resolver) (e : Event) :
    (r.step x .declare e).order.size = r.order.size + if e.isEnter then 1 else 0 := by
  cases e with
  | enter kind span => exact Array.size_push _
  | leave =>
    simp only [step, Resolver.leave]
    split <;> rfl
  | declare kind id =>
    have hs := declare_stays x r kind id
    exact congrArg Array.size hs.order
  | _ => rfl

theorem size_order_run (x : Index) (r : Resolver) (es : List Event) :
    (r.run x .declare es).order.size = r.order.size + Event.enters es := by
  induction es generalizing r with
  | nil => rfl
  | cons e rest ih =>
    rw [run_cons, ih, size_order_step, Event.enters_cons]
    omega

/-! ## The second pass -/

/-- The second pass, with so many scopes still to enter. -/
structure Replays (r : Resolver) (left : Nat) : Prop where
  order_eq : ∀ i < r.order.size, r.order[i]? = some (i + 1)
  left_eq : r.replay + left = r.order.size
  current_le : r.current ≤ r.replay
  outer_le : ∀ s ∈ r.outer, s ≤ r.replay

/-- With a scope left to enter, the next one in number becomes the current one. -/
theorem enter_eq {left : Nat} (h : r.Replays (left + 1)) (kind : ScopeKind) (span : Span) :
    r.enter .resolve kind span =
      { r with
        replay := r.replay + 1
        current := r.replay + 1
        outer := r.current :: r.outer } := by
  have hlt : r.replay < r.order.size := by
    have := h.left_eq
    omega
  simp only [Resolver.enter, h.order_eq r.replay hlt]
  rfl

namespace Replays
variable {left : Nat}

theorem stays {after : Resolver} (h : r.Replays left) (hs : r.Stays after) :
    after.Replays left := by
  refine ⟨?_, ?_, ?_, ?_⟩
  · rw [hs.order]
    exact h.order_eq
  · rw [hs.replay, hs.order]
    exact h.left_eq
  · rw [hs.current, hs.replay]
    exact h.current_le
  · rw [hs.outer, hs.replay]
    exact h.outer_le

theorem enter (h : r.Replays (left + 1)) (kind : ScopeKind) (span : Span) :
    (r.enter .resolve kind span).Replays left := by
  rw [enter_eq h]
  refine ⟨h.order_eq, ?_, Nat.le_refl _, ?_⟩
  · have hleft := h.left_eq
    show r.replay + 1 + left = r.order.size
    omega
  · intro s hs
    rcases List.mem_cons.mp hs with rfl | hs
    · exact Nat.le_succ_of_le h.current_le
    · exact Nat.le_succ_of_le (h.outer_le s hs)

theorem leave (h : r.Replays left) : r.leave.Replays left := by
  unfold Resolver.leave
  split
  · exact h
  · next scope rest hout =>
    refine ⟨h.order_eq, h.left_eq, h.outer_le scope (by simp [hout]), ?_⟩
    intro s hs
    exact h.outer_le s (by simp [hout, hs])

theorem step {e : Event} {es : List Event} (h : r.Replays (Event.enters (e :: es))) (x : Index) :
    (r.step x .resolve e).Replays (Event.enters es) := by
  rw [Event.enters_cons] at h
  cases e with
  | enter kind span => exact Replays.enter h kind span
  | leave => exact h.leave
  | refer id => exact h.stays (refer_stays x r id)
  | nameSelf id => exact h.stays (nameSelf_stays x r id)
  | _ => exact h

theorem run {es rest : List Event} (h : r.Replays (Event.enters (es ++ rest))) (x : Index) :
    (r.run x .resolve es).Replays (Event.enters rest) := by
  induction es generalizing r with
  | nil => exact h
  | cons e es ih => exact ih (h.step x)

end Replays

theorem scopes_refer (x : Index) (r : Resolver) (id : Ident) :
    (r.refer x id).scopes = r.scopes := by
  unfold Resolver.refer
  split
  · rfl
  · split
    · rfl
    · split <;> rfl

theorem scopes_nameSelf (x : Index) (r : Resolver) (id : Ident) {i : Nat} (hi : i ≠ r.current) :
    (r.nameSelf x id).scopes[i]? = r.scopes[i]? := by
  simp only [Resolver.nameSelf]
  split
  · rfl
  · split
    · rfl
    · unfold Resolver.bind
      split
      · rfl
      · exact (Array.getElem?_modify ..).trans (if_neg (Ne.symm hi))

/-- Once something else than its own name has happened in a scope, the scope stays as it is,
and so do the scopes entered before it. -/
theorem scopes_run {last : Event} {es : List Event} (h : r.Replays (Event.enters es))
    (hchain : List.IsChain Event.Follows (last :: es)) (x : Index) {i : Nat} (hi : i ≤ r.replay)
    (hlast : last.isEnter = true → i < r.current) :
    (r.run x .resolve es).scopes[i]? = r.scopes[i]? := by
  induction es generalizing r last with
  | nil => rfl
  | cons e rest ih =>
    obtain ⟨hfollows, hrest⟩ := List.isChain_cons_cons.mp hchain
    rw [run_cons]
    cases e with
    | enter kind span =>
      have hleft : r.Replays (Event.enters rest + 1) := by
        rw [Event.enters_cons] at h
        exact h
      have heq : r.step x .resolve (.enter kind span) = _ := enter_eq hleft kind span
      have hnext := ih (h.step x) hrest (by rw [heq]; exact Nat.le_succ_of_le hi)
        (fun _ => by rw [heq]; exact Nat.lt_succ_of_le hi)
      rw [hnext, heq]
    | leave =>
      have hscopes : (r.step x .resolve .leave).scopes = r.scopes := by
        simp only [step, Resolver.leave]
        split <;> rfl
      have hreplay : (r.step x .resolve .leave).replay = r.replay := by
        simp only [step, Resolver.leave]
        split <;> rfl
      rw [ih (h.step x) hrest (hreplay ▸ hi) (fun hself => by cases hself), hscopes]
    | refer id =>
      have hs := refer_stays x r id
      have hnext := ih (h.step x) hrest (hs.replay ▸ hi) (fun hself => by cases hself)
      rw [hnext]
      exact congrArg (·[i]?) (scopes_refer x r id)
    | nameSelf id =>
      have hlt := hlast (hfollows rfl)
      have hs := nameSelf_stays x r id
      have hnext := ih (h.step x) hrest (hs.replay ▸ hi) (fun hself => by cases hself)
      rw [hnext]
      exact scopes_nameSelf x r id (Nat.ne_of_lt hlt)
    | declare kind id => exact ih (h.step x) hrest hi (fun hself => by cases hself)
    | property id => exact ih (h.step x) hrest hi (fun hself => by cases hself)

end Resolver

theorem Program.declared_replays (p : Program) (x : Index) :
    (p.declared x).Replays (Event.enters p.events) := by
  have hstart : (Resolver.start p.span).Numbered := by
    refine ⟨rfl, ?_⟩
    intro i hi
    exact absurd hi (Nat.not_lt_zero i)
  have hsize := Resolver.size_order_run x (Resolver.start p.span) p.events
  refine ⟨(hstart.run x p.events).order_eq, ?_, Nat.zero_le _, ?_⟩
  · show 0 + Event.enters p.events = _
    rw [Nat.zero_add]
    exact (hsize.trans (Nat.zero_add _)).symm
  · intro s hs
    cases hs

end ScriptLens
