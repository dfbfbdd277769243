import ScriptLens.Proofs.Scope.Frames

/-! # Going down to an offset

The scope at an offset is found by going from the root to the first child that holds the
offset, as long as there is one. If the scopes that hold the offset are those on the way to a
scope, and besides them only children of the way that come later, then the search follows the
way to its end and from there goes at most one step further.
-/
namespace ScriptLens

namespace Resolution
variable {r : Resolution} {o q c : Nat}

def Holds (r : Resolution) (o c : Nat) : Prop :=
  ∃ f, frame? r.scopes c = some f ∧ f.span.contains o = true

theorem holds_iff_any : r.Holds o c ↔ (r.scopes[c]?).any (·.contains o) = true := by
  rw [Option.any_eq_true]
  constructor
  · rintro ⟨f, hf, hholds⟩
    obtain ⟨s, hs, rfl⟩ := frame?_eq_some.mp hf
    exact ⟨s, hs, hholds⟩
  · rintro ⟨s, hs, hholds⟩
    exact ⟨s.frame, frame?_eq_some.mpr ⟨s, hs, rfl⟩, hholds⟩

theorem of_inner? (ht : ScopeTree r.scopes) (h : r.inner? o q = some c) :
    parentOf? r.scopes c = some q ∧ r.Holds o c := by
  obtain ⟨s, hs, hfind⟩ := Option.bind_eq_some_iff.mp h
  have hpred := Array.find?_some hfind
  rw [Bool.and_eq_true] at hpred
  exact ⟨(ht.mem_children_iff hs).mp (Array.mem_of_find?_eq_some hfind),
    holds_iff_any.mpr hpred.2⟩

theorem inner?_eq_some (ht : ScopeTree r.scopes) (ha : Ascending r.scopes)
    (hp : parentOf? r.scopes c = some q) (hc : r.Holds o c)
    (hfirst : ∀ a < c, parentOf? r.scopes a = some q → ¬ r.Holds o a) :
    r.inner? o q = some c := by
  obtain ⟨s, hq⟩ : ∃ s, r.scopes[q]? = some s :=
    ⟨_, Array.getElem?_eq_getElem (ht.parentOf?_lt_size hp)⟩
  have hlt : c < r.scopes.size := lt_of_frame? hc.choose_spec.1
  have hmem := (ht.mem_children_iff hq).mpr hp
  rw [inner?, hq, Option.bind_some, ← Array.find?_toList]
  obtain ⟨as, bs, hsplit⟩ := List.append_of_mem (Array.mem_toList_iff.mpr hmem)
  rw [List.find?_eq_some_iff_append]
  refine ⟨?_, as, bs, hsplit, ?_⟩
  · rw [Bool.and_eq_true, decide_eq_true_iff]
    exact ⟨⟨ht.parentOf?_lt hp, hlt⟩, holds_iff_any.mp hc⟩
  · intro a ha'
    have hpair := ha q _ hq
    rw [hsplit] at hpair
    have hless : a < c := (List.pairwise_append.mp hpair).2.2 a ha' c List.mem_cons_self
    have hchild : a ∈ s.children :=
      Array.mem_toList_iff.mp (hsplit ▸ List.mem_append_left _ ha')
    have hnot := hfirst a hless ((ht.mem_children_iff hq).mp hchild)
    rw [holds_iff_any] at hnot
    simp [Bool.eq_false_iff.mpr hnot]

theorem descend_of_inner? (h : r.inner? o q = some c) : r.descend o q = r.descend o c := by
  rw [descend]
  split
  · next hnone => rw [h] at hnone; cases hnone
  · next hsome =>
    rw [h] at hsome
    cases hsome
    rfl

theorem descend_of_none (h : r.inner? o q = none) : r.descend o q = q := by
  rw [descend]
  split
  · rfl
  · next hsome => rw [h] at hsome; cases hsome

/-- A way from the root through the scopes that hold an offset, up to scopes that come later. -/
structure Surrounded (r : Resolution) (o : Nat) (way : List Nat) (last later : Nat) : Prop where
  reaches : Reaches r.scopes way last
  earlier : ∀ q ∈ way, q < later
  holds : ∀ c, 0 < c → c < later → (r.Holds o c ↔ c ∈ way)
  late : ∀ c, later ≤ c → r.Holds o c → ∃ q ∈ way, parentOf? r.scopes c = some q

namespace Surrounded
variable {way : List Nat} {last later : Nat}

/-- The search follows the way. -/
theorem descend_eq (h : r.Surrounded o way last later) (ht : ScopeTree r.scopes)
    (ha : Ascending r.scopes) : r.descend o 0 = r.descend o last := by
  have hpart : ∀ above w c, way = above ++ w → Reaches r.scopes w c →
      r.descend o 0 = r.descend o c := by
    intro above w c hway hw
    induction hw generalizing above with
    | root => rfl
    | @child w q c s parent known listed ih =>
      have hp := (ht.mem_children_iff known).mp listed
      have hlt := ht.parentOf?_lt hp
      have hmem : c ∈ way := by simp [hway]
      rw [ih (above ++ [c]) (by simp [hway])]
      refine descend_of_inner? (inner?_eq_some ht ha hp ?_ ?_)
      · exact (h.holds c (Nat.zero_lt_of_lt hlt) (h.earlier c hmem)).mpr hmem
      · intro a hac hap hholds
        have hqa := ht.parentOf?_lt hap
        have hain := (h.holds a (Nat.zero_lt_of_lt hqa)
          (Nat.lt_trans hac (h.earlier c hmem))).mp hholds
        have hpair := h.reaches.pairwise ht
        rw [hway] at hpair hain
        rcases List.mem_append.mp hain with hain | hain
        · have hgt := (List.pairwise_append.mp hpair).2.2 a hain c List.mem_cons_self
          exact Nat.lt_asymm hac hgt
        · rcases List.mem_cons.mp hain with rfl | hain
          · exact Nat.lt_irrefl _ hac
          · exact Nat.not_lt.mpr (parent.le_of_mem ht hain) hqa
  exact hpart [] way last rfl h.reaches

/-- From the end of the way the search goes to a later child at most. -/
theorem descend_last (h : r.Surrounded o way last later) (ht : ScopeTree r.scopes) :
    r.descend o last = last ∨ ∃ c, later ≤ c ∧ r.descend o last = c ∧ r.Holds o c ∧
      parentOf? r.scopes c = some last := by
  cases hinner : r.inner? o last with
  | none => exact .inl (descend_of_none hinner)
  | some c =>
    obtain ⟨hp, hholds⟩ := of_inner? ht hinner
    have hlt := ht.parentOf?_lt hp
    have hlate : later ≤ c := by
      by_contra hearly
      have hmem := (h.holds c (Nat.zero_lt_of_lt hlt) (Nat.not_le.mp hearly)).mp hholds
      exact Nat.not_lt.mpr (h.reaches.le_of_mem ht hmem) hlt
    refine .inr ⟨c, hlate, ?_, hholds, hp⟩
    rw [descend_of_inner? hinner]
    refine descend_of_none (Option.eq_none_iff_forall_ne_some.mpr fun d hd => ?_)
    -- A child of the later scope would have its parent on the way.
    obtain ⟨hdp, hdholds⟩ := of_inner? ht hd
    have hcd := ht.parentOf?_lt hdp
    obtain ⟨q, hq, hqp⟩ := h.late d (Nat.le_trans hlate (Nat.le_of_lt hcd)) hdholds
    rw [hdp] at hqp
    cases hqp
    exact Nat.not_lt.mpr hlate (h.earlier c hq)

end Surrounded

end Resolution

end ScriptLens
