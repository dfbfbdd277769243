import Mathlib.Data.List.Count
import Mathlib.Data.List.Nodup
import ScriptLens.Scope.Resolve

/-! # The graph of scopes and bindings

Scopes form a tree that is numbered from its root downwards, and the names that a scope
holds are exactly the bindings that belong to it. Both hold of the global scope alone,
and new scopes and new names keep them.
-/
namespace ScriptLens

def parentOf? (scopes : Array ScopeRecord) (i : Nat) : Option Nat := (scopes[i]?).bind (·.parent)

def boundIn? (scopes : Array ScopeRecord) (i : Nat) (name : String) : Option Nat :=
  (scopes[i]?).bind (·.binding? name)

/-- A table of scopes that is a tree with the first scope as its root. -/
structure ScopeTree (scopes : Array ScopeRecord) : Prop where
  scope_id : ∀ {i : Nat} {s : ScopeRecord}, scopes[i]? = some s → s.id = i
  root_parent : ∃ s, scopes[0]? = some s ∧ s.parent = none
  parent_lt : ∀ {i : Nat} {s : ScopeRecord}, scopes[i]? = some s → 0 < i →
    ∃ p, s.parent = some p ∧ p < i
  /-- A scope stands once among the children of its parent and never among those of another. -/
  count_child : ∀ {q : Nat} {s : ScopeRecord} (c : Nat), scopes[q]? = some s →
    s.children.toList.count c = if parentOf? scopes c = some q then 1 else 0

/-- A tree of scopes with the bindings of their names. -/
structure ScopeGraph (scopes : Array ScopeRecord) (bindings : Array BindingRecord) : Prop
    extends ScopeTree scopes where
  binding_id : ∀ {b : Nat} {β : BindingRecord}, bindings[b]? = some β → β.id = b
  bound_iff : ∀ (i : Nat) (name : String) (b : Nat), boundIn? scopes i name = some b ↔
    ∃ β, bindings[b]? = some β ∧ β.scope = i ∧ β.name = name
  names_nodup : ∀ {i : Nat} {s : ScopeRecord}, scopes[i]? = some s →
    (s.names.toList.map (·.1)).Nodup

/-- A way from the root to a scope, from child to child, with the scope itself in front. -/
inductive Reaches (scopes : Array ScopeRecord) : List Nat → Nat → Prop where
  | root : Reaches scopes [0] 0
  | child {way : List Nat} {q c : Nat} {s : ScopeRecord} (parent : Reaches scopes way q)
      (known : scopes[q]? = some s) (listed : c ∈ s.children) : Reaches scopes (c :: way) c

theorem parentOf?_eq_some {scopes : Array ScopeRecord} {i p : Nat} :
    parentOf? scopes i = some p ↔ ∃ s, scopes[i]? = some s ∧ s.parent = some p := by
  simp [parentOf?, Option.bind_eq_some_iff]

theorem boundIn?_eq_some {scopes : Array ScopeRecord} {i b : Nat} {name : String} :
    boundIn? scopes i name = some b ↔ ∃ s, scopes[i]? = some s ∧ s.binding? name = some b := by
  simp [boundIn?, Option.bind_eq_some_iff]

theorem ScopeRecord.binding?_eq_none_iff {s : ScopeRecord} {name : String} :
    s.binding? name = none ↔ name ∉ s.names.toList.map (·.1) := by
  simp only [binding?, Option.map_eq_none_iff, Array.find?_eq_none, beq_iff_eq, List.mem_map,
    Array.mem_toList_iff, not_exists, not_and]

theorem ScopeRecord.binding?_push (s : ScopeRecord) (entry : String × Nat) (name : String) :
    ScopeRecord.binding? { s with names := s.names.push entry } name =
      (s.binding? name).or (if entry.1 = name then some entry.2 else none) := by
  simp only [binding?, Array.find?_push, beq_iff_eq]
  cases s.names.find? (·.1 == name) with
  | some found => simp
  | none => by_cases h : entry.1 = name <;> simp [h]

theorem boundIn?_modify_names {scopes : Array ScopeRecord} {i : Nat} (hi : i < scopes.size)
    (entry : String × Nat) (j : Nat) (name : String) :
    boundIn? (scopes.modify i fun s => { s with names := s.names.push entry }) j name =
      (boundIn? scopes j name).or (if i = j ∧ entry.1 = name then some entry.2 else none) := by
  simp only [boundIn?, Array.getElem?_modify]
  by_cases hij : i = j
  · subst hij
    simp only [Array.getElem?_eq_getElem hi, ↓reduceIte, Option.map_some, Option.bind_some,
      ScopeRecord.binding?_push, true_and]
  · simp [hij]

def withScope (scopes : Array ScopeRecord) (q : Nat) (kind : ScopeKind) (span : Span) :
    Array ScopeRecord :=
  (scopes.modify q fun s => { s with children := s.children.push scopes.size }).push
    ⟨scopes.size, some q, kind, span, #[], #[]⟩

theorem getElem?_withScope (scopes : Array ScopeRecord) (q : Nat) (kind : ScopeKind) (span : Span)
    (i : Nat) :
    (withScope scopes q kind span)[i]? =
      if i = scopes.size then some ⟨scopes.size, some q, kind, span, #[], #[]⟩
      else if q = i then
        (scopes[i]?).map fun s => { s with children := s.children.push scopes.size }
      else scopes[i]? := by
  rw [withScope, Array.getElem?_push, Array.size_modify, Array.getElem?_modify]

theorem parentOf?_withScope (scopes : Array ScopeRecord) (q : Nat) (kind : ScopeKind) (span : Span)
    (i : Nat) :
    parentOf? (withScope scopes q kind span) i =
      if i = scopes.size then some q else parentOf? scopes i := by
  simp only [parentOf?, getElem?_withScope]
  by_cases hi : i = scopes.size
  · simp [hi]
  · by_cases hq : q = i
    · cases scopes[i]? <;> simp [hi, hq]
    · simp [hi, hq]

theorem boundIn?_withScope (scopes : Array ScopeRecord) (q : Nat) (kind : ScopeKind) (span : Span)
    (i : Nat) (name : String) :
    boundIn? (withScope scopes q kind span) i name = boundIn? scopes i name := by
  simp only [boundIn?, getElem?_withScope]
  by_cases hi : i = scopes.size
  · simp [hi, ScopeRecord.binding?]
  · by_cases hq : q = i
    · cases scopes[i]? <;> simp [hi, hq, ScopeRecord.binding?]
    · simp [hi, hq]

/-- What the tree reads of a scope. -/
def ScopeRecord.links (s : ScopeRecord) : Nat × Option Nat × Array Nat :=
  (s.id, s.parent, s.children)

namespace ScopeTree
variable {scopes : Array ScopeRecord}

theorem size_pos (h : ScopeTree scopes) : 0 < scopes.size := by
  obtain ⟨s, hs, _⟩ := h.root_parent
  exact (Array.getElem?_eq_some_iff.mp hs).1

theorem parentOf?_zero (h : ScopeTree scopes) : parentOf? scopes 0 = none := by
  obtain ⟨s, hs, hp⟩ := h.root_parent
  simp [parentOf?, hs, hp]

theorem parentOf?_lt (h : ScopeTree scopes) {i p : Nat} (hp : parentOf? scopes i = some p) :
    p < i := by
  obtain ⟨s, hs, hsp⟩ := parentOf?_eq_some.mp hp
  rcases Nat.eq_zero_or_pos i with rfl | hi
  · simp [h.parentOf?_zero] at hp
  · obtain ⟨q, hq, hlt⟩ := h.parent_lt hs hi
    rw [hsp] at hq
    cases hq
    exact hlt

theorem parentOf?_lt_size (h : ScopeTree scopes) {i p : Nat} (hp : parentOf? scopes i = some p) :
    p < scopes.size := by
  obtain ⟨s, hs, _⟩ := parentOf?_eq_some.mp hp
  exact Nat.lt_trans (h.parentOf?_lt hp) (Array.getElem?_eq_some_iff.mp hs).1

theorem mem_children_iff (h : ScopeTree scopes) {q c : Nat} {s : ScopeRecord}
    (hs : scopes[q]? = some s) : c ∈ s.children ↔ parentOf? scopes c = some q := by
  rw [← Array.mem_toList_iff, ← List.count_pos_iff, h.count_child c hs]
  by_cases hp : parentOf? scopes c = some q <;> simp [hp]

theorem congr {after : Array ScopeRecord} (h : ScopeTree scopes)
    (hlinks : ∀ i : Nat, (after[i]?).map ScopeRecord.links = (scopes[i]?).map ScopeRecord.links) :
    ScopeTree after := by
  have old : ∀ {i : Nat} {s : ScopeRecord}, after[i]? = some s →
      ∃ t, scopes[i]? = some t ∧ s.links = t.links := by
    intro i s hs
    have hi := hlinks i
    rw [hs, Option.map_some] at hi
    obtain ⟨t, ht, heq⟩ := Option.map_eq_some_iff.mp hi.symm
    exact ⟨t, ht, heq.symm⟩
  have hparent : ∀ i, parentOf? after i = parentOf? scopes i := by
    intro i
    have hi := congrArg (Option.bind · (fun l => l.2.1)) (hlinks i)
    simpa [parentOf?, Option.bind_map, Function.comp_def, ScopeRecord.links] using hi
  constructor
  · intro i s hs
    obtain ⟨t, ht, heq⟩ := old hs
    simp only [ScopeRecord.links, Prod.mk.injEq] at heq
    exact heq.1.trans (h.scope_id ht)
  · obtain ⟨s, hs, hp⟩ := h.root_parent
    have h0 := hlinks 0
    rw [hs, Option.map_some] at h0
    obtain ⟨t, ht, heq⟩ := Option.map_eq_some_iff.mp h0
    simp only [ScopeRecord.links, Prod.mk.injEq] at heq
    exact ⟨t, ht, heq.2.1.trans hp⟩
  · intro i s hs hi
    obtain ⟨t, ht, heq⟩ := old hs
    simp only [ScopeRecord.links, Prod.mk.injEq] at heq
    rw [heq.2.1]
    exact h.parent_lt ht hi
  · intro q s c hs
    obtain ⟨t, ht, heq⟩ := old hs
    simp only [ScopeRecord.links, Prod.mk.injEq] at heq
    rw [heq.2.2, hparent]
    exact h.count_child c ht

theorem withScope (h : ScopeTree scopes) {q : Nat} (hq : q < scopes.size) (kind : ScopeKind)
    (span : Span) : ScopeTree (withScope scopes q kind span) := by
  constructor
  · intro i s hs
    rw [getElem?_withScope] at hs
    split at hs
    · next hi => cases hs; exact hi.symm
    · split at hs
      · obtain ⟨t, ht, heq⟩ := Option.map_eq_some_iff.mp hs
        have told := h.scope_id ht
        rw [← heq]
        exact told
      · exact h.scope_id hs
  · obtain ⟨s, hs, hp⟩ := h.root_parent
    rw [getElem?_withScope, if_neg (Nat.ne_of_lt h.size_pos), hs]
    split
    · exact ⟨_, rfl, hp⟩
    · exact ⟨s, rfl, hp⟩
  · intro i s hs hi
    rw [getElem?_withScope] at hs
    split at hs
    · next heq => cases hs; exact ⟨q, rfl, heq ▸ hq⟩
    · split at hs
      · obtain ⟨t, ht, heq⟩ := Option.map_eq_some_iff.mp hs
        have told := h.parent_lt ht hi
        rw [← heq]
        exact told
      · exact h.parent_lt hs hi
  · intro i s c hs
    rw [parentOf?_withScope]
    rw [getElem?_withScope] at hs
    have fresh : parentOf? scopes scopes.size = none := by simp [parentOf?]
    split at hs
    · next hi =>
      cases hs
      subst hi
      have hc : (if c = scopes.size then some q else parentOf? scopes c) ≠ some scopes.size := by
        split
        · simpa using Nat.ne_of_lt hq
        · exact fun hp => Nat.lt_irrefl _ (h.parentOf?_lt_size hp)
      simp [hc]
    · split at hs
      · next hqi =>
        subst hqi
        obtain ⟨t, ht, heq⟩ := Option.map_eq_some_iff.mp hs
        have hcount := h.count_child c ht
        rw [← heq, Array.toList_push, List.count_append, hcount, List.count_singleton]
        by_cases hc : c = scopes.size
        · subst hc
          simp [fresh]
        · simp [hc, Ne.symm hc]
      · next hqi =>
        rw [h.count_child c hs]
        by_cases hc : c = scopes.size
        · subst hc
          simp [fresh, hqi]
        · simp [hc]

/-- Every scope is reached from the root, and in one way only. -/
theorem existsUnique_reaches (h : ScopeTree scopes) {i : Nat} (hi : i < scopes.size) :
    ∃! way, Reaches scopes way i := by
  induction i using Nat.strongRecOn with
  | _ i ih =>
    rcases Nat.eq_zero_or_pos i with rfl | hpos
    · refine ⟨[0], .root, ?_⟩
      intro way hway
      cases hway with
      | root => rfl
      | child _ hs hc =>
        have hp := (h.mem_children_iff hs).mp hc
        simp [h.parentOf?_zero] at hp
    · have hs := Array.getElem?_eq_getElem hi
      obtain ⟨p, hp, hlt⟩ := h.parent_lt hs hpos
      obtain ⟨way, hway, huniq⟩ := ih p hlt (Nat.lt_trans hlt hi)
      have hparent : parentOf? scopes i = some p := parentOf?_eq_some.mpr ⟨_, hs, hp⟩
      have hps := Array.getElem?_eq_getElem (Nat.lt_trans hlt hi)
      refine ⟨i :: way, hway.child hps ((h.mem_children_iff hps).mpr hparent), ?_⟩
      intro other hother
      cases hother with
      | root => exact absurd hpos (Nat.lt_irrefl 0)
      | child hq hqs hqc =>
        have hqp := (h.mem_children_iff hqs).mp hqc
        rw [hparent] at hqp
        cases hqp
        rw [huniq _ hq]

end ScopeTree

namespace ScopeGraph
variable {scopes : Array ScopeRecord} {bindings : Array BindingRecord}

theorem modifyBinding (h : ScopeGraph scopes bindings) (b : Nat) (f : BindingRecord → BindingRecord)
    (hf : ∀ β, (f β).id = β.id ∧ (f β).scope = β.scope ∧ (f β).name = β.name) :
    ScopeGraph scopes (bindings.modify b f) := by
  refine ⟨h.toScopeTree, ?_, ?_, h.names_nodup⟩
  · intro c β hβ
    rw [Array.getElem?_modify] at hβ
    split at hβ
    · obtain ⟨γ, hγ, rfl⟩ := Option.map_eq_some_iff.mp hβ
      rw [(hf γ).1]
      exact h.binding_id hγ
    · exact h.binding_id hβ
  · intro i name c
    rw [h.bound_iff i name c, Array.getElem?_modify]
    split
    · constructor
      · rintro ⟨β, hβ, hi, hn⟩
        exact ⟨f β, by simp [hβ], (hf β).2.1.trans hi, (hf β).2.2.trans hn⟩
      · rintro ⟨β, hβ, hi, hn⟩
        obtain ⟨γ, hγ, rfl⟩ := Option.map_eq_some_iff.mp hβ
        exact ⟨γ, hγ, (hf γ).2.1.symm.trans hi, (hf γ).2.2.symm.trans hn⟩
    · rfl

theorem withScope (h : ScopeGraph scopes bindings) {q : Nat} (hq : q < scopes.size)
    (kind : ScopeKind) (span : Span) : ScopeGraph (withScope scopes q kind span) bindings := by
  refine ⟨h.toScopeTree.withScope hq kind span, h.binding_id, ?_, ?_⟩
  · intro i name b
    rw [boundIn?_withScope]
    exact h.bound_iff i name b
  · intro i s hs
    rw [getElem?_withScope] at hs
    split at hs
    · cases hs; exact List.nodup_nil
    · split at hs
      · obtain ⟨t, ht, heq⟩ := Option.map_eq_some_iff.mp hs
        have told := h.names_nodup ht
        rw [← heq]
        exact told
      · exact h.names_nodup hs

theorem withName (h : ScopeGraph scopes bindings) {i : Nat} (hi : i < scopes.size) {name : String}
    (hnew : boundIn? scopes i name = none) (kind : BindingKind) (node : Nat) :
    ScopeGraph
      (scopes.modify i fun s => { s with names := s.names.push (name, bindings.size) })
      (bindings.push ⟨bindings.size, name, kind, node, i, #[]⟩) := by
  refine ⟨h.toScopeTree.congr ?_, ?_, ?_, ?_⟩
  · intro j
    rw [Array.getElem?_modify]
    split
    · cases scopes[j]? <;> rfl
    · rfl
  · intro b β hβ
    rw [Array.getElem?_push] at hβ
    split at hβ
    · next hb => cases hβ; exact hb.symm
    · exact h.binding_id hβ
  · intro j other b
    rw [boundIn?_modify_names hi, Option.or_eq_some_iff, Array.getElem?_push]
    by_cases hb : b = bindings.size
    · have hold : boundIn? scopes j other ≠ some b := by
        intro hj
        obtain ⟨β, hβ, _⟩ := (h.bound_iff j other b).mp hj
        simp [hb] at hβ
      subst hb
      constructor
      · rintro (hj | ⟨_, hj⟩)
        · exact absurd hj hold
        · by_cases heq : i = j ∧ name = other
          · exact ⟨_, if_pos rfl, heq⟩
          · simp [heq] at hj
      · rintro ⟨β, hβ, hj, hn⟩
        rw [if_pos rfl] at hβ
        cases hβ
        subst hj hn
        exact .inr ⟨hnew, by simp⟩
    · rw [if_neg hb, ← h.bound_iff j other b]
      constructor
      · rintro (hj | ⟨_, hj⟩)
        · exact hj
        · split at hj
          · cases hj
            exact absurd rfl hb
          · cases hj
      · exact .inl
  · intro j s hs
    rw [Array.getElem?_modify] at hs
    split at hs
    · next hj =>
      subst hj
      obtain ⟨t, ht, heq⟩ := Option.map_eq_some_iff.mp hs
      have hnone : t.binding? name = none := by simpa [boundIn?, ht] using hnew
      have hnot := ScopeRecord.binding?_eq_none_iff.mp hnone
      rw [← heq]
      simp only [Array.toList_push, List.map_append, List.map_cons, List.map_nil]
      refine List.nodup_append.mpr ⟨h.names_nodup ht, List.nodup_singleton _, ?_⟩
      intro a ha b hb hab
      rw [hab, List.mem_singleton.mp hb] at ha
      exact hnot ha
    · exact h.names_nodup hs

end ScopeGraph

end ScriptLens
