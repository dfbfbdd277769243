import ScriptLens.Proofs.Reading.Nodes
import ScriptLens.Snapshot.Place

/-! # Ways into snapshots

The search for a point ends at a node that holds it, none of whose children does. The steps to a
node are the nodes on the way to it, each with its number among its siblings. A way into a
snapshot is a way into the tree that the snapshot was copied from, and leads to the copy of the
node that it leads to there.
-/
namespace ScriptLens

open Rose

namespace Snapshot

/-! ## The node under a point -/

theorem descendInto_spec (p : Point) (index : Nat) (siblings : List Snapshot) :
    (descendInto p index siblings = [] ∧ ∀ c ∈ siblings, c.head.contains p = false) ∨
      ∃ i c, siblings[i]? = some c ∧ c.head.contains p = true ∧
        descendInto p index siblings = (index + i) :: c.descend p := by
  induction siblings generalizing index with
  | nil => exact .inl ⟨rfl, fun c hc => by cases hc⟩
  | cons s rest ih =>
    rw [descendInto]
    split
    · next hs => exact .inr ⟨0, s, rfl, hs, rfl⟩
    · next hs =>
      rcases ih (index + 1) with ⟨hnone, hrest⟩ | ⟨i, c, hi, hc, hway⟩
      · refine .inl ⟨hnone, ?_⟩
        intro c hc
        rcases List.mem_cons.mp hc with rfl | hc
        · exact Bool.eq_false_iff.mpr hs
        · exact hrest c hc
      · refine .inr ⟨i + 1, c, hi, hc, ?_⟩
        rw [hway, Nat.add_assoc, Nat.add_comm 1 i]

/-- The descent from a node that holds a point ends at such a node, below which there is none. -/
theorem exists_at?_descend {s : Snapshot} {p : Point} (hs : s.head.contains p = true) :
    ∃ u, s.at? (s.descend p) = some u ∧ u.head.contains p = true ∧
      ∀ c ∈ u.children, c.head.contains p = false := by
  induction s using children_induction with
  | step s ih =>
    have hdescend : descend p s = descendInto p 0 s.children := by
      cases s
      rfl
    rw [hdescend]
    rcases descendInto_spec p 0 s.children with ⟨hnone, hrest⟩ | ⟨i, c, hi, hc, hway⟩
    · rw [hnone]
      exact ⟨s, rfl, hs, hrest⟩
    · obtain ⟨u, hu, hdeepest⟩ := ih c (List.mem_of_getElem? hi) hc
      refine ⟨u, ?_, hdeepest⟩
      rw [hway, Nat.zero_add, at?, hi, Option.bind_some, hu]

theorem exists_of_wayTo? {s : Snapshot} {p : Point} {way : List Nat} (h : s.wayTo? p = some way) :
    ∃ u, s.at? way = some u ∧ u.head.contains p = true ∧
      ∀ c ∈ u.children, c.head.contains p = false := by
  rw [wayTo?] at h
  split at h
  · next hs =>
    cases h
    exact exists_at?_descend hs
  · cases h

/-! ## Steps -/

def steps (s : Snapshot) (way : List Nat) : List Step := stepsFrom [⟨0, s⟩] s way

theorem stepsFrom_concat {above : List Step} {s u c : Snapshot} {way : List Nat} {i : Nat}
    (hu : s.at? way = some u) (hc : u.children[i]? = some c) :
    stepsFrom above s (way ++ [i]) = ⟨i, c⟩ :: stepsFrom above s way := by
  induction way generalizing above s with
  | nil =>
    cases hu
    rw [List.nil_append, stepsFrom]
    simp only [hc, stepsFrom]
  | cons j way ih =>
    obtain ⟨d, hd, hu⟩ := Option.bind_eq_some_iff.mp hu
    rw [List.cons_append, stepsFrom, stepsFrom]
    simp only [hd]
    exact ih hu

/-- The first step is the node itself, and the others are the steps to its parent. -/
theorem steps_eq_cons {s : Snapshot} {way : List Nat} {here : Step} {above : List Step}
    {u : Snapshot} (hu : s.at? way = some u) (h : s.steps way = here :: above) :
    here.node = u ∧ (above ≠ [] → ∃ w v, way = w ++ [here.index] ∧ s.at? w = some v ∧
      v.children[here.index]? = some u ∧ above = s.steps w) := by
  rcases List.eq_nil_or_concat way with rfl | ⟨w, i, rfl⟩
  · cases hu
    obtain ⟨rfl, rfl⟩ := List.cons.inj h
    exact ⟨rfl, fun hne => absurd rfl hne⟩
  · rw [List.concat_eq_append, at?_concat, Option.bind_eq_some_iff] at hu
    obtain ⟨v, hv, hi⟩ := hu
    rw [List.concat_eq_append, steps, stepsFrom_concat hv hi] at h
    obtain ⟨rfl, rfl⟩ := List.cons.inj h
    exact ⟨rfl, fun _ => ⟨w, v, List.concat_eq_append, hv, hi, rfl⟩⟩

theorem exists_of_mem_steps {s : Snapshot} {way : List Nat} {st : Step} (h : st ∈ s.steps way) :
    ∃ w, s.at? w = some st.node := by
  have hfrom : ∀ {above : List Step} {t : Snapshot} {way : List Nat}, st ∈ stepsFrom above t way →
      st ∈ above ∨ ∃ w, t.at? w = some st.node := by
    intro above t way hst
    induction way generalizing above t with
    | nil => exact .inl hst
    | cons i way ih =>
      rw [stepsFrom] at hst
      split at hst
      · exact .inl hst
      · next c hc =>
        rcases ih hst with hst | ⟨w, hw⟩
        · rcases List.mem_cons.mp hst with rfl | hst
          · exact .inr ⟨[i], by rw [at?, hc]; rfl⟩
          · exact .inl hst
        · exact .inr ⟨i :: w, by rw [at?, hc, Option.bind_some, hw]⟩
  rcases hfrom h with hst | hw
  · rw [List.mem_singleton.mp hst]
    exact ⟨[], rfl⟩
  · exact hw

theorem exists_of_stepsTo? {s : Snapshot} {p : Point} {steps : List Step}
    (h : s.stepsTo? p = some steps) :
    ∃ way u, s.wayTo? p = some way ∧ steps = s.steps way ∧
      s.at? way = some u ∧ u.head.contains p = true := by
  obtain ⟨way, hway, rfl⟩ := Option.map_eq_some_iff.mp h
  obtain ⟨u, hu, hp, _⟩ := exists_of_wayTo? hway
  exact ⟨way, u, hway, rfl, hu, hp⟩

end Snapshot

/-! ## Copies -/

namespace Cst

variable (source : ByteArray)

theorem copyList_eq (levels : Nat) (ts : List Cst) :
    copyList source levels ts = ts.map (copy source levels) := by
  induction ts with
  | nil => rfl
  | cons t rest ih => rw [copyList, ih, List.map_cons]

theorem head_copy (levels : Nat) (t : Cst) :
    (t.copy source levels).head = t.head.snapshot source t.children.isEmpty := by
  cases t
  rfl

theorem children_copy (levels : Nat) (t : Cst) :
    (t.copy source levels).children =
      if levels ≤ 1 then [] else t.children.map (copy source (levels - 1)) := by
  cases t with
  | node head children =>
    rw [copy, copyList_eq]
    rfl

theorem kind_copy (levels : Nat) (t : Cst) : (t.copy source levels).head.kind = t.head.kind := by
  rw [head_copy]
  rfl

theorem child_of_copy {levels : Nat} {t : Cst} {i : Nat} {s : Snapshot}
    (h : (t.copy source levels).children[i]? = some s) :
    1 < levels ∧ ∃ c : Cst, t.children[i]? = some c ∧ s = c.copy source (levels - 1) := by
  rw [children_copy] at h
  split at h
  · cases h
  · next hlevels =>
    rw [List.getElem?_map] at h
    obtain ⟨c, hc, rfl⟩ := Option.map_eq_some_iff.mp h
    exact ⟨Nat.lt_of_not_le hlevels, c, hc, rfl⟩

theorem at?_copy {levels : Nat} {t : Cst} {way : List Nat} {s : Snapshot}
    (h : (t.copy source levels).at? way = some s) :
    ∃ u : Cst, t.at? way = some u ∧ s = u.copy source (levels - way.length) := by
  induction way generalizing t levels with
  | nil =>
    cases h
    exact ⟨t, rfl, rfl⟩
  | cons i way ih =>
    obtain ⟨d, hd, hs⟩ := Option.bind_eq_some_iff.mp h
    obtain ⟨_, c, hc, rfl⟩ := child_of_copy source hd
    obtain ⟨u, hu, rfl⟩ := ih hs
    refine ⟨u, by rw [at?, hc, Option.bind_some, hu], ?_⟩
    rw [List.length_cons, Nat.sub_sub, Nat.add_comm]

variable {source}

/-- The second step of a way into a copy is at the copy of the parent. -/
theorem exists_parent {levels : Nat} {t u : Cst} {way : List Nat} {here : Step}
    {above : List Step} (hu : t.at? way = some u)
    (hcopy : (t.copy source levels).at? way =
      some (u.copy source (levels - way.length)))
    (h : (t.copy source levels).steps way = here :: above) (hne : above ≠ []) :
    ∃ (w : List Nat) (v : Cst), way = w ++ [here.index] ∧ t.at? w = some v ∧
      v.children[here.index]? = some u ∧ 1 < levels - w.length ∧
      (t.copy source levels).at? w = some (v.copy source (levels - w.length)) ∧
      above = (t.copy source levels).steps w := by
  obtain ⟨w, s, rfl, hs, hchild, habove⟩ := (Snapshot.steps_eq_cons hcopy h).2 hne
  obtain ⟨v, hv, rfl⟩ := at?_copy source hs
  obtain ⟨hlevels, _, _, _⟩ := child_of_copy source hchild
  rw [at?_concat, hv, Option.bind_some] at hu
  exact ⟨w, v, rfl, hv, hu, hlevels, hs, habove⟩

end Cst

end ScriptLens
