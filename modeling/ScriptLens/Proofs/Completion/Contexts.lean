import ScriptLens.Completion.Context
import ScriptLens.Proofs.Snapshot.Copies

/-! # Where contexts come from

A context is found at the node under the cursor or, where there is none, at the node one column
to the left. What each kind of context asks for is said of the nodes on the way to that node,
and in a snapshot these are copies of the nodes of a concrete tree.
-/
namespace ScriptLens

/-- A node of a concrete tree under a point: the search in a snapshot of the tree ends at it. -/
structure Cst.Under (t : Cst) (source : ByteArray) (maxDepth : Nat) (p : Point) (way : List Nat)
    (u : Cst) : Prop where
  leads : t.at? way = some u
  found : (Snapshot.ofCst source maxDepth t).wayTo? p = some way
  holds : (u.head.snapshot source u.children.isEmpty).contains p = true

namespace Context

variable {cursor p : Point} {steps : List Step} {c : Context}

theorem inProperty?_eq_some (h : inProperty? cursor steps = some c) :
    ∃ here above rest object, steps = here :: above :: rest ∧ here.node.head.isPropertyName = true ∧
      above.node.head.isMember = true ∧ above.node.isLastPart here.index = true ∧
      above.node.object? = some object ∧
      c = on .property object (here.node.typedBefore cursor) cursor := by
  unfold inProperty? at h
  split at h
  · next here above rest =>
    split at h
    · next hguard =>
      simp only [Bool.and_eq_true] at hguard
      obtain ⟨object, hobject, rfl⟩ := Option.map_eq_some_iff.mp h
      exact ⟨here, above, rest, object, rfl, hguard.1.1, hguard.1.2, hguard.2, hobject, rfl⟩
    · cases h
  · cases h

theorem inIdentifier?_eq_some (h : inIdentifier? cursor steps = some c) :
    ∃ here rest, steps = here :: rest ∧ here.node.head.kind = "identifier" ∧
      c = ⟨.identifier, "", "", here.node.typedBefore cursor, cursor⟩ := by
  unfold inIdentifier? at h
  split at h
  · next here rest =>
    split at h
    · next hguard =>
      simp only [Bool.and_eq_true, beq_iff_eq] at hguard
      cases h
      exact ⟨here, rest, rfl, hguard.1, rfl⟩
    · cases h
  · cases h

theorem inArguments?_eq_some (h : inArguments? cursor steps = some c) :
    ∃ here list call rest first, steps = here :: list :: call :: rest ∧
      (here.node.head.kind = "(" ∨ here.node.head.kind = ",") ∧ list.node.head.kind = "arguments" ∧
      call.node.children.head? = some first ∧ c = on .argument first "" cursor := by
  unfold inArguments? at h
  split at h
  · next here list call rest =>
    split at h
    · next hguard =>
      simp only [Bool.and_eq_true, Bool.or_eq_true, beq_iff_eq] at hguard
      obtain ⟨first, hfirst, rfl⟩ := Option.map_eq_some_iff.mp h
      exact ⟨here, list, call, rest, first, rfl, hguard.1.1, hguard.1.2, hfirst, rfl⟩
    · cases h
  · cases h

/-- The ways in which steps can have a context. -/
inductive Classified (cursor : Point) (steps : List Step) (c : Context) : Prop where
  | property (h : inProperty? cursor steps = some c) (hkind : c.kind = .property)
  | dangling (base : Snapshot) (h : dangling? cursor steps = some base)
      (hc : c = on .property base "" cursor)
  | identifier (h : inIdentifier? cursor steps = some c) (hkind : c.kind = .identifier)
  | argument (h : inArguments? cursor steps = some c) (hkind : c.kind = .argument)

theorem classified_of_classify? (h : classify? cursor steps = some c) :
    Classified cursor steps c := by
  rw [classify?, Option.or_eq_some_iff, Option.or_eq_some_iff, Option.or_eq_some_iff] at h
  rcases h with h | ⟨_, h | ⟨_, h | ⟨_, h⟩⟩⟩
  · obtain ⟨_, _, _, _, _, _, _, _, _, hc⟩ := inProperty?_eq_some h
    exact .property h (by rw [hc]; rfl)
  · obtain ⟨base, hbase, rfl⟩ := Option.map_eq_some_iff.mp h
    exact .dangling base hbase rfl
  · obtain ⟨_, _, _, _, hc⟩ := inIdentifier?_eq_some h
    exact .identifier h (by rw [hc])
  · obtain ⟨_, _, _, _, _, _, _, _, _, hc⟩ := inArguments?_eq_some h
    exact .argument h (by rw [hc]; rfl)

/-- A cursor with a context has it from a node under it or one column to the left. -/
theorem exists_of_ofCursor {root : Snapshot} (h : (ofCursor root cursor).kind ≠ .nothing) :
    ∃ p ∈ places cursor, ∃ steps, root.stepsTo? p = some steps ∧
      Classified cursor steps (ofCursor root cursor) := by
  obtain ⟨found, hfound⟩ : ∃ found, found = (places cursor).findSome? fun p =>
      (root.stepsTo? p).bind (classify? cursor) := ⟨_, rfl⟩
  have hof : ofCursor root cursor = found.getD (nothing cursor) := by rw [hfound, ofCursor]
  rw [hof] at h ⊢
  cases found with
  | none => exact absurd rfl h
  | some c =>
    obtain ⟨p, hp, hc⟩ := List.exists_of_findSome?_eq_some hfound.symm
    obtain ⟨steps, hsteps, hc⟩ := Option.bind_eq_some_iff.mp hc
    exact ⟨p, hp, steps, hsteps, classified_of_classify? hc⟩

end Context

theorem Cst.exists_under {t : Cst} {source : ByteArray} {maxDepth : Nat} {p : Point}
    {steps : List Step} (h : (Snapshot.ofCst source maxDepth t).stepsTo? p = some steps) :
    ∃ way u, t.Under source maxDepth p way u ∧
      steps = (Snapshot.ofCst source maxDepth t).steps way ∧
      (Snapshot.ofCst source maxDepth t).at? way =
        some (u.copy source (maxDepth - way.length)) := by
  obtain ⟨way, s, hway, hsteps, hs, hp⟩ := Snapshot.exists_of_stepsTo? h
  obtain ⟨u, hu, rfl⟩ := at?_copy _ hs
  rw [head_copy] at hp
  exact ⟨way, u, ⟨hu, hway, hp⟩, hsteps, hs⟩

end ScriptLens
