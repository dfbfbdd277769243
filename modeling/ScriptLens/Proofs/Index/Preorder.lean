import Mathlib.Data.List.Basic
import ScriptLens.Index.Build

/-! # The records of an index in pre-order

The walk over pending nodes lists the nodes of a tree in pre-order, those without a place
and those below sealed nodes left out. Numbers are places in this list, and a kind and a
span find the first place where they stand.
-/
namespace ScriptLens

mutual

/-- The nodes that get a record, in pre-order, with their spans as the tree has them. -/
def Tree.entries : Tree → List (TreeHead × Span)
  | .node head isSealed children =>
    ((head.span.filter (!·.isNowhere)).map (head, ·)).toList ++
      (if isSealed then [] else Tree.forestEntries children)

def Tree.forestEntries : List Tree → List (TreeHead × Span)
  | [] => []
  | t :: rest => t.entries ++ Tree.forestEntries rest

end

theorem Tree.forestEntries_eq_flatMap (trees : List Tree) :
    Tree.forestEntries trees = trees.flatMap Tree.entries := by
  induction trees with
  | nil => rfl
  | cons t rest ih => rw [Tree.forestEntries, ih, List.flatMap_cons]

theorem Tree.entries_eq (t : Tree) :
    t.entries = (t.placed?.map (t.head, ·)).toList ++ t.children.flatMap Tree.entries := by
  cases t with
  | node head isSealed children =>
    cases isSealed with
    | true => simp [Tree.entries, Tree.placed?, Tree.head, Tree.children]
    | false =>
      simp [Tree.entries, Tree.placed?, Tree.head, Tree.children, Tree.forestEntries_eq_flatMap]

namespace IndexBuilder

/-- The builder has a record for each of the listed nodes and finds the first of a key. -/
structure Lists (b : IndexBuilder) (done : List (TreeHead × Span)) : Prop where
  size_eq : b.nodes.size = done.length
  head_eq : ∀ {i : Nat} {n : NodeRecord}, b.nodes[i]? = some n →
    ∃ e, done[i]? = some e ∧ n.kind = e.1.kind ∧ n.label = e.1.label ∧ n.name = e.1.name
  keys_eq : ∀ (kind : NodeKind) (span : Span),
    b.keys[(kind, span)]? = done.findIdx? fun e => e.1.kind == kind && e.2 == span

theorem empty_lists (lines : Text.Lines) : (empty lines).Lists [] := by
  refine ⟨rfl, ?_, ?_⟩
  · intro i n hn
    simp [empty] at hn
  · intro kind span
    simp [empty]

theorem nodes_insert (b : IndexBuilder) (head : TreeHead) (raw : Span) (parent : Option Nat)
    (i : Nat) :
    ((b.insert head raw parent).nodes[i]?).map (fun n => (n.kind, n.label, n.name)) =
      if i = b.nodes.size then some (head.kind, head.label, head.name)
      else (b.nodes[i]?).map fun n => (n.kind, n.label, n.name) := by
  simp only [insert]
  cases parent.bind fun p => b.nodes[p]? with
  | none =>
    rw [Array.getElem?_push]
    split <;> rfl
  | some above =>
    rw [Array.getElem?_push, Array.size_modify, Array.getElem?_modify]
    split
    · rfl
    · split
      · cases b.nodes[i]? <;> rfl
      · rfl

theorem size_insert (b : IndexBuilder) (head : TreeHead) (raw : Span) (parent : Option Nat) :
    (b.insert head raw parent).nodes.size = b.nodes.size + 1 := by
  simp only [insert]
  cases parent.bind fun p => b.nodes[p]? <;> simp

theorem Lists.insert {b : IndexBuilder} {done : List (TreeHead × Span)} (h : b.Lists done)
    (head : TreeHead) (raw : Span) (parent : Option Nat) :
    (b.insert head raw parent).Lists (done ++ [(head, raw)]) := by
  constructor
  · rw [size_insert, h.size_eq, List.length_append, List.length_singleton]
  · intro i n hn
    have hview := b.nodes_insert head raw parent i
    rw [hn, Option.map_some] at hview
    split at hview
    · next hi =>
      simp only [Option.some.injEq, Prod.mk.injEq] at hview
      exact ⟨(head, raw), by rw [hi, h.size_eq]; simp, hview⟩
    · obtain ⟨m, hm, heq⟩ := Option.map_eq_some_iff.mp hview.symm
      obtain ⟨e, he, hkind, hlabel, hname⟩ := h.head_eq hm
      simp only [Prod.mk.injEq] at heq
      refine ⟨e, ?_, heq.1.symm.trans hkind, heq.2.1.symm.trans hlabel,
        heq.2.2.symm.trans hname⟩
      rw [List.getElem?_append_left (List.getElem?_eq_some_iff.mp he).1, he]
  · intro kind span
    have hkeys := h.keys_eq kind span
    have hmem : (head.kind, raw) ∈ b.keys ↔
        (done.findIdx? fun e => e.1.kind == head.kind && e.2 == raw) ≠ none := by
      rw [← h.keys_eq, ← Std.HashMap.isSome_getElem?_iff_mem, Option.isSome_iff_ne_none]
    simp only [IndexBuilder.insert, Std.HashMap.getElem?_insertIfNew, List.findIdx?_append,
      List.findIdx?_singleton, hmem, hkeys, beq_iff_eq, Prod.mk.injEq]
    by_cases hkey : head.kind = kind ∧ raw = span
    · obtain ⟨rfl, rfl⟩ := hkey
      cases hfound : done.findIdx? fun e => e.1.kind == head.kind && e.2 == raw with
      | none => simp [h.size_eq]
      | some i => simp
    · simp [hkey]

theorem Lists.walk {b : IndexBuilder} {done : List (TreeHead × Span)} (h : b.Lists done)
    (pending : List (Option Nat × Tree)) :
    (b.walk pending).Lists (done ++ pending.flatMap fun p => p.2.entries) := by
  fun_induction IndexBuilder.walk b pending generalizing done with
  | case1 b => simpa using h
  | case2 b parent t rest b' attach hvisit ih =>
    have hb' : b'.Lists (done ++ (t.placed?.map (t.head, ·)).toList) := by
      unfold IndexBuilder.visit at hvisit
      split at hvisit
      · next raw hraw =>
        cases hvisit
        simpa [hraw] using h.insert t.head raw parent
      · next hraw =>
        cases hvisit
        simpa [hraw] using h
    have hrest := ih hb'
    simp only [List.flatMap_append, List.flatMap_map] at hrest
    rw [List.flatMap_cons, t.entries_eq]
    simpa [List.append_assoc] using hrest

end IndexBuilder

namespace Index

/-- The records of an index are the nodes of its tree that have a place, in pre-order. -/
theorem ofTree_lists (tree : Tree) (source : String) :
    ∃ b : IndexBuilder, b.Lists tree.entries ∧ (ofTree tree source).nodes = b.nodes ∧
      (ofTree tree source).keys = b.keys := by
  have h := (IndexBuilder.empty_lists (Text.Lines.ofBytes source.toUTF8)).walk [(none, tree)]
  exact ⟨_, by simpa using h, rfl, rfl⟩

theorem ofTree_node? {tree : Tree} {source : String} {n : Nat} {record : NodeRecord}
    (h : (ofTree tree source).node? n = some record) :
    ∃ e, tree.entries[n]? = some e ∧ record.kind = e.1.kind ∧ record.name = e.1.name := by
  obtain ⟨b, hb, hnodes, _⟩ := ofTree_lists tree source
  rw [node?, hnodes] at h
  obtain ⟨e, he, hkind, _, hname⟩ := hb.head_eq h
  exact ⟨e, he, hkind, hname⟩

theorem ofTree_size (tree : Tree) (source : String) :
    (ofTree tree source).size = tree.entries.length := by
  obtain ⟨b, hb, hnodes, _⟩ := ofTree_lists tree source
  rw [size, hnodes, hb.size_eq]

theorem ofTree_find? (tree : Tree) (source : String) (kind : NodeKind) (span : Span) :
    (ofTree tree source).find? kind span =
      tree.entries.findIdx? fun e => e.1.kind == kind && e.2 == span := by
  obtain ⟨b, hb, _, hkeys⟩ := ofTree_lists tree source
  rw [find?, hkeys, hb.keys_eq]

end Index

end ScriptLens
