import ScriptLens.Proofs.Index.Links
import ScriptLens.Proofs.Index.Ways

/-! # An index as the flattening of its tree

The walk keeps pending nodes of several levels, each with the number that its record will
have as its parent. To relate it to the tree, every pending node is given its way. The
invariant says of a number handed down to a pending node that it is the number of the
nearest node above that has a record, among the records made so far; one visit keeps it
for the children of the visited node, whether that node gets a record or not.

The main statement describes an index by the ways of its tree alone: which nodes have a
record and in which order, and the parent, depth, children and keys of each.
-/
namespace ScriptLens

namespace Tree

/-- The last node above another that has a record. -/
structure NearestAbove (tree : Tree) (above way : List Nat) : Prop where
  indexed : tree.Indexed above
  leads : above <+: way
  ne : above ≠ way
  nearest : ∀ {other : List Nat}, tree.Indexed other → other <+: way → other ≠ way →
    other <+: above

theorem NearestAbove.unique {tree : Tree} {above other way : List Nat}
    (h : tree.NearestAbove above way) (h' : tree.NearestAbove other way) : above = other := by
  have hle := h'.nearest h.indexed h.leads h.ne
  have hge := h.nearest h'.indexed h'.leads h'.ne
  exact hle.eq_of_length_le hge.length_le

/-- A parent number is right if it is the place of the nearest node above among the ways
already done, and absent if there is no such node. -/
def Attaches (tree : Tree) (done : List (List Nat)) (parent : Option Nat) (way : List Nat) :
    Prop :=
  match parent with
  | some p => ∃ above, done[p]? = some above ∧ tree.NearestAbove above way
  | none => ∀ above, above <+: way → above ≠ way → ¬ tree.Indexed above

theorem Attaches.append {tree : Tree} {done : List (List Nat)} {parent : Option Nat}
    {way : List Nat} (h : tree.Attaches done parent way) (more : List (List Nat)) :
    tree.Attaches (done ++ more) parent way := by
  cases parent with
  | none => exact h
  | some p =>
    obtain ⟨above, hp, hnear⟩ := h
    refine ⟨above, ?_, hnear⟩
    rw [List.getElem?_append_left (List.getElem?_eq_some_iff.mp hp).1, hp]

theorem proper_concat {above way : List Nat} {i : Nat} :
    above <+: way ++ [i] ∧ above ≠ way ++ [i] ↔ above <+: way := by
  rw [List.prefix_concat_iff]
  constructor
  · rintro ⟨h | h, hne⟩
    · exact absurd h hne
    · exact h
  · intro h
    refine ⟨.inr h, ?_⟩
    rintro rfl
    have hlen := h.length_le
    rw [List.length_append, List.length_singleton] at hlen
    omega

theorem attaches_child {tree : Tree} {done : List (List Nat)} {way : List Nat}
    (hway : tree.Indexed way) (i : Nat) :
    tree.Attaches (done ++ [way]) (some done.length) (way ++ [i]) := by
  obtain ⟨hle, hne⟩ := proper_concat.mpr (List.prefix_refl way)
  refine ⟨way, by simp, hway, hle, hne, ?_⟩
  intro other _ hle hne
  exact proper_concat.mp ⟨hle, hne⟩

theorem Attaches.child {tree : Tree} {done : List (List Nat)} {parent : Option Nat}
    {way : List Nat} (h : tree.Attaches done parent way) (hway : ¬ tree.Indexed way) (i : Nat) :
    tree.Attaches done parent (way ++ [i]) := by
  have hproper : ∀ {other : List Nat}, tree.Indexed other → other <+: way → other ≠ way := by
    rintro other hother _ rfl
    exact hway hother
  cases parent with
  | none =>
    intro above hle hne hindexed
    have hup := proper_concat.mp ⟨hle, hne⟩
    exact h above hup (hproper hindexed hup) hindexed
  | some p =>
    obtain ⟨above, hp, hnear⟩ := h
    obtain ⟨hle, hne⟩ := proper_concat.mpr hnear.leads
    refine ⟨above, hp, hnear.indexed, hle, hne, ?_⟩
    intro other hother hle hne
    have hup := proper_concat.mp ⟨hle, hne⟩
    exact hnear.nearest hother hup (hproper hother hup)

section Determined

variable {tree : Tree} {ways : List (List Nat)} {parent : Option Nat} {way : List Nat}

theorem Attaches.eq_some_iff (hnodup : ways.Nodup) (h : tree.Attaches ways parent way) {p : Nat} :
    parent = some p ↔ ∃ above, ways[p]? = some above ∧ tree.NearestAbove above way := by
  constructor
  · rintro rfl
    exact h
  · rintro ⟨above, hp, hnear⟩
    cases parent with
    | none => exact absurd hnear.indexed (h above hnear.leads hnear.ne)
    | some q =>
      obtain ⟨other, hq, hother⟩ := h
      cases hnear.unique hother
      have hlt := (List.getElem?_eq_some_iff.mp hq).1
      rw [(List.getElem?_inj hlt hnodup).mp (hq.trans hp.symm)]

theorem Attaches.eq_none_iff (h : tree.Attaches ways parent way) :
    parent = none ↔ ∀ above, above <+: way → above ≠ way → ¬ tree.Indexed above := by
  constructor
  · rintro rfl
    exact h
  · intro hnone
    cases parent with
    | none => rfl
    | some p =>
      obtain ⟨above, _, hnear⟩ := h
      exact absurd hnear.indexed (hnone above hnear.leads hnear.ne)

end Determined

end Tree

namespace IndexBuilder

/-- The records made so far are those of the nodes at the ways done so far. -/
structure Follows (b : IndexBuilder) (tree : Tree) (done : List (List Nat)) : Prop
    extends b.Linked where
  size_eq : b.nodes.size = done.length
  attaches : ∀ {i : Nat} {n : NodeRecord} {way : List Nat}, b.nodes[i]? = some n →
    done[i]? = some way → tree.Attaches done n.parent way

theorem empty_follows (lines : Text.Lines) (tree : Tree) : (empty lines).Follows tree [] :=
  { empty_linked lines with
    size_eq := rfl
    attaches := by simp }

variable {b : IndexBuilder} {tree : Tree} {done : List (List Nat)}

theorem Follows.knows (h : b.Follows tree done) {parent : Option Nat} {way : List Nat}
    (hp : tree.Attaches done parent way) : b.Knows parent := by
  rintro p rfl
  obtain ⟨_, hat, _⟩ := hp
  rw [h.size_eq]
  exact (List.getElem?_eq_some_iff.mp hat).1

theorem Follows.insert (h : b.Follows tree done) (head : TreeHead) (raw : Span)
    {parent : Option Nat} {way : List Nat} (hp : tree.Attaches done parent way) :
    (b.insert head raw parent).Follows tree (done ++ [way]) := by
  have hknown := h.knows hp
  refine { h.toLinked.insert head raw hknown with size_eq := ?_, attaches := ?_ }
  · rw [size_insert, h.size_eq, List.length_append, List.length_singleton]
  · intro i n other hn hother
    obtain ⟨rfl, rfl⟩ | ⟨m, hm, rfl⟩ := h.toLinked.of_insert hknown hn
    · rw [h.size_eq, List.getElem?_concat_length] at hother
      cases hother
      rw [h.toLinked.parent_record head raw hknown]
      exact hp.append [way]
    · have hlt := (Array.getElem?_eq_some_iff.mp hm).1
      rw [h.size_eq] at hlt
      rw [List.getElem?_append_left hlt] at hother
      have hold := h.attaches hm hother
      exact hold.append [way]

/-- One visit: the ways done grow by that of the visited node, if it gets a record, and the
number handed down is right for each of its children. -/
theorem Follows.visit (h : b.Follows tree done) {parent : Option Nat} {way : List Nat} {t : Tree}
    (ht : tree.reach? way = some t) (hp : tree.Attaches done parent way) :
    let done' := done ++ (t.placed?.map fun _ => way).toList
    (b.visit parent t).1.Follows tree done' ∧
      ∀ i, tree.Attaches done' (b.visit parent t).2 (way ++ [i]) := by
  unfold IndexBuilder.visit
  cases hspan : t.placed? with
  | some raw =>
    have hway : tree.Indexed way := Tree.indexed_iff.mpr ⟨t, raw, ht, hspan⟩
    refine ⟨h.insert t.head raw hp, ?_⟩
    intro i
    simp only [h.size_eq]
    exact Tree.attaches_child hway i
  | none =>
    have hway : ¬ tree.Indexed way := by
      intro hindexed
      obtain ⟨u, span, hu, hplaced⟩ := Tree.indexed_iff.mp hindexed
      rw [ht] at hu
      cases hu
      rw [hspan] at hplaced
      cases hplaced
    simp only [Option.map_none, Option.toList_none, List.append_nil]
    exact ⟨h, fun i => hp.child hway i⟩

/-- A pending node with its way. -/
abbrev Todo := List Nat × Option Nat × Tree

def childTodo (way : List Nat) (attach : Option Nat) (t : Tree) : List Todo :=
  t.children.zipIdx.map fun c => (way ++ [c.2], attach, c.1)

def todoWays (todo : List Todo) : List (List Nat) :=
  todo.flatMap fun q => q.2.2.ways.map (q.1 ++ ·)

theorem childTodo_snd (way : List Nat) (attach : Option Nat) (t : Tree) :
    (childTodo way attach t).map Prod.snd = t.children.map (attach, ·) := by
  rw [childTodo, List.map_map]
  conv_rhs => rw [← List.zipIdx_map_fst 0 t.children, List.map_map]
  rfl

theorem todoWays_cons (way : List Nat) (parent attach : Option Nat) (t : Tree)
    (todo : List Todo) :
    todoWays ((way, parent, t) :: todo) =
      (t.placed?.map fun _ => way).toList ++ todoWays (childTodo way attach t ++ todo) := by
  simp only [todoWays, childTodo, List.flatMap_cons, List.flatMap_append, List.flatMap_map]
  rw [t.ways_eq, List.map_append, List.map_flatMap, List.append_assoc]
  congr 1
  · cases t.placed? <;> simp
  · simp [Function.comp_def]

theorem Follows.walk (h : b.Follows tree done) (todo : List Todo)
    (htodo : ∀ q ∈ todo, tree.reach? q.1 = some q.2.2 ∧ tree.Attaches done q.2.1 q.1) :
    (b.walk (todo.map Prod.snd)).Follows tree (done ++ todoWays todo) := by
  -- The walk does not know ways, so they are carried beside its list, in step with it.
  generalize hpending : todo.map Prod.snd = pending
  fun_induction IndexBuilder.walk b pending generalizing done todo with
  | case1 b =>
    rw [List.map_eq_nil_iff] at hpending
    subst hpending
    simpa [todoWays] using h
  | case2 b parent t rest b' attach hvisit ih =>
    obtain ⟨⟨way, _, _⟩, todo, rfl, heq, rfl⟩ := List.map_eq_cons_iff.mp hpending
    cases heq
    obtain ⟨ht, hp⟩ := htodo _ List.mem_cons_self
    obtain ⟨hb', hattach⟩ := h.visit ht hp
    rw [hvisit] at hb' hattach
    have hmap : (childTodo way attach t ++ todo).map Prod.snd =
        t.children.map (attach, ·) ++ todo.map Prod.snd := by
      rw [List.map_append, childTodo_snd]
    have hrest := ih hb' (childTodo way attach t ++ todo) ?_ hmap
    · rw [List.append_assoc, ← todoWays_cons] at hrest
      exact hrest
    · intro q hq
      rcases List.mem_append.mp hq with hq | hq
      · obtain ⟨c, hc, rfl⟩ := List.mem_map.mp hq
        refine ⟨?_, hattach c.2⟩
        rw [Tree.reach?_concat, ht]
        exact List.mem_zipIdx_iff_getElem?.mp hc
      · obtain ⟨hreach, hq⟩ := htodo q (List.mem_cons_of_mem _ hq)
        exact ⟨hreach, hq.append _⟩

theorem ofTree_follows (tree : Tree) (lines : Text.Lines) :
    (ofTree tree lines).Follows tree tree.ways := by
  have h := (empty_follows lines tree).walk [([], none, tree)] ?_
  · simpa [ofTree, todoWays] using h
  · simp [Tree.reach?, Tree.Attaches]

end IndexBuilder

namespace Index

/-- An index that holds the nodes of a tree at the given ways, numbered in that order. -/
structure Flattens (x : Index) (tree : Tree) (ways : List (List Nat)) : Prop where
  mem_iff : ∀ way, way ∈ ways ↔ tree.Indexed way
  preorder : ways.Pairwise (· < ·)
  size_eq : x.size = ways.length
  record : ∀ {i : Nat} {way : List Nat}, ways[i]? = some way →
    ∃ n t, x.node? i = some n ∧ tree.at? way = some t ∧
      n.id = i ∧ n.kind = t.head.kind ∧ n.label = t.head.label ∧ n.name = t.head.name
  parent_eq_some_iff : ∀ {i p : Nat} {way : List Nat} {n : NodeRecord}, ways[i]? = some way →
    x.node? i = some n →
      (n.parent = some p ↔ ∃ above, ways[p]? = some above ∧ tree.NearestAbove above way)
  parent_eq_none_iff : ∀ {i : Nat} {way : List Nat} {n : NodeRecord}, ways[i]? = some way →
    x.node? i = some n →
      (n.parent = none ↔ ∀ above, above <+: way → above ≠ way → ¬ tree.Indexed above)
  depth_eq : ∀ {i : Nat} {n : NodeRecord}, x.node? i = some n →
    n.depth = ((x.parent? i).map (·.depth + 1)).getD 0
  children_eq : ∀ {i : Nat} {n : NodeRecord}, x.node? i = some n →
    n.children.toList = NodeRecord.numbersUnder x.nodes (some i)
  roots_eq : x.roots.toList = NodeRecord.numbersUnder x.nodes none
  find?_eq : ∀ (kind : NodeKind) (span : Span), x.find? kind span =
    ways.findIdx? fun way => (tree.at? way).any fun t =>
      t.head.kind == kind && t.placed? == some span

theorem ofTree_record {tree : Tree} {i : Nat} {way : List Nat} (hway : tree.ways[i]? = some way)
    (source : String) :
    ∃ n t, (ofTree tree source).node? i = some n ∧ tree.at? way = some t ∧
      n.kind = t.head.kind ∧ n.label = t.head.label ∧ n.name = t.head.name := by
  obtain ⟨t, span, ht, hentry⟩ := Tree.entry_of_way hway
  obtain ⟨b, hb, hnodes, _⟩ := ofTree_lists tree source
  have hlt : i < b.nodes.size := by
    rw [hb.size_eq]
    exact (List.getElem?_eq_some_iff.mp hentry).1
  have hn := Array.getElem?_eq_getElem hlt
  obtain ⟨e, he, hhead⟩ := hb.head_eq hn
  rw [hentry] at he
  cases he
  refine ⟨b.nodes[i], t, ?_, ht, hhead⟩
  rw [node?, hnodes, hn]

theorem ofTree_find?_ways (tree : Tree) (source : String) (kind : NodeKind) (span : Span) :
    (ofTree tree source).find? kind span = tree.ways.findIdx? fun way =>
      (tree.at? way).any fun t => t.head.kind == kind && t.placed? == some span := by
  rw [ofTree_find?, Tree.findIdx?_entries]
  congr 1
  funext way
  rw [Tree.entryAt?]
  cases tree.at? way with
  | none => rfl
  | some t =>
    cases hspan : t.placed? <;> simp [hspan]

theorem flattens_of_follows {tree : Tree} {source : String}
    (h : (IndexBuilder.ofTree tree (Text.Lines.ofBytes source.toUTF8)).Follows tree tree.ways) :
    (ofTree tree source).Flattens tree tree.ways := by
  have hnodup : tree.ways.Nodup := tree.ways_pairwise.imp fun hlt heq => by
    subst heq
    exact List.lt_irrefl _ hlt
  refine ⟨fun _ => Tree.mem_ways, tree.ways_pairwise, h.size_eq, ?_, ?_, ?_, ?_, h.children_eq,
    h.roots_eq, ?_⟩
  · intro i way hway
    obtain ⟨n, t, hn, ht, hhead⟩ := ofTree_record hway source
    exact ⟨n, t, hn, ht, h.id_eq hn, hhead⟩
  · intro i p way n hway hn
    exact (h.attaches hn hway).eq_some_iff hnodup
  · intro i way n hway hn
    exact (h.attaches hn hway).eq_none_iff
  · intro i n hn
    simp only [parent?, hn, Option.bind_some]
    exact h.depth_eq hn
  · exact ofTree_find?_ways tree source

/-- The walk over pending nodes gives the flattening of the tree in pre-order. -/
theorem ofTree_flattens (tree : Tree) (source : String) :
    (ofTree tree source).Flattens tree tree.ways :=
  flattens_of_follows (IndexBuilder.ofTree_follows tree (Text.Lines.ofBytes source.toUTF8))

end Index

end ScriptLens
