import ScriptLens.Proofs.Index.Preorder

/-! # Links between the records of an index

Records are linked twice: each knows its parent, and the parent lists it among its
children. Adding a record under a parent that is there keeps both sides in step, so after
any walk the children of a record are the numbers of all records that name it as their
parent, and the roots are the numbers of those that name none.
-/
namespace ScriptLens

/-- The numbers of the records that name the given parent, in ascending order. -/
def NodeRecord.numbersUnder (nodes : Array NodeRecord) (parent : Option Nat) : List Nat :=
  (List.range nodes.size).filter fun i => (nodes[i]?).any (·.parent == parent)

theorem NodeRecord.mem_numbersUnder {nodes : Array NodeRecord} {parent : Option Nat} {i : Nat} :
    i ∈ numbersUnder nodes parent ↔ ∃ n, nodes[i]? = some n ∧ n.parent = parent := by
  rw [numbersUnder, List.mem_filter, List.mem_range, Option.any_eq_true]
  constructor
  · rintro ⟨_, n, hn, hparent⟩
    exact ⟨n, hn, beq_iff_eq.mp hparent⟩
  · rintro ⟨n, hn, hparent⟩
    exact ⟨(Array.getElem?_eq_some_iff.mp hn).1, n, hn, beq_iff_eq.mpr hparent⟩

namespace IndexBuilder

def above (b : IndexBuilder) (parent : Option Nat) : Option NodeRecord :=
  parent.bind fun p => b.nodes[p]?

/-- A parent has to be there before its children are added. -/
def Knows (b : IndexBuilder) (parent : Option Nat) : Prop := ∀ p ∈ parent, p < b.nodes.size

structure Linked (b : IndexBuilder) : Prop where
  id_eq : ∀ {i : Nat} {n : NodeRecord}, b.nodes[i]? = some n → n.id = i
  parent_lt : ∀ {i p : Nat} {n : NodeRecord}, b.nodes[i]? = some n → n.parent = some p → p < i
  depth_eq : ∀ {i : Nat} {n : NodeRecord}, b.nodes[i]? = some n →
    n.depth = ((b.above n.parent).map (·.depth + 1)).getD 0
  children_eq : ∀ {i : Nat} {n : NodeRecord}, b.nodes[i]? = some n →
    n.children.toList = NodeRecord.numbersUnder b.nodes (some i)
  roots_eq : b.roots.toList = NodeRecord.numbersUnder b.nodes none

theorem empty_linked (lines : Text.Lines) : (empty lines).Linked := by
  constructor <;> simp [empty, NodeRecord.numbersUnder]

theorem Knows.mono {b c : IndexBuilder} {parent : Option Nat} (h : b.Knows parent)
    (hle : b.nodes.size ≤ c.nodes.size) : c.Knows parent :=
  fun p hp => Nat.lt_of_lt_of_le (h p hp) hle

theorem Linked.above_eq {b : IndexBuilder} (hb : b.Linked) {parent : Option Nat}
    (hp : b.Knows parent) : (b.above parent).map NodeRecord.id = parent := by
  cases parent with
  | none => rfl
  | some p =>
    have hlt := hp p rfl
    have hat : b.nodes[p]? = some b.nodes[p] := Array.getElem?_eq_getElem hlt
    simp [above, hat, hb.id_eq hat]

theorem Linked.knows_parent {b : IndexBuilder} (hb : b.Linked) {i : Nat} {n : NodeRecord}
    (hn : b.nodes[i]? = some n) : b.Knows n.parent := by
  intro p hp
  have hlt := hb.parent_lt hn hp
  have hi := (Array.getElem?_eq_some_iff.mp hn).1
  omega

/-- An insertion appends one record and touches no other but its parent, which gets one
more child. -/
theorem Linked.getElem?_insert {b : IndexBuilder} (hb : b.Linked) (head : TreeHead) (raw : Span)
    {parent : Option Nat} (hp : b.Knows parent) (i : Nat) :
    (b.insert head raw parent).nodes[i]? =
      if i = b.nodes.size then some (b.record head raw (b.above parent))
      else (b.nodes[i]?).map fun n =>
        if parent = some i then { n with children := n.children.push b.nodes.size } else n := by
  have hid := hb.above_eq hp
  cases hm : b.above parent with
  | none =>
    rw [hm, Option.map_none] at hid
    subst hid
    simp [insert, Array.getElem?_push]
  | some m =>
    rw [hm, Option.map_some] at hid
    subst hid
    unfold above at hm
    simp only [insert, hm]
    rw [Array.getElem?_push, Array.size_modify, Array.getElem?_modify]
    split
    · rfl
    · by_cases hi : m.id = i <;> simp [hi]

theorem Linked.of_insert {b : IndexBuilder} (hb : b.Linked) {head : TreeHead} {raw : Span}
    {parent : Option Nat} (hp : b.Knows parent) {i : Nat} {n : NodeRecord}
    (hn : (b.insert head raw parent).nodes[i]? = some n) :
    (i = b.nodes.size ∧ n = b.record head raw (b.above parent)) ∨
      ∃ m, b.nodes[i]? = some m ∧
        n = { m with
          children := if parent = some i then m.children.push b.nodes.size else m.children } := by
  rw [hb.getElem?_insert head raw hp] at hn
  split at hn
  · next hi => exact .inl ⟨hi, (Option.some.inj hn).symm⟩
  · obtain ⟨m, hm, rfl⟩ := Option.map_eq_some_iff.mp hn
    refine .inr ⟨m, hm, ?_⟩
    split <;> rfl

theorem Linked.map_above_insert {α : Type} {b : IndexBuilder} (hb : b.Linked) (head : TreeHead)
    (raw : Span) {parent other : Option Nat} (hp : b.Knows parent) (ho : b.Knows other)
    {f : NodeRecord → α} (hf : ∀ n children, f { n with children := children } = f n) :
    ((b.insert head raw parent).above other).map f = (b.above other).map f := by
  cases other with
  | none => rfl
  | some p =>
    have hne : p ≠ b.nodes.size := Nat.ne_of_lt (ho p rfl)
    simp only [above, Option.bind_some]
    rw [hb.getElem?_insert head raw hp, if_neg hne, Option.map_map]
    congr 1
    funext n
    rw [Function.comp_apply]
    split
    · exact hf n _
    · rfl

theorem Linked.parent_record {b : IndexBuilder} (hb : b.Linked) (head : TreeHead) (raw : Span)
    {parent : Option Nat} (hp : b.Knows parent) :
    (b.record head raw (b.above parent)).parent = parent :=
  hb.above_eq hp

/-- Of all lists of numbers only the one of the new record's parent grows, at its end. -/
theorem Linked.numbersUnder_insert {b : IndexBuilder} (hb : b.Linked) (head : TreeHead)
    (raw : Span) {parent : Option Nat} (hp : b.Knows parent) (other : Option Nat) :
    NodeRecord.numbersUnder (b.insert head raw parent).nodes other =
      NodeRecord.numbersUnder b.nodes other ++
        if parent = other then [b.nodes.size] else [] := by
  simp only [NodeRecord.numbersUnder]
  rw [size_insert, List.range_succ, List.filter_append]
  congr 1
  · apply List.filter_congr
    intro i hi
    have hne : i ≠ b.nodes.size := Nat.ne_of_lt (List.mem_range.mp hi)
    rw [hb.getElem?_insert head raw hp, if_neg hne, Option.any_map]
    congr 1
    funext n
    split <;> rfl
  · have hnew := hb.getElem?_insert head raw hp b.nodes.size
    rw [if_pos rfl] at hnew
    simp [List.filter_singleton, hnew, hb.parent_record head raw hp]

theorem Linked.numbersUnder_size {b : IndexBuilder} (hb : b.Linked) :
    NodeRecord.numbersUnder b.nodes (some b.nodes.size) = [] := by
  apply List.eq_nil_iff_forall_not_mem.mpr
  intro i hi
  obtain ⟨n, hn, hparent⟩ := NodeRecord.mem_numbersUnder.mp hi
  exact Nat.lt_irrefl _ (hb.knows_parent hn _ hparent)

theorem Linked.insert {b : IndexBuilder} (hb : b.Linked) (head : TreeHead) (raw : Span)
    {parent : Option Nat} (hp : b.Knows parent) : (b.insert head raw parent).Linked := by
  have hparent := hb.parent_record head raw hp
  constructor
  · intro i n hn
    obtain ⟨rfl, rfl⟩ | ⟨m, hm, rfl⟩ := hb.of_insert hp hn
    · rfl
    · have hid := hb.id_eq hm
      exact hid
  · intro i p n hn hnp
    obtain ⟨rfl, rfl⟩ | ⟨m, hm, rfl⟩ := hb.of_insert hp hn
    · exact hp p (hparent.symm.trans hnp)
    · exact hb.parent_lt hm hnp
  · intro i n hn
    obtain ⟨rfl, rfl⟩ | ⟨m, hm, rfl⟩ := hb.of_insert hp hn
    · rw [hparent, hb.map_above_insert head raw hp hp fun _ _ => rfl]
      rfl
    · rw [hb.map_above_insert head raw hp (hb.knows_parent hm) fun _ _ => rfl]
      have hdepth := hb.depth_eq hm
      exact hdepth
  · intro i n hn
    rw [hb.numbersUnder_insert head raw hp]
    obtain ⟨rfl, rfl⟩ | ⟨m, hm, rfl⟩ := hb.of_insert hp hn
    · have hne : parent ≠ some b.nodes.size := fun h => Nat.lt_irrefl _ (hp _ h)
      rw [hb.numbersUnder_size, if_neg hne]
      rfl
    · rw [← hb.children_eq hm]
      split <;> simp
  · rw [hb.numbersUnder_insert head raw hp, ← hb.roots_eq]
    have hnone : (parent.bind fun p => b.nodes[p]?).isNone = true ↔ parent = none := by
      rw [← Option.isNone_map, ← above, hb.above_eq hp, Option.isNone_iff_eq_none]
    simp only [IndexBuilder.insert, hnone]
    split <;> simp

theorem size_le_visit (b : IndexBuilder) (parent : Option Nat) (t : Tree) :
    b.nodes.size ≤ (b.visit parent t).1.nodes.size := by
  unfold visit
  split
  · rw [size_insert]
    exact Nat.le_succ _
  · exact Nat.le_refl _

theorem Knows.visit {b : IndexBuilder} {parent : Option Nat} (hp : b.Knows parent) (t : Tree) :
    (b.visit parent t).1.Knows (b.visit parent t).2 := by
  unfold IndexBuilder.visit
  split
  · rintro p ⟨⟩
    rw [size_insert]
    exact Nat.lt_succ_self _
  · exact hp

def KnowsAll (b : IndexBuilder) (pending : List (Option Nat × Tree)) : Prop :=
  ∀ q ∈ pending, b.Knows q.1

theorem KnowsAll.visit {b : IndexBuilder} {parent : Option Nat} {t : Tree}
    {rest : List (Option Nat × Tree)} (h : b.KnowsAll ((parent, t) :: rest)) :
    (b.visit parent t).1.KnowsAll (t.children.map ((b.visit parent t).2, ·) ++ rest) := by
  intro q hq
  rcases List.mem_append.mp hq with hq | hq
  · obtain ⟨c, _, rfl⟩ := List.mem_map.mp hq
    exact (h _ List.mem_cons_self).visit t
  · exact (h q (List.mem_cons_of_mem _ hq)).mono (b.size_le_visit parent t)

section Keeping

variable {P : IndexBuilder → Prop}
  (hinsert : ∀ (b : IndexBuilder) (head : TreeHead) (raw : Span) (parent : Option Nat),
    P b → b.Knows parent → P (b.insert head raw parent))
include hinsert

theorem visit_keeps {b : IndexBuilder} (hb : P b) {parent : Option Nat} (hp : b.Knows parent)
    (t : Tree) : P (b.visit parent t).1 := by
  unfold visit
  split
  · exact hinsert b _ _ parent hb hp
  · exact hb

/-- What every insertion under a known parent keeps, a whole walk keeps. -/
theorem walk_keeps {b : IndexBuilder} (hb : P b) {pending : List (Option Nat × Tree)}
    (hpending : b.KnowsAll pending) : P (b.walk pending) := by
  fun_induction IndexBuilder.walk b pending with
  | case1 b => exact hb
  | case2 b parent t rest b' attach hvisit ih =>
    have hkept := visit_keeps hinsert hb (hpending _ List.mem_cons_self) t
    have hknown := hpending.visit
    rw [hvisit] at hkept hknown
    exact ih hkept hknown

end Keeping

theorem knowsAll_singleton (b : IndexBuilder) (tree : Tree) : b.KnowsAll [(none, tree)] := by
  simp [KnowsAll, Knows]

def ofTree (tree : Tree) (lines : Text.Lines) : IndexBuilder :=
  (empty lines).walk [(none, tree)]

end IndexBuilder

end ScriptLens
