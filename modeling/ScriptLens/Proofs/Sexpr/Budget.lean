import ScriptLens.Proofs.Sexpr.Listing

/-! # What a limit on the number of nodes leaves out

A print is a row of pieces, one for each node that stands not too deep, in pre-order: what is
written of the node before its children, and then the parentheses that close before the next
node. A limit keeps the first pieces as they are and makes the dots of the next one, so the
print with a limit goes along with the print without one up to the line break of the first node
too many. After the dots only the parentheses close that are open there.
-/
namespace ScriptLens

namespace Sexpr

/-! ## Pieces -/

/-- What is printed of a node before its children, and how deep the node stands. -/
structure Piece where
  depth : Nat
  text : List Char
deriving DecidableEq

/-- The dots in place of the children that stand too deep are no node. -/
def Placed.piece (o : SexprOptions) : Placed → Piece
  | ⟨depth, .node head span flags text children⟩ =>
    { depth
      text := '(' :: front o head span flags text ++
        if isCut o depth && !children.isEmpty then lineBreak o (depth + 1) ++ placeholder else [] }

/-- The dots in place of a node; like a node they get their closing parenthesis later. -/
def Piece.dots (p : Piece) : Piece := { p with text := "(...".toList }

def isShown (o : SexprOptions) (depth : Nat) : Bool :=
  match o.maxDepth with
  | some limit => depth ≤ limit
  | none => true

/-- The pieces of the nodes that are printed unless there are too many. -/
def piecesOf (o : SexprOptions) (nodes : List Placed) : List Piece :=
  (nodes.filter (isShown o ·.depth)).map (·.piece o)

/-- How deep the next node stands, if `depth` is the depth after the last. -/
def nextDepth (depth : Nat) (pieces : List Piece) : Nat := (pieces.head?.map Piece.depth).getD depth

/-- Pieces one after another, each with the parentheses that close before the next. The first
comes after the text `lead`, the others after a line break. -/
def spell (o : SexprOptions) (lead : List Char) (last : Nat) : List Piece → List Char
  | [] => []
  | p :: rest =>
    lead ++ p.text ++ List.replicate (p.depth + 1 - nextDepth last rest) ')' ++
      spell o (lineBreak o (nextDepth last rest)) last rest

namespace Budget

def cut : Budget → List Piece → List Piece
  | .unlimited, pieces => pieces
  | .left count, pieces => pieces.take count ++ (pieces[count]?).toList.map Piece.dots
  | .spent, _ => []

def after : Budget → Nat → Budget
  | .unlimited, _ => .unlimited
  | .left count, n => if n ≤ count then .left (count - n) else .spent
  | .spent, _ => .spent

@[simp] theorem cut_nil (b : Budget) : b.cut [] = [] := by cases b <;> simp [cut]

@[simp] theorem after_zero (b : Budget) : b.after 0 = b := by cases b <;> simp [after]

theorem cut_append (b : Budget) (ps qs : List Piece) :
    b.cut (ps ++ qs) = b.cut ps ++ (b.after ps.length).cut qs := by
  cases b with
  | unlimited => rfl
  | spent => rfl
  | left count =>
    by_cases hle : ps.length ≤ count
    · simp [cut, after, hle, List.take_append, List.take_of_length_le hle,
        List.getElem?_append_right hle]
    · have hlt : count < ps.length := Nat.not_le.mp hle
      simp [cut, after, hle, List.take_append_of_le_length (Nat.le_of_lt hlt),
        List.getElem?_append_left hlt]

theorem after_add (b : Budget) (m n : Nat) : b.after (m + n) = (b.after m).after n := by
  cases b with
  | unlimited => rfl
  | spent => rfl
  | left count =>
    by_cases hm : m ≤ count
    · by_cases hn : m + n ≤ count
      · have hrest : n ≤ count - m := by omega
        simp [after, hm, hn, hrest, Nat.sub_sub]
      · have hrest : ¬ n ≤ count - m := by omega
        simp [after, hm, hn, hrest]
    · have hn : ¬ m + n ≤ count := by omega
      simp [after, hm, hn]

theorem map_depth_cut (b : Budget) (ps : List Piece) :
    (b.cut ps).map Piece.depth <+: ps.map Piece.depth := by
  cases b with
  | unlimited => exact List.prefix_refl _
  | spent => exact List.nil_prefix
  | left count =>
    have htake : ((left count).cut ps).map Piece.depth = (ps.map Piece.depth).take (count + 1) := by
      rw [cut, List.take_add_one, List.map_append, List.map_take, List.getElem?_map]
      cases ps[count]? <;> rfl
    rw [htake]
    exact List.take_prefix _ _

end Budget

/-! ## Pieces of siblings -/

/-- The first stands at the depth given, and none less deep. -/
structure AtDepth (depth : Nat) (ps : List Piece) : Prop where
  next_eq : nextDepth depth ps = depth
  le_depth : ∀ p ∈ ps, depth ≤ p.depth

namespace AtDepth

variable {o : SexprOptions} {depth : Nat} {p : Piece} {ps qs : List Piece}

theorem nil (depth : Nat) : AtDepth depth [] := ⟨rfl, by simp⟩

theorem append (h : AtDepth depth ps) (hq : AtDepth depth qs) : AtDepth depth (ps ++ qs) := by
  constructor
  · cases ps with
    | nil => exact hq.next_eq
    | cons p ps => exact h.next_eq
  · intro p hp
    rcases List.mem_append.mp hp with hp | hp
    · exact h.le_depth p hp
    · exact hq.le_depth p hp

theorem cut (h : AtDepth depth ps) (b : Budget) : AtDepth depth (b.cut ps) := by
  have hleft := b.map_depth_cut ps
  constructor
  · have hnext := h.next_eq
    rw [nextDepth, ← List.head?_map] at hnext ⊢
    obtain ⟨rest, hrest⟩ := hleft
    rw [← hrest] at hnext
    cases hdepths : (b.cut ps).map Piece.depth with
    | nil => rfl
    | cons d ds =>
      rw [hdepths] at hnext
      exact hnext
  · intro p hp
    obtain ⟨q, hq, heq⟩ := List.mem_map.mp (hleft.subset (List.mem_map_of_mem hp))
    rw [← heq]
    exact h.le_depth q hq

/-- One parenthesis more closes after the last piece if the next node is one less deep. -/
theorem spell_succ {lead : List Char} (hne : ps ≠ []) (hdeep : ∀ p ∈ ps, depth ≤ p.depth) :
    spell o lead depth ps = spell o lead (depth + 1) ps ++ [')'] := by
  induction ps generalizing lead with
  | nil => exact absurd rfl hne
  | cons p ps ih =>
    cases ps with
    | nil =>
      have hp := hdeep p List.mem_cons_self
      have hmore : p.depth + 1 - depth = p.depth + 1 - (depth + 1) + 1 := by omega
      simp [spell, nextDepth, hmore, List.replicate_succ']
    | cons q ps =>
      have hnext : ∀ last, nextDepth last (q :: ps) = q.depth := fun _ => rfl
      have hrest : spell o (lineBreak o q.depth) depth (q :: ps) =
          spell o (lineBreak o q.depth) (depth + 1) (q :: ps) ++ [')'] :=
        ih (List.cons_ne_nil q ps) fun r hr => hdeep r (List.mem_cons_of_mem p hr)
      rw [spell.eq_2 o lead depth p, spell.eq_2 o lead (depth + 1) p, hnext, hnext, hrest,
        List.append_assoc _ _ [')']]

/-- After the piece of a node come those of its children, and the parenthesis that closes it. -/
theorem spell_node (h : AtDepth (depth + 1) ps) (hp : p.depth = depth) (lead : List Char) :
    spell o lead depth (p :: ps) =
      lead ++ p.text ++ spell o (lineBreak o (depth + 1)) (depth + 1) ps ++ [')'] := by
  cases hps : ps with
  | nil => simp [spell, nextDepth, hp]
  | cons q rest =>
    have hfirst : q.depth = depth + 1 := by
      have hnext := h.next_eq
      rw [hps] at hnext
      exact hnext
    have hnext : nextDepth depth (q :: rest) = depth + 1 := hfirst
    have hdeep : ∀ r ∈ q :: rest, depth ≤ r.depth := fun r hr =>
      Nat.le_of_succ_le (h.le_depth r (hps ▸ hr))
    rw [spell, hnext, hp, Nat.sub_self, List.replicate_zero, List.append_nil,
      spell_succ (List.cons_ne_nil q rest) hdeep, List.append_assoc _ _ [')']]

end AtDepth

/-- What closes between two rows, and the line break there, depend on the first piece of the second
row only. -/
theorem spell_append (o : SexprOptions) (lead : List Char) (last : Nat) (ps qs : List Piece) :
    spell o lead last (ps ++ qs) =
      spell o lead (nextDepth last qs) ps ++
        spell o (if ps.isEmpty then lead else lineBreak o (nextDepth last qs)) last qs := by
  induction ps generalizing lead with
  | nil => rfl
  | cons p ps ih =>
    have hnext : nextDepth last (ps ++ qs) = nextDepth (nextDepth last qs) ps := by
      cases ps <;> rfl
    rw [List.cons_append, spell, spell, ih, hnext]
    cases ps with
    | nil => simp [nextDepth]
    | cons q ps => simp

/-! ## What is printed -/

theorem isShown_succ (o : SexprOptions) (depth : Nat) :
    isShown o (depth + 1) = !isCut o depth := by
  unfold isShown isCut
  cases o.maxDepth with
  | none => rfl
  | some limit =>
    rw [← decide_not]
    exact decide_eq_decide.mpr Nat.not_le.symm

theorem piecesOf_append (o : SexprOptions) (us vs : List Placed) :
    piecesOf o (us ++ vs) = piecesOf o us ++ piecesOf o vs := by
  rw [piecesOf, List.filter_append, List.map_append, piecesOf, piecesOf]

theorem piecesOf_node {o : SexprOptions} {depth : Nat} (h : isShown o depth = true)
    (head span : List Char) (flags : List (List Char)) (text : Option (List Char))
    (children : List Sexpr) :
    piecesOf o (placed depth (.node head span flags text children)) =
      Placed.piece o ⟨depth, .node head span flags text children⟩ ::
        piecesOf o (placedAll (depth + 1) children) := by
  simp [placed, piecesOf, h]

theorem piecesOf_hidden {o : SexprOptions} {depth : Nat} (h : isCut o depth = true)
    (ts : List Sexpr) : piecesOf o (placedAll (depth + 1) ts) = [] := by
  rw [piecesOf, List.map_eq_nil_iff, List.filter_eq_nil_iff]
  intro v hv
  have hdeep := le_depth_placedAll (depth + 1) ts v hv
  unfold isCut at h
  unfold isShown
  cases hlimit : o.maxDepth with
  | none =>
    rw [hlimit] at h
    cases h
  | some limit =>
    rw [hlimit] at h
    have hle : limit ≤ depth := of_decide_eq_true h
    intro hshown
    have hge : v.depth ≤ limit := of_decide_eq_true hshown
    omega

theorem Placed.depth_piece (o : SexprOptions) (v : Placed) : (v.piece o).depth = v.depth := by
  obtain ⟨depth, ⟨_, _, _, _, _⟩⟩ := v
  rfl

theorem atDepth_placed {o : SexprOptions} {depth : Nat} (h : isShown o depth = true) (t : Sexpr) :
    AtDepth depth (piecesOf o (t.placed depth)) := by
  constructor
  · obtain ⟨head, span, flags, text, children⟩ := t
    rw [piecesOf_node h]
    rfl
  · intro p hp
    obtain ⟨v, hv, rfl⟩ := List.mem_map.mp hp
    rw [v.depth_piece]
    exact le_depth_placed depth t v (List.mem_filter.mp hv).1

theorem atDepth_placedAll {o : SexprOptions} {depth : Nat} (h : isShown o depth = true)
    (ts : List Sexpr) : AtDepth depth (piecesOf o (placedAll depth ts)) := by
  induction ts with
  | nil => exact .nil depth
  | cons t rest ih =>
    rw [placedAll, piecesOf_append]
    exact (atDepth_placed h t).append ih

theorem Budget.cut_cons {b : Budget} (h : b ≠ .spent ∧ b ≠ .left 0) (p : Piece) (ps : List Piece) :
    b.cut (p :: ps) = p :: b.less.cut ps ∧ b.after (ps.length + 1) = b.less.after ps.length := by
  cases b with
  | unlimited => exact ⟨rfl, rfl⟩
  | spent => exact absurd rfl h.1
  | left count =>
    cases count with
    | zero => exact absurd rfl h.2
    | succ count => simp [cut, after, less]

/-- What is between the front of a node and its closing parenthesis, and the budget after it. -/
def writeInside (o : SexprOptions) (depth : Nat) (b : Budget) (children : List Sexpr) :
    List Char × Budget :=
  if isCut o depth && !children.isEmpty then (lineBreak o (depth + 1) ++ placeholder, b)
  else writeAll o (depth + 1) b children

theorem write_node {b : Budget} (h : b ≠ .spent ∧ b ≠ .left 0) (o : SexprOptions)
    (lead : List Char) (depth : Nat) (head span : List Char) (flags : List (List Char))
    (text : Option (List Char)) (children : List Sexpr) :
    write o lead depth b (.node head span flags text children) =
      (lead ++ '(' :: front o head span flags text ++
        (writeInside o depth b.less children).1 ++ [')'],
        (writeInside o depth b.less children).2) := by
  rw [write.eq_def]
  simp only [writeInside]
  split
  · exact absurd rfl h.1
  · exact absurd rfl h.2
  · rfl

mutual

/-- A tree spells its pieces as far as the budget goes, and uses it up by as many nodes. -/
theorem write_eq (o : SexprOptions) (lead : List Char) {depth : Nat} (b : Budget)
    (h : isShown o depth = true) : (t : Sexpr) →
    write o lead depth b t = (spell o lead depth (b.cut (piecesOf o (t.placed depth))),
      b.after (piecesOf o (t.placed depth)).length)
  | .node head span flags text children => by
    rw [piecesOf_node h]
    by_cases hend : b = .spent ∨ b = .left 0
    · rcases hend with rfl | rfl
      · simp [write, Budget.cut, Budget.after, spell]
      · simp [write, Budget.cut, Budget.after, spell, Piece.dots, nextDepth, placeholder,
          Placed.depth_piece]
    · have hopen := not_or.mp hend
      let piece := Placed.piece o ⟨depth, .node head span flags text children⟩
      have hpiece : piece.depth = depth := rfl
      obtain ⟨hcut, hafter⟩ := Budget.cut_cons hopen piece
        (piecesOf o (placedAll (depth + 1) children))
      rw [List.length_cons, hcut, hafter, write_node hopen, writeInside]
      cases hdeep : isCut o depth with
      | true =>
        rw [piecesOf_hidden hdeep, Budget.cut_nil, (AtDepth.nil (depth + 1)).spell_node hpiece]
        cases children <;> simp [piece, Placed.piece, hdeep, spell, writeAll]
      | false =>
        have hshown : isShown o (depth + 1) = true := by rw [isShown_succ, hdeep]; rfl
        have hchildren := (atDepth_placedAll hshown children).cut b.less
        rw [hchildren.spell_node hpiece, writeAll_eq o b.less hshown children]
        simp [piece, Placed.piece, hdeep]

theorem writeAll_eq (o : SexprOptions) {depth : Nat} (b : Budget) (h : isShown o depth = true) :
    (ts : List Sexpr) →
    writeAll o depth b ts = (spell o (lineBreak o depth) depth
      (b.cut (piecesOf o (placedAll depth ts))), b.after (piecesOf o (placedAll depth ts)).length)
  | [] => by simp [writeAll, placedAll, piecesOf, spell]
  | t :: rest => by
    have hnext := ((atDepth_placedAll h rest).cut
      (b.after (piecesOf o (t.placed depth)).length)).next_eq
    simp only [writeAll, write_eq o _ b h t, writeAll_eq o _ h rest, placedAll, piecesOf_append,
      List.length_append, b.after_add, b.cut_append, spell_append, hnext, ite_self]

end

theorem render_eq (o : SexprOptions) (ts : List Sexpr) :
    render o ts =
      spell o [] 0 ((Budget.ofLimit o.maxNodes).cut (piecesOf o (placedAll 0 ts))) := by
  have hshown : isShown o 0 = true := by
    unfold isShown
    split
    · exact decide_eq_true (Nat.zero_le _)
    · rfl
  cases ts with
  | nil => simp [render, placedAll, piecesOf, spell]
  | cons t rest =>
    let first := piecesOf o (t.placed 0)
    have hnext := ((atDepth_placedAll hshown rest).cut
      ((Budget.ofLimit o.maxNodes).after first.length)).next_eq
    have hfirst : ((Budget.ofLimit o.maxNodes).cut first).isEmpty = false := by
      obtain ⟨head, span, flags, text, children⟩ := t
      simp only [first, piecesOf_node hshown]
      cases o.maxNodes with
      | none => rfl
      | some count => cases count <;> rfl
    simp only [render, write_eq o _ _ hshown t, writeAll_eq o _ hshown rest, placedAll,
      piecesOf_append, Budget.cut_append, spell_append, hnext, hfirst, first, Bool.false_eq_true,
      if_false]

/-! ## With and without a limit -/

section Limit

variable (o : SexprOptions)

theorem spell_maxNodes (limit : Option Nat) (lead : List Char) (last : Nat) (ps : List Piece) :
    spell { o with maxNodes := limit } lead last ps = spell o lead last ps := by
  induction ps generalizing lead with
  | nil => rfl
  | cons p ps ih =>
    rw [spell, spell, ih]
    rfl

theorem render_maxNodes (limit : Option Nat) (ts : List Sexpr) :
    render { o with maxNodes := limit } ts =
      spell o [] 0 ((Budget.ofLimit limit).cut (piecesOf o (placedAll 0 ts))) := by
  rw [render_eq, spell_maxNodes]
  rfl

/-- A print up to the text of a node, with the line break that only the first node lacks. -/
def upTo (o : SexprOptions) (before : List Piece) (v : Piece) : List Char :=
  spell o [] v.depth before ++ if before.isEmpty then [] else lineBreak o v.depth

theorem spell_upTo (before : List Piece) (v : Piece) (rest : List Piece) :
    spell o [] 0 (before ++ v :: rest) =
      upTo o before v ++ v.text ++
        List.replicate (v.depth + 1 - nextDepth 0 rest) ')' ++
          spell o (lineBreak o (nextDepth 0 rest)) 0 rest := by
  have hnext : nextDepth 0 (v :: rest) = v.depth := rfl
  rw [spell_append, hnext, spell, upTo]
  simp only [List.append_assoc]

/-- What a limit of `m` nodes leaves of the print of a row of nodes. -/
structure Limits (m : Nat) (nodes : List Piece) (full limited : List Char) : Prop where
  full_eq : full = spell o [] 0 nodes
  enough : nodes.length ≤ m → limited = full
  short : ∀ before v after, nodes = before ++ v :: after → before.length = m →
    (∃ rest, full = upTo o before v ++ v.text ++ rest) ∧
      limited = upTo o before v ++ placeholder ++ List.replicate v.depth ')'

theorem render_limits (m : Nat) (ts : List Sexpr) :
    Limits o m (piecesOf o (placedAll 0 ts)) (render { o with maxNodes := none } ts)
      (render { o with maxNodes := some m } ts) := by
  rw [render_maxNodes, render_maxNodes]
  refine ⟨rfl, ?_, ?_⟩
  · intro hle
    simp [Budget.ofLimit, Budget.cut, List.take_of_length_le hle, List.getElem?_eq_none hle]
  · rintro before v after hnodes rfl
    constructor
    · rw [hnodes, Budget.ofLimit, Budget.cut, spell_upTo]
      exact ⟨_, List.append_assoc _ _ _⟩
    · have hcut : (Budget.ofLimit (some before.length)).cut (before ++ v :: after) =
          before ++ [v.dots] := by
        simp [Budget.ofLimit, Budget.cut]
      rw [hnodes, hcut, spell_upTo]
      simp [upTo, Piece.dots, spell, nextDepth, placeholder, List.replicate_succ]

end Limit

end Sexpr

open Sexpr

/-- With a limit of `m` nodes, an index and a snapshot are printed as without one unless more
than `m` nodes are to be printed; then the print is the same up to the node after the first `m`,
the dots stand in its place, and after them the parentheses close that are open there. The nodes
are those that stand not too deep, in pre-order, which for the index of a tree is the order of
the records. -/
theorem format_maxNodes (o : SexprOptions) (m : Nat) :
    (∀ x : Index, Limits o m (piecesOf o x.placed) (x.format { o with maxNodes := none }).toList
      (x.format { o with maxNodes := some m }).toList) ∧
    (∀ (tree : Tree) (source : String), let x := Index.ofTree tree source
      x.placed = x.nodes.toList.map fun n => ⟨n.depth, x.sexprFrom n.id⟩) ∧
    ∀ s : Snapshot,
      Limits o m (piecesOf o s.placed) (s.format { o with maxNodes := none }).toList
        (s.format { o with maxNodes := some m }).toList ∧
      s.placed.map Placed.tree = s.nodes.map Snapshot.sexpr := by
  refine ⟨?_, Index.placed_ofTree, ?_⟩
  · intro x
    rw [Index.format, Index.format, String.toList_ofList, String.toList_ofList]
    exact render_limits o m _
  · intro s
    have hplaced : s.placed = placedAll 0 [s.sexpr] := by
      rw [Snapshot.placed, placedAll, placedAll, List.append_nil]
    rw [Snapshot.format, Snapshot.format, String.toList_ofList, String.toList_ofList]
    constructor
    · rw [hplaced]
      exact render_limits o m _
    · exact s.map_tree_placed 0

def nestedSnapshot : Snapshot :=
  let head (kind : String) : SnapshotHead := { (default : SnapshotHead) with kind := kind }
  .node (head "a") [.node (head "b") [], .node (head "c") [.node (head "d") []]]

def kindsOnly : SexprOptions := ⟨false, false, false, none, none, true⟩

theorem nestedSnapshot_format :
    (nestedSnapshot.format { kindsOnly with maxNodes := none }).toList =
      "(a (b) (c (d)))".toList ∧
    (nestedSnapshot.format { kindsOnly with maxNodes := some 3 }).toList =
      "(a (b) (c (...)))".toList := by
  have hlimits := ((format_maxNodes kindsOnly 3).2.2 nestedSnapshot).1
  let piece (depth : Nat) (text : String) : Piece := ⟨depth, text.toList⟩
  have hnodes : piecesOf kindsOnly nestedSnapshot.placed =
      [piece 0 "(a", piece 1 "(b", piece 1 "(c"] ++ piece 2 "(d" :: [] := by decide
  constructor
  · rw [hlimits.full_eq, hnodes]
    decide
  · rw [(hlimits.short _ _ _ hnodes rfl).2]
    decide

end ScriptLens
