import ScriptLens.Index.Query
import ScriptLens.Proofs.Index.Flattening
import ScriptLens.Proofs.Reading.Placement

/-! # Exact spans

In a tree that is laid out, a node lies inside every node above it and identifiers stand
apart. A walk over such a tree never has to move a span: what is handed down to a pending
node is the record of a node that holds it. So every record has the span that its node had,
and the span of an identifier finds its own record and spells its name.
-/
namespace ScriptLens

namespace Grid

variable {g : Grid} {region : Span} {ts : List Tree}

theorem Laid.mem (h : g.Laid region ts) {t : Tree} (ht : t ∈ ts) : g.Laid region [t] :=
  h.sublist (List.singleton_sublist.mpr ht)

theorem Laid.pairwise (h : g.Laid region ts) :
    ts.Pairwise fun a b => ∀ m ∈ g.marks [a], ∀ n ∈ g.marks [b], m.Apart n := by
  induction h with
  | nil => exact .nil
  | @cons region t rest _ _ _ apart _ ih =>
    refine .cons ?_ ih
    intro b hb m hm n hn
    exact apart m hm n (marks_subset (List.singleton_sublist.mpr hb) hn)

theorem Laid.child {t c : Tree} {i : Nat} (h : g.Laid region [t]) (hc : t.offspring[i]? = some c) :
    t.children[i]? = some c ∧ g.Laid (t.placed?.getD region) [c] := by
  obtain ⟨hadmits, hbelow⟩ := laid_singleton.mp h
  have hchild := Tree.getElem?_children_eq_some_iff.mpr ⟨hadmits.unsealed, hc⟩
  exact ⟨hchild, hbelow.mem (List.mem_of_getElem? hchild)⟩

theorem Admits.region_within {t : Tree} (h : g.Admits region t) :
    (t.placed?.getD region).Within region := by
  cases hspan : t.placed? with
  | none => exact .refl region
  | some span => exact (h.suits span hspan).within

theorem Laid.at? {t u : Tree} {way : List Nat} (h : g.Laid region [t])
    (hu : t.at? way = some u) : ∃ around, around.Within region ∧ g.Laid around [u] := by
  induction way generalizing t region with
  | nil =>
    cases hu
    exact ⟨region, .refl region, h⟩
  | cons i way ih =>
    obtain ⟨c, hc, hu⟩ := Option.bind_eq_some_iff.mp hu
    obtain ⟨around, hwithin, hlaid⟩ := ih (h.child hc).2 hu
    exact ⟨around, hwithin.trans (laid_singleton.mp h).1.region_within, hlaid⟩

theorem Laid.within {t u : Tree} {way : List Nat} {outer inner : Span} (h : g.Laid region [t])
    (ht : t.placed? = some outer) (hu : t.at? way = some u) (hspan : u.placed? = some inner) :
    inner.Within outer := by
  cases way with
  | nil =>
    cases hu
    rw [ht] at hspan
    cases hspan
    exact .refl outer
  | cons i way =>
    obtain ⟨c, hc, hu⟩ := Option.bind_eq_some_iff.mp hu
    have hchild := (h.child hc).2
    rw [ht, Option.getD_some] at hchild
    obtain ⟨around, hwithin, hlaid⟩ := hchild.at? hu
    exact ((laid_singleton.mp hlaid).1.suits inner hspan).within.trans hwithin

theorem Laid.mem_marks {t u : Tree} {way : List Nat} {span : Span} (h : g.Laid region [t])
    (hu : t.at? way = some u) (hspan : u.placed? = some span)
    (hkind : g.counts u.head.kind = true) : span ∈ g.marks [t] := by
  induction way generalizing t region with
  | nil =>
    cases hu
    exact mem_marks_cons.mpr (.inl (.inl ⟨hspan, hkind⟩))
  | cons i way ih =>
    obtain ⟨c, hc, hu⟩ := Option.bind_eq_some_iff.mp hu
    obtain ⟨hchild, hlaid⟩ := h.child hc
    have hmark := marks_subset (List.singleton_sublist.mpr (List.mem_of_getElem? hchild))
      (ih hlaid hu)
    exact mem_marks_cons.mpr (.inl (.inr hmark))

theorem Laid.not_below_ident {t u : Tree} {i : Nat} {way : List Nat} (h : g.Laid region [t])
    (hkind : t.head.kind = .identifier) : t.at? (i :: way) ≠ some u := by
  intro hu
  obtain ⟨c, hc, _⟩ := Option.bind_eq_some_iff.mp hu
  have hchild := (h.child hc).1
  rw [((laid_singleton.mp h).1.spelled hkind).1] at hchild
  cases hchild

theorem Laid.apart {t u v : Tree} {way other : List Nat} {s s' : Span} (h : g.Laid region [t])
    (hu : t.at? way = some u) (hv : t.at? other = some v)
    (hku : u.head.kind = .identifier) (hkv : v.head.kind = .identifier)
    (hsu : u.placed? = some s) (hsv : v.placed? = some s') (hne : way ≠ other) : s.Apart s' := by
  have hcounts : ∀ w : Tree, w.head.kind = .identifier → g.counts w.head.kind = true := by
    intro w hw
    simp [counts, hw]
  induction way generalizing t region other with
  | nil =>
    cases hu
    cases other with
    | nil => exact absurd rfl hne
    | cons j other => exact absurd hv (h.not_below_ident hku)
  | cons i way ih =>
    cases other with
    | nil =>
      cases hv
      exact absurd hu (h.not_below_ident hkv)
    | cons j other =>
      obtain ⟨c, hc, hu⟩ := Option.bind_eq_some_iff.mp hu
      obtain ⟨d, hd, hv⟩ := Option.bind_eq_some_iff.mp hv
      obtain ⟨hci, hlc⟩ := h.child hc
      obtain ⟨hdj, hld⟩ := h.child hd
      by_cases hij : i = j
      · subst hij
        rw [hc] at hd
        cases hd
        exact ih hlc hu hv fun heq => hne (by rw [heq])
      · have hmu := hlc.mem_marks hu hsu (hcounts u hku)
        have hmv := hld.mem_marks hv hsv (hcounts v hkv)
        have hpairs := List.pairwise_iff_getElem.mp (laid_singleton.mp h).2.pairwise
        obtain ⟨hi, rfl⟩ := List.getElem?_eq_some_iff.mp hci
        obtain ⟨hj, rfl⟩ := List.getElem?_eq_some_iff.mp hdj
        rcases Nat.lt_or_gt_of_ne hij with hlt | hlt
        · exact hpairs i j hi hj hlt s hmu s' hmv
        · exact (hpairs j i hj hi hlt s' hmv s hmu).symm

end Grid

namespace IndexBuilder

theorem fit_of_within {parent s : Span} (hs : s.Proper) (h : s.Within parent) :
    fit parent s = s := by
  have h₁ := h.start_le
  have h₂ := h.stop_le
  have h₃ := hs.start_le
  have hstart : max parent.start (min s.start parent.stop) = s.start := by omega
  have hstop : max s.start (min s.stop parent.stop) = s.stop := by omega
  simp only [fit, hstart, hstop]

theorem straighten_of_proper {s : Span} (hs : s.Proper) : straighten s = s := by
  have h₁ := hs.one_le
  have h₂ := hs.start_le
  have hstart : max s.start 1 = s.start := by omega
  have hstop : max s.stop s.start = s.stop := by omega
  simp only [straighten, hstart, hstop]

/-- The records made so far have the spans of the listed nodes. -/
def Exact (b : IndexBuilder) (done : List (TreeHead × Span)) : Prop :=
  ∀ i : Nat, (b.nodes[i]?).map NodeRecord.span = (done[i]?).map Prod.snd

/-- A pending node is laid out in the span of the record that it is to be put under. -/
def Ready (g : Grid) (b : IndexBuilder) (parent : Option Nat) (t : Tree) : Prop :=
  ∃ region, g.Laid region [t] ∧
    ∀ p, parent = some p → (b.nodes[p]?).map NodeRecord.span = some region

variable {g : Grid} {b : IndexBuilder} {done : List (TreeHead × Span)}

theorem Ready.knows {parent : Option Nat} {t : Tree} (h : b.Ready g parent t) : b.Knows parent := by
  intro p hp
  obtain ⟨_, _, hspan⟩ := h
  obtain ⟨n, hn, _⟩ := Option.map_eq_some_iff.mp (hspan p hp)
  exact (Array.getElem?_eq_some_iff.mp hn).1

theorem Linked.span_insert (hb : b.Linked) (head : TreeHead) (raw : Span) {parent : Option Nat}
    (hp : b.Knows parent) (i : Nat) :
    ((b.insert head raw parent).nodes[i]?).map NodeRecord.span =
      if i = b.nodes.size then some (b.record head raw (b.above parent)).span
      else (b.nodes[i]?).map NodeRecord.span := by
  rw [hb.getElem?_insert head raw hp]
  split
  · rfl
  · cases b.nodes[i]? with
    | none => rfl
    | some n =>
      simp only [Option.map_some]
      split <;> rfl

theorem Ready.record_span {parent : Option Nat} {t : Tree} (h : b.Ready g parent t) {raw : Span}
    (hraw : t.placed? = some raw) : (b.record t.head raw (b.above parent)).span = raw := by
  obtain ⟨region, hlaid, hspan⟩ := h
  have hsuits := (Grid.laid_singleton.mp hlaid).1.suits raw hraw
  cases parent with
  | none => exact straighten_of_proper hsuits.proper
  | some p =>
    obtain ⟨n, hn, rfl⟩ := Option.map_eq_some_iff.mp (hspan p rfl)
    have habove : b.above (some p) = some n := hn
    rw [habove]
    exact (congrArg (fit n.span) (straighten_of_proper hsuits.proper)).trans
      (fit_of_within hsuits.proper hsuits.within)

theorem Ready.insert (hb : b.Linked) {parent other : Option Nat} {t : Tree}
    (h : b.Ready g other t) (head : TreeHead) (raw : Span) (hp : b.Knows parent) :
    (b.insert head raw parent).Ready g other t := by
  have hknows := h.knows
  obtain ⟨region, hlaid, hspan⟩ := h
  refine ⟨region, hlaid, ?_⟩
  intro p hother
  have hne : p ≠ b.nodes.size := Nat.ne_of_lt (hknows p hother)
  rw [hb.span_insert head raw hp, if_neg hne]
  exact hspan p hother

theorem Exact.insert (hb : b.Linked) (hsize : b.nodes.size = done.length) (h : b.Exact done)
    {parent : Option Nat} {t : Tree} (hready : b.Ready g parent t) {raw : Span}
    (hraw : t.placed? = some raw) :
    (b.insert t.head raw parent).Exact (done ++ [(t.head, raw)]) := by
  intro i
  rw [hb.span_insert t.head raw hready.knows, hready.record_span hraw]
  split
  · next hi =>
    subst hi
    rw [hsize, List.getElem?_concat_length]
    rfl
  · next hi =>
    rw [h i]
    by_cases hlt : i < done.length
    · rw [List.getElem?_append_left hlt]
    · have hlen : (done ++ [(t.head, raw)]).length ≤ i := by
        rw [List.length_append, List.length_singleton]
        omega
      rw [List.getElem?_eq_none (Nat.le_of_not_lt hlt), List.getElem?_eq_none hlen]

/-- One visit of a node that is ready makes its children ready. -/
theorem Ready.visit (hb : b.Linked) {parent : Option Nat} {t : Tree} (h : b.Ready g parent t) :
    ∀ c ∈ t.children, (b.visit parent t).1.Ready g (b.visit parent t).2 c := by
  intro c hc
  have hknows := h.knows
  have hrecord := @h.record_span
  obtain ⟨region, hlaid, hspan⟩ := h
  have hbelow := (Grid.laid_singleton.mp hlaid).2.mem hc
  unfold IndexBuilder.visit
  cases hraw : t.placed? with
  | none =>
    rw [hraw, Option.getD_none] at hbelow
    exact ⟨region, hbelow, hspan⟩
  | some raw =>
    rw [hraw, Option.getD_some] at hbelow
    refine ⟨raw, hbelow, ?_⟩
    rintro p ⟨⟩
    rw [hb.span_insert t.head raw hknows, if_pos rfl, hrecord hraw]

theorem Exact.walk (hb : b.Linked) (hsize : b.nodes.size = done.length) (h : b.Exact done)
    (pending : List (Option Nat × Tree)) (hready : ∀ q ∈ pending, b.Ready g q.1 q.2) :
    (b.walk pending).Exact (done ++ pending.flatMap fun q => q.2.entries) := by
  fun_induction IndexBuilder.walk b pending generalizing done with
  | case1 b => simpa using h
  | case2 b parent t rest b' attach hvisit ih =>
    have ht := hready _ List.mem_cons_self
    have hchildren := ht.visit hb
    rw [hvisit] at hchildren
    have hvisited : b'.Linked ∧
        b'.nodes.size = (done ++ (t.placed?.map (t.head, ·)).toList).length ∧
        b'.Exact (done ++ (t.placed?.map (t.head, ·)).toList) ∧
        ∀ q ∈ rest, b'.Ready g q.1 q.2 := by
      unfold IndexBuilder.visit at hvisit
      cases hraw : t.placed? with
      | none =>
        rw [hraw] at hvisit
        cases hvisit
        simp only [Option.map_none, Option.toList_none, List.append_nil]
        exact ⟨hb, hsize, h, fun q hq => hready q (List.mem_cons_of_mem _ hq)⟩
      | some raw =>
        rw [hraw] at hvisit
        cases hvisit
        refine ⟨hb.insert t.head raw ht.knows, ?_, h.insert hb hsize ht hraw, ?_⟩
        · rw [size_insert, hsize]
          simp
        · intro q hq
          exact (hready q (List.mem_cons_of_mem _ hq)).insert hb t.head raw ht.knows
    obtain ⟨hb', hsize', hexact, hrest⟩ := hvisited
    have hall := ih hb' hsize' hexact ?_
    · simp only [List.flatMap_append, List.flatMap_map] at hall
      rw [List.flatMap_cons, t.entries_eq]
      simpa [List.append_assoc] using hall
    · intro q hq
      rcases List.mem_append.mp hq with hq | hq
      · obtain ⟨c, hc, rfl⟩ := List.mem_map.mp hq
        exact hchildren c hc
      · exact hrest q hq

end IndexBuilder

namespace Tree

theorem at?_append (t : Tree) (way rest : List Nat) :
    t.at? (way ++ rest) = (t.at? way).bind (·.at? rest) := by
  induction way generalizing t with
  | nil => rfl
  | cons i way ih => simp only [List.cons_append, at?, Option.bind_assoc, ih]

def Nested (t : Tree) : Prop :=
  ∀ ⦃above way : List Nat⦄ ⦃a u : Tree⦄ ⦃outer inner : Span⦄, above <+: way →
    t.at? above = some a → t.at? way = some u → a.placed? = some outer →
      u.placed? = some inner → inner.Within outer

/-- Different identifiers that are not empty have different spans. -/
def IdentsDiffer (t : Tree) : Prop :=
  ∀ ⦃way other : List Nat⦄ ⦃u v : Tree⦄ ⦃span : Span⦄, t.at? way = some u → t.at? other = some v →
    u.head.kind = .identifier → v.head.kind = .identifier → u.placed? = some span →
      v.placed? = some span → span.isEmpty = false → way = other

end Tree

namespace Grid.Laid

variable {g : Grid} {region : Span} {t : Tree}

theorem nested (h : g.Laid region [t]) : t.Nested := by
  rintro above _ a u outer inner ⟨rest, rfl⟩ ha hu houter hinner
  rw [Tree.at?_append, ha] at hu
  obtain ⟨around, _, hlaid⟩ := h.at? ha
  exact hlaid.within houter hu hinner

theorem identsDiffer (h : g.Laid region [t]) : t.IdentsDiffer := by
  intro way other u v span hu hv hku hkv hsu hsv hempty
  by_contra hne
  have hapart := h.apart hu hv hku hkv hsu hsv hne
  simp only [Span.isEmpty, Span.length, beq_eq_false_iff_ne] at hempty
  unfold Span.Apart at hapart
  omega

end Grid.Laid

namespace Index

/-- An index that has a record with the right span for every node of a tree with a place,
and in which the span of an identifier finds its record and spells its name. -/
structure Exact (x : Index) (tree : Tree) : Prop where
  size_eq : x.size = tree.ways.length
  record : ∀ {i : Nat} {way : List Nat}, tree.ways[i]? = some way →
    ∃ n u, x.node? i = some n ∧ tree.at? way = some u ∧ n.kind = u.head.kind ∧
      n.name = u.head.name ∧ u.placed? = some n.span
  found : ∀ {i : Nat} {n : NodeRecord}, x.node? i = some n → n.kind = .identifier →
    n.span.isEmpty = false → x.find? .identifier n.span = some i
  spelled : ∀ {i : Nat} {n : NodeRecord}, x.node? i = some n → n.kind = .identifier →
    n.span.isEmpty = false → Text.isBoundary x.source.toUTF8 (n.span.start - 1) = true →
      Text.isBoundary x.source.toUTF8 (n.span.stop - 1) = true →
        ∃ name, n.name = some name ∧ x.textOf? i = some name

section Laid

variable {g : Grid} {tree : Tree} {region : Span} {source : String}

theorem ofTree_span (h : g.Laid region [tree]) (source : String) (i : Nat) :
    ((ofTree tree source).node? i).map NodeRecord.span = (tree.entries[i]?).map Prod.snd := by
  have hlinked := IndexBuilder.empty_linked (Text.Lines.ofBytes source.toUTF8)
  have hempty : (IndexBuilder.empty (Text.Lines.ofBytes source.toUTF8)).Exact [] := by
    intro i
    simp [IndexBuilder.empty]
  have hwalk := hempty.walk hlinked rfl [(none, tree)] (by
    intro q hq
    rw [List.mem_singleton.mp hq]
    exact ⟨region, h, fun p hp => by cases hp⟩)
  rw [List.nil_append, List.flatMap_singleton] at hwalk
  exact hwalk i

theorem ofTree_placed (h : g.Laid region [tree]) (source : String) {i : Nat} {way : List Nat}
    (hway : tree.ways[i]? = some way) :
    ∃ n u, (ofTree tree source).node? i = some n ∧ tree.at? way = some u ∧
      n.kind = u.head.kind ∧ n.name = u.head.name ∧ u.placed? = some n.span := by
  obtain ⟨n, u, hn, hu, hkind, _, hname⟩ := ofTree_record hway source
  refine ⟨n, u, hn, hu, hkind, hname, ?_⟩
  have hentries := congrArg (·[i]?) tree.map_entryAt?_ways
  simp only [List.getElem?_map, hway, Option.map_some, Tree.entryAt?, hu, Option.bind_some]
    at hentries
  obtain ⟨e, he, hentry⟩ := Option.map_eq_some_iff.mp hentries.symm
  obtain ⟨span, hspan, rfl⟩ := Option.map_eq_some_iff.mp hentry.symm
  have hrecord := ofTree_span h source i
  rw [hn, he] at hrecord
  rw [hspan]
  exact hrecord.symm

theorem exists_way {i : Nat} {n : NodeRecord} (hn : (ofTree tree source).node? i = some n) :
    ∃ way, tree.ways[i]? = some way := by
  have hlt := lt_size_of_node? hn
  rw [ofTree_size, ← List.length_map, ← tree.map_entryAt?_ways, List.length_map] at hlt
  exact ⟨tree.ways[i], List.getElem?_eq_getElem hlt⟩

theorem ofTree_found (h : g.Laid region [tree]) {i : Nat} {n : NodeRecord}
    (hn : (ofTree tree source).node? i = some n) (hkind : n.kind = .identifier)
    (hempty : n.span.isEmpty = false) : (ofTree tree source).find? .identifier n.span = some i := by
  obtain ⟨way, hway⟩ := exists_way hn
  obtain ⟨m, u, hm, hu, hmkind, _, hspan⟩ := ofTree_placed h source hway
  rw [hn] at hm
  cases hm
  obtain ⟨hlt, hat⟩ := List.getElem?_eq_some_iff.mp hway
  rw [ofTree_find?_ways, List.findIdx?_eq_some_iff_getElem]
  refine ⟨hlt, ?_, ?_⟩
  · simp [hat, hu, hspan, ← hmkind, hkind]
  · intro j hj
    have hjlt : j < tree.ways.length := Nat.lt_trans hj hlt
    simp only [Bool.not_eq_true, Option.any_eq_false, Bool.and_eq_false_imp, beq_iff_eq]
    intro v hv hvkind
    rw [beq_eq_false_iff_ne]
    intro hvspan
    have hsame := h.identsDiffer hv hu hvkind (hmkind ▸ hkind) hvspan hspan hempty
    have hless := List.pairwise_iff_getElem.mp tree.ways_pairwise j i hjlt hlt hj
    rw [hsame, hat] at hless
    exact List.lt_irrefl _ hless

theorem ofTree_spelled (h : g.Laid region [tree]) (hsource : g.source = source.toUTF8)
    (hregion : region.stop ≤ source.toUTF8.size + 1) {i : Nat} {n : NodeRecord}
    (hn : (ofTree tree source).node? i = some n) (hkind : n.kind = .identifier)
    (hstart : Text.isBoundary source.toUTF8 (n.span.start - 1) = true)
    (hstop : Text.isBoundary source.toUTF8 (n.span.stop - 1) = true) :
    ∃ name, n.name = some name ∧ (ofTree tree source).textOf? i = some name := by
  obtain ⟨way, hway⟩ := exists_way hn
  obtain ⟨m, u, hm, hu, hmkind, hname, hspan⟩ := ofTree_placed h source hway
  rw [hn] at hm
  cases hm
  obtain ⟨around, haround, hlaid⟩ := h.at? hu
  have hadmits := (Grid.laid_singleton.mp hlaid).1
  have hsuits := hadmits.suits n.span hspan
  have hle := hsuits.proper.start_le
  have hslice : Text.slice? source.toUTF8 (n.span.start - 1) (n.span.stop - 1) =
      some (Text.lossySlice source.toUTF8 (n.span.start - 1) (n.span.stop - 1)) := by
    have hle' : n.span.start - 1 ≤ n.span.stop - 1 := by omega
    rw [Text.slice?, hstart, hstop, decide_eq_true hle']
    rfl
  have hend : min (n.span.stop - 1) source.toUTF8.size = n.span.stop - 1 := by
    have hin := (hsuits.within.trans haround).stop_le
    omega
  refine ⟨Text.lossySlice source.toUTF8 (n.span.start - 1) (n.span.stop - 1), ?_, ?_⟩
  · rw [hname, ((hadmits.spelled (hmkind ▸ hkind)).2 n.span hspan).text, hsource, hslice]
    rfl
  · have hbytes : (ofTree tree source).source = source := rfl
    rw [textOf?, hn, Option.bind_some]
    simp only [hbytes, hend, hslice]

end Laid

end Index

/-- Reading keeps spans nested and identifiers apart, and the index of what is read has all
spans as they are. -/
theorem Program.ofCst_spans (source : String) (t : Cst)
    (h : ∀ n ∈ t.nodes, n.head.Orders (n.children.map Rose.head))
    (hstop : t.head.stop ≤ source.toUTF8.size) :
    let tree := (Program.ofCst source.toUTF8 t).toTree
    tree.Nested ∧ tree.IdentsDiffer ∧ (Index.ofTree tree source).Exact tree := by
  have hcovers : Grid.Covers ⟨source.toUTF8, false⟩ t := ⟨h, fun hscopes => by cases hscopes⟩
  have hbody := hcovers.laid_program hstop
  have hlaid : Grid.Laid ⟨source.toUTF8, false⟩ ⟨1, source.toUTF8.size + 1⟩
      [(Program.ofCst source.toUTF8 t).toTree] :=
    .placed rfl Grid.placed?_inner ⟨.refl _, ⟨Nat.le_refl 1, Nat.le_add_left 1 _⟩,
      fun hscopes => by cases hscopes⟩ (fun hkind => by cases hkind) hbody
  refine ⟨hlaid.nested, hlaid.identsDiffer, ?_, fun hway => Index.ofTree_placed hlaid source hway,
    fun hn hkind hempty => Index.ofTree_found hlaid hn hkind hempty, ?_⟩
  · rw [Index.ofTree_size, ← List.length_map, ← Tree.map_entryAt?_ways, List.length_map]
  · intro i n hn hkind _ hstart hend
    exact Index.ofTree_spelled hlaid rfl (Nat.le_refl _) hn hkind hstart hend

/-- The tree of `class A extends B { m(x) { x; } }`. -/
def derivedClass : Cst :=
  .named "program" none 0 33 [.named "class_declaration" none 0 33 [
    .token "class" none 0 5,
    .named "identifier" (some "name") 6 7 [],
    .named "class_heritage" none 8 17 [
      .token "extends" none 8 15, .named "identifier" none 16 17 []],
    .named "class_body" (some "body") 18 33 [
      .token "\x7b" none 18 19,
      .named "method_definition" (some "member") 20 31 [
        .named "property_identifier" (some "name") 20 21 [],
        .named "formal_parameters" (some "parameters") 21 24 [
          .token "(" none 21 22, .named "identifier" none 22 23 [], .token ")" none 23 24],
        .named "statement_block" (some "body") 25 31 [
          .token "\x7b" none 25 26,
          .named "expression_statement" none 27 29 [
            .named "identifier" none 27 28 [], .token ";" none 28 29],
          .token "\x7d" none 30 31]],
      .token "\x7d" none 32 33]]]

theorem derivedClass_spans :
    let source := "class A extends B \x7b m(x) \x7b x; \x7d \x7d"
    let tree := (Program.ofCst source.toUTF8 derivedClass).toTree
    (∀ n ∈ derivedClass.nodes, n.head.Orders (n.children.map Rose.head)) ∧
    derivedClass.head.stop ≤ source.toUTF8.size ∧ tree.ways.length = 11 ∧
    tree.Nested ∧ tree.IdentsDiffer ∧ (Index.ofTree tree source).Exact tree := by
  intro source tree
  have horders : ∀ n ∈ derivedClass.nodes, n.head.Orders (n.children.map Rose.head) := by
    decide +kernel
  have hstop : derivedClass.head.stop ≤ source.toUTF8.size := by decide +kernel
  exact ⟨horders, hstop, by decide +kernel, Program.ofCst_spans source derivedClass horders hstop⟩

end ScriptLens
