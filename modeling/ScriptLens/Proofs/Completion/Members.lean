import ScriptLens.Proofs.Completion.Keys
import ScriptLens.Proofs.Completion.Narrowing
import ScriptLens.Proofs.Index.Numbers
import ScriptLens.Proofs.Scope.Visibility

/-! # Members of object literals

For a property of a global variable that starts out as an object literal, the names of the
members of the literal are offered, in the order in which they stand there, and then the methods
of every object. The index has no keys any more, only their expressions, so a computed key is told
by the text in front of it.
-/
namespace ScriptLens

open Rose

namespace Ast

/-- The names that the parts of an object literal give to members, in source order. A computed
key and a spread give none. -/
def memberNames : {c : Category} → Ast c → List String
  | _, .cons first rest => first.memberNames ++ rest.memberNames
  | _, .pair _ key _ => key.staticName?.toList
  | _, .shorthand id => [id.name]
  | _, .methodProp method => method.memberNames
  | _, .methodDef _ _ _ key _ _ _ _ => key.staticName?.toList
  | _, _ => []

theorem memberNames_ofList {c : Category} (parts : List (Ast c)) :
    (ofList parts).memberNames = parts.flatMap memberNames :=
  flatMap_ofList rfl (fun _ _ => rfl) parts

theorem exists_property_tree (a : Ast .property) : ∃ u, a.trees = [u] := by
  cases a with
  | pair | shorthand | spreadProp => exact ⟨_, rfl⟩
  | methodProp method =>
    cases method
    exact ⟨_, rfl⟩

end Ast

namespace Candidate

theorem map_label_distinct (seen : List String) (cs : List Candidate) :
    (distinct seen cs).map label = ((cs.map label).filter (!seen.contains ·)).eraseDups := by
  induction cs generalizing seen with
  | nil => rfl
  | cons c rest ih =>
    rw [distinct, List.map_cons, List.filter_cons]
    cases hseen : seen.contains c.label with
    | true => rw [if_pos rfl, ih, Bool.not_true, if_neg Bool.false_ne_true]
    | false =>
      rw [if_neg Bool.false_ne_true, List.map_cons, ih, Bool.not_false, if_pos rfl,
        List.eraseDups_cons, List.filter_filter]
      congr 3
      funext l
      rw [List.contains_cons, Bool.not_or]

end Candidate

theorem Reading.placed?_property {source : ByteArray} {r : Reading} {a : Ast .property} {u : Tree}
    (ha : r.property? source = some a) (hu : a.trees = [u]) :
    u.placed? = if r.span.isNowhere then none else some r.span := by
  unfold Reading.property? at ha
  split at ha
  case h_1 | h_3 | h_4 =>
    cases ha
    cases hu
    exact Grid.placed?_inner
  case h_2 =>
    cases ha
    cases hu
    exact Grid.placed?_leaf
  case h_5 => cases ha

namespace Indexed

variable {s : String} {x : Index} {r : Option Resolution} {tree u : Tree} {way : List Nat}
  {member key : NodeRecord} {n : Cst} {k : Ast .key}

theorem textOf?_eq (hsource : x.source = s) (hn : n.head.Stands s)
    (hmember : x.node? member.id = some member) (hspan : member.span = n.head.extent) :
    x.textOf? member.id = some (Text.lossySlice s.toUTF8 n.head.start n.head.stop) := by
  have hsize : n.head.stop ≤ s.toUTF8.size := Text.le_size_of_isBoundary hn.stop
  rw [Index.textOf?, hmember, Option.bind_some, hspan, hsource]
  simp only [CstHead.extent, Nat.add_sub_cancel, Nat.min_eq_left hsize]
  rw [Text.slice?, hn.start, hn.stop, decide_eq_true hn.start_le]
  rfl

theorem isComputedKey_eq (hsource : x.source = s) (hn : n.head.Stands s)
    (htells : n.TellsKey s k u key.span) (hmember : x.node? member.id = some member)
    (hspan : member.span = n.head.extent) (hne : member.id ≠ key.id) :
    isComputedKey ⟨x, r⟩ member key = k.staticName?.isNone := by
  have hlt := htells.start_lt
  have hfront : key.span.start - member.span.start = key.span.start - 1 - n.head.start := by
    rw [hspan, CstHead.extent, Nat.sub_sub, Nat.add_comm]
  rw [isComputedKey, decide_eq_true hne, Bool.true_and, textOf?_eq hsource hn hmember hspan,
    Option.any_some, hfront, Text.slice?_lossySlice (by omega) (by have := htells.le_stop; omega)
      hn.start htells.boundary hn.stop, Option.any_some, Bool.eq_iff_iff, beq_iff_eq, htells.told,
    Option.isNone_iff_eq_none]

theorem memberCandidate?_of_key (hx : x.Mirrors tree) (hsource : x.source = s)
    (hn : n.head.Stands s) {kind : NodeKind} (hkind : kind = .property ∨ kind = .methodDefinition)
    {label : String} {rest : List Tree} {span : Span} (htells : n.TellsKey s k u span)
    (hmember : x.Records tree way (.inner kind n.head.span label (k.trees ++ rest)) member) :
    (memberCandidate? ⟨x, r⟩ member).map Candidate.label = k.staticName? := by
  have hfirst : (Tree.inner kind n.head.span label (k.trees ++ rest)).offspring[0]? = some u := by
    rw [htells.tree]
    rfl
  obtain ⟨key, hkey, hkeySpan⟩ := hx.child hmember hfirst htells.placed
  subst hkeySpan
  have hplaced : (Tree.inner kind n.head.span label (k.trees ++ rest)).placed? =
      some n.head.extent := Cst.placed?_of_stands hn Grid.placed?_inner
  have hspan : member.span = n.head.extent := Option.some.inj (hmember.span.symm.trans hplaced)
  have hnode : x.node? member.id = some member := by rw [hmember.id, hmember.node]
  have hbelow : way < way ++ [0] := by
    have happend : way ++ [] < way ++ [0] := List.append_left_lt (List.nil_lt_cons 0 [])
    rwa [List.append_nil] at happend
  have hne : member.id ≠ key.id := by
    rw [hmember.id, hkey.id]
    exact Nat.ne_of_lt (Tree.number_lt_number (hx.indexed_of_records hmember)
      (hx.indexed_of_records hkey) hbelow)
  have hkeyOf : keyOf? ⟨x, r⟩ member = some key := by
    have hmemberKind : member.kind = kind := hmember.kind
    rw [keyOf?, hmemberKind]
    rcases hkind with rfl | rfl <;> exact hx.head?_children hmember hkey
  rw [memberCandidate?, hkeyOf, Option.bind_some,
    isComputedKey_eq hsource hn htells hnode hspan hne]
  cases hname : k.staticName? with
  | none => rfl
  | some name =>
    rw [hkey.name, htells.named name hname]
    rfl

/-- The candidate for a part of an object literal has the name of the member, if there is one. -/
theorem memberCandidate?_of_property (hx : x.Mirrors tree) (hsource : x.source = s)
    (hlegible : n.Legible s) (hn : n.head.Stands s) (hkeyed : n.isKeyed s.toUTF8 = true)
    {a : Ast .property}
    (ha : (Reading.ofCst s.toUTF8 n).property? s.toUTF8 = some a) (hu : a.trees = [u])
    (hmember : x.Records tree way u member) :
    ((memberCandidate? ⟨x, r⟩ member).map Candidate.label).toList = a.memberNames := by
  unfold Reading.property? at ha
  split at ha
  case h_1 hform =>
    rw [Reading.form, Reading.head_ofCst] at hform
    rw [Cst.isKeyed, hform] at hkeyed
    obtain ⟨v, span, htells⟩ := Cst.exists_tellsKey hlegible hn hkeyed
    cases ha
    cases hu
    rw [Reading.span, Reading.head_ofCst] at hmember
    rw [memberCandidate?_of_key hx hsource hn (.inl rfl) htells hmember]
    rfl
  case h_2 =>
    cases ha
    cases hu
    have hkind : member.kind = .identifier := hmember.kind
    have hname : member.name = some (n.head.text s.toUTF8) := hmember.name.trans (by
      rw [Reading.head_ofCst]
      rfl)
    have hself : isComputedKey ⟨x, r⟩ member member = false := by
      rw [isComputedKey, decide_eq_false (not_not.mpr rfl), Bool.false_and]
    rw [memberCandidate?, keyOf?, hkind]
    dsimp only
    rw [Option.bind_some, hself, if_neg Bool.false_ne_true, hname, Reading.head_ofCst]
    rfl
  case h_3 hform =>
    rw [Reading.form, Reading.head_ofCst] at hform
    rw [Cst.isKeyed, hform] at hkeyed
    obtain ⟨v, span, htells⟩ := Cst.exists_tellsKey hlegible hn hkeyed
    cases ha
    cases hu
    have hspan : (Reading.ofCst s.toUTF8 n).site.span = n.head.span := by
      rw [Site.span, Reading.site, Reading.head_ofCst]
    rw [hspan] at hmember
    rw [memberCandidate?_of_key hx hsource hn (.inr rfl) htells hmember]
    rfl
  case h_4 =>
    cases ha
    cases hu
    have hkind : member.kind = .spreadElement := hmember.kind
    rw [memberCandidate?, keyOf?, hkind]
    rfl
  case h_5 => cases ha

/-- The members of an object literal are offered in the order in which they stand there. -/
theorem map_label_objectKeys (hx : x.Mirrors tree) (hsource : x.source = s)
    (hlegible : n.Legible s) (hkeyed : ∀ c ∈ n.children, Cst.isKeyed s.toUTF8 c = true)
    {props : List (Ast .property)}
    (hprops : props = (Reading.ofCst s.toUTF8 n).site.parts.filterMap (·.property? s.toUTF8))
    {span : Span} {object : NodeRecord}
    (hobject : x.Records tree way (.inner .objectLiteral span "" (Ast.ofList props).trees) object) :
    (objectKeys ⟨x, r⟩ object).map Candidate.label = (Ast.ofList props).memberNames := by
  have hread : ∀ a ∈ props, ∃ c ∈ n.children,
      (Reading.ofCst s.toUTF8 c).property? s.toUTF8 = some a := by
    intro a ha
    rw [hprops, List.mem_filterMap] at ha
    obtain ⟨part, hpart, ha⟩ := ha
    have hmem := List.mem_of_mem_filter hpart
    rw [Reading.site, Reading.children_ofCst] at hmem
    obtain ⟨c, hc, rfl⟩ := List.mem_map.mp hmem
    exact ⟨c, hc, ha⟩
  choose view hview using Ast.exists_property_tree
  have htrees : (Ast.ofList props).trees = props.map view := by
    rw [Ast.trees_ofList, List.flatMap_congr fun a _ => hview a, List.map_eq_flatMap]
  rw [htrees] at hobject
  have hchildren := hx.children hobject (by
    intro v hv
    obtain ⟨a, ha, rfl⟩ := List.mem_map.mp hv
    obtain ⟨c, hc, hread⟩ := hread a ha
    have hplaced := Reading.placed?_property hread (hview a)
    rw [Reading.span, Reading.head_ofCst] at hplaced
    rw [Cst.placed?_of_stands (hlegible.stands hc) hplaced]
    exact Option.some_ne_none _)
  obtain ⟨hlength, hzip⟩ := List.forall₂_iff_zip.mp (List.forall₂_map_left_iff.mp hchildren)
  have hnames : List.Forall₂
      (fun a m => a.memberNames = ((memberCandidate? ⟨x, r⟩ m).map Candidate.label).toList)
      props (x.children object.id) := by
    refine List.forall₂_iff_zip.mpr ⟨hlength, fun ham => ?_⟩
    obtain ⟨c, hc, hread⟩ := hread _ (List.of_mem_zip ham).1
    obtain ⟨k, hmember⟩ := hzip ham
    exact (memberCandidate?_of_property hx hsource (hlegible.child hc) (hlegible.stands hc)
      (hkeyed c hc) hread (hview _) hmember).symm
  have hall : List.Forall₂ Eq (props.flatMap Ast.memberNames)
      ((x.children object.id).flatMap fun m =>
        ((memberCandidate? ⟨x, r⟩ m).map Candidate.label).toList) := by
    refine List.rel_flatMap hnames ?_
    intro a m ham
    rw [List.forall₂_eq_eq_eq]
    exact ham
  rw [List.forall₂_eq_eq_eq] at hall
  rw [objectKeys, List.map_filterMap, List.filterMap_eq_flatMap_toList, Ast.memberNames_ofList]
  exact hall.symm

theorem initializer?_of_declarator (hx : x.Mirrors tree) {v w : Tree} {span : Span}
    {declarator : NodeRecord} (hv : v.placed? ≠ none) (hw : w.placed? ≠ none)
    (hdeclarator : x.Records tree way (.inner .variableDeclarator span "" [v, w]) declarator)
    {b : BindingRecord} (hdecl : b.decl = tree.number (way ++ [0])) :
    ∃ value, initializer? ⟨x, r⟩ b = some value ∧ x.Records tree (way ++ [1]) w value := by
  obtain ⟨vspan, hv⟩ := Option.ne_none_iff_exists'.mp hv
  obtain ⟨wspan, hw⟩ := Option.ne_none_iff_exists'.mp hw
  obtain ⟨name, hname, _⟩ := hx.child hdeclarator (k := 0) rfl hv
  obtain ⟨value, hvalue, _⟩ := hx.child hdeclarator (k := 1) rfl hw
  have hchildren : declarator.children.toList =
      [tree.number (way ++ [0]), tree.number (way ++ [1])] := by
    refine hx.flattens.children_eq_map (hx.indexed_of_records hdeclarator) hdeclarator.node
      hdeclarator.leads fun k hk => ?_
    rcases k with _ | _ | k
    · exact hx.indexed_of_records hname
    · exact hx.indexed_of_records hvalue
    · exact absurd hk (by simp [Tree.inner, Tree.offspring])
  refine ⟨value, ?_, hvalue⟩
  have hkind : declarator.kind = .variableDeclarator := hdeclarator.kind
  have hparent : x.parent? b.decl = some declarator := by
    rw [hdecl, ← hname.id]
    exact hx.parent? hdeclarator hname
  rw [initializer?, hparent, Option.bind_some, hkind, ← Array.getElem?_toList,
    ← Array.getElem?_toList, hchildren, hdecl]
  simp [hvalue.node]

theorem globalBinding?_of_mem {p : Program} {b : BindingRecord} (hb : b ∈ (p.resolve x).bindings)
    (hscope : b.scope = (p.resolve x).root) :
    globalBinding? ⟨x, some (p.resolve x)⟩ b.name = some b := by
  obtain ⟨i, hi⟩ := Array.getElem?_of_mem hb
  have hgraph := p.resolve_graph x
  obtain ⟨scope, hroot, hbinding⟩ := boundIn?_eq_some.mp
    ((hgraph.bound_iff (p.resolve x).root b.name i).mpr ⟨b, hi, hscope, rfl⟩)
  rw [globalBinding?, Option.bind_some, Resolution.global?, Resolution.scope?, hroot,
    Option.bind_some, hbinding, Option.bind_some, Resolution.binding?, hi]

end Indexed

theorem Site.object_of_expr {source : ByteArray} {s : Site} {span : Span}
    {props : Ast (.list .property)} (h : s.expr source = .object span props) :
    s.form = .object ∧ span = s.span ∧
      props = .ofList (s.parts.filterMap (·.property? source)) := by
  unfold Site.expr at h
  split at h
  case h_14 hform =>
    cases h
    exact ⟨hform, rfl, rfl⟩
  case h_27 =>
    unfold Site.call at h
    split at h
    · dsimp only at h
      split at h <;> cases h
    · cases h
  all_goals cases h

theorem Cst.exists_object {source : ByteArray} {n : Cst} {span objectSpan : Span} {id : Ident}
    {props : Ast (.list .property)} (h : (Reading.ofCst source n).declarator? =
      some (.declaratorOf span (.target id) (.present (.object objectSpan props)))) :
    span = n.head.span ∧ ∃ c ∈ n.children, c.head.form = .object ∧ objectSpan = c.head.span ∧
      props = .ofList ((Reading.ofCst source c).site.parts.filterMap (·.property? source)) := by
  unfold Reading.declarator? at h
  split at h
  · injection h with h
    injection h with hspan _ hvalue
    rw [Site.fieldExpr?, Reading.field?_ofCst] at hvalue
    cases hfield : n.field? "value" with
    | none =>
      rw [hfield] at hvalue
      cases hvalue
    | some c =>
      rw [hfield] at hvalue
      injection hvalue with _ hobject
      rw [Reading.ofCst_eq] at hobject
      obtain ⟨hform, hplace, hprops⟩ := Site.object_of_expr hobject
      refine ⟨?_, c, List.mem_of_find?_eq_some hfield, hform, hplace, ?_⟩
      · rw [← hspan, Reading.span, Reading.head_ofCst]
      · rw [hprops, Reading.site, Reading.head_ofCst, Reading.children_ofCst]
  · cases h

namespace Cst.Legible

variable {s : String} {t : Cst} {span objectSpan : Span} {id : Ident}
  {props : Ast (.list .property)} {b : BindingRecord}

/-- The value of a variable that starts out as an object literal is a record of the literal. -/
theorem exists_initializer (h : t.Legible s) (hstop : t.head.stop ≤ s.toUTF8.size)
    (hdeclarator : .declaratorOf span (.target id) (.present (.object objectSpan props)) ∈
      (Program.ofCst s.toUTF8 t).body.declarators)
    (hid : ((Program.ofCst s.toUTF8 t).index s).identNode? id = some b.decl)
    (hkeyed : ∀ n ∈ t.nodes, n.head.form = .object → n.head.span = objectSpan →
      ∀ c ∈ n.children, Cst.isKeyed s.toUTF8 c = true) (r : Option Resolution) :
    ∃ value, Indexed.initializer? ⟨(Program.ofCst s.toUTF8 t).index s, r⟩ b = some value ∧
      value.kind = .objectLiteral ∧
      (Indexed.objectKeys ⟨(Program.ofCst s.toUTF8 t).index s, r⟩ value).map Candidate.label =
        props.memberNames := by
  have hx := Program.ofCst_mirrors s t h.orders hstop
  have hcovers : Grid.Covers ⟨s.toUTF8, true⟩ t := ⟨h.orders, fun _ => h.completes⟩
  have hdistinct := Program.distinctIdents_of_laid rfl (hcovers.laid_program hstop)
  obtain ⟨_, _, hbare⟩ | ⟨n, hn, hread⟩ := Program.gives_ofCst hdeclarator
  · cases hbare
  obtain ⟨rfl, c, hc, hform, rfl, rfl⟩ := exists_object hread
  generalize hprops : (Reading.ofCst s.toUTF8 c).site.parts.filterMap (·.property? s.toUTF8) =
    props at hdeclarator ⊢
  have hlegible := h.of_mem hn
  obtain ⟨hplace, e, he, hkind, hspan⟩ := Program.entry_of_identNode? hid
  rw [Ident.isPlaced, Bool.not_eq_true'] at hplace
  have hname : id.toTree.placed? = some id.span := by
    rw [Ident.toTree, Grid.placed?_leaf, hplace, if_neg Bool.false_ne_true]
  have hvalue : (Tree.inner .objectLiteral c.head.span "" (Ast.ofList props).trees).placed? =
      some c.head.extent :=
    placed?_of_stands (hlegible.stands hc) Grid.placed?_inner
  have hplaced : ∀ {ts}, (Tree.inner .variableDeclarator n.head.span "" ts).placed? =
      some n.head.extent := by
    intro ts
    rw [Grid.placed?_inner, CstHead.span_eq_extent (hlegible.present hc)]
    rfl
  obtain ⟨tree, htree, way, hway⟩ := Program.declare_toTree _ _ hdeclarator _
    (List.mem_singleton_self _)
  rw [List.mem_singleton.mp htree] at hway
  obtain ⟨declarator, hrecords, _⟩ := hx.records hway hplaced
  have hdecl : b.decl = (Program.ofCst s.toUTF8 t).toTree.number (way ++ [0]) := by
    obtain ⟨name, hfirst, _⟩ := hx.child hrecords (k := 0) rfl hname
    exact hdistinct.entry_unique he
      (Tree.getElem?_entries_number (hx.indexed_of_records hfirst) hfirst.leads hname) hkind rfl
      hspan
  obtain ⟨value, hvalueOf, hvalueRecords⟩ := Indexed.initializer?_of_declarator hx
    (by rw [hname]; exact Option.some_ne_none _) (by rw [hvalue]; exact Option.some_ne_none _)
    hrecords hdecl
  exact ⟨value, hvalueOf, hvalueRecords.kind,
    Indexed.map_label_objectKeys hx rfl (hlegible.child hc)
      (hkeyed c (mem_nodes_trans hn (mem_nodes_of_child hc c.mem_nodes_self)) hform rfl)
      hprops.symm hvalueRecords⟩

end Cst.Legible

namespace Context

variable {c : Context} {x : Indexed} {b : BindingRecord} {value : NodeRecord}

theorem map_label_candidates (hc : c.kind = .property) (htyped : c.typed = "")
    (hbase : String.ofList (Text.trim c.base.toList) = b.name)
    (hname : Builtin.members? b.name = none) (hb : x.globalBinding? b.name = some b)
    (hvalue : x.initializer? b = some value) (hkind : value.kind = .objectLiteral) :
    (c.candidates x none).map Candidate.label =
      ((x.objectKeys value).map Candidate.label ++ Builtin.objectMethods).eraseDups := by
  have hsomething : c.isNothing = false := by rw [isNothing, hc]; rfl
  have hall : ∀ cs : List Candidate, cs.filter (·.continues c.typed) = cs := by
    intro cs
    rw [htyped]
    exact List.filter_eq_self.mpr fun k _ => k.continues_empty
  have hfitting : c.fitting x = x.objectKeys value ++ Builtin.objectMembers := by
    rw [fitting, hc]
    dsimp only
    rw [hbase, Indexed.propertyCandidates, hname, hb, Option.bind_some, hvalue, Option.map_some,
      Option.getD_some, Indexed.shapeMembers, hkind]
  rw [candidates_eq, hsomething, if_neg Bool.false_ne_true, hall, hfitting, Option.map_none,
    Option.getD_none, List.append_nil, Candidate.map_label_distinct, List.map_append]
  have hmethods : Builtin.objectMembers.map Candidate.label = Builtin.objectMethods := rfl
  rw [hmethods]
  exact congrArg List.eraseDups (List.filter_eq_self.mpr fun _ _ => rfl)

end Context

/-- For a property of a global variable that starts out as an object literal, the names of the
members of the literal are offered in source order, and then the methods of every object, each
name once. The keys of the literal have to be told by the text in front of them. -/
theorem Context.candidates_object (s : String) (t : Cst) (h : t.Legible s)
    (hstop : t.head.stop ≤ s.toUTF8.size) :
    let p := Program.ofCst s.toUTF8 t
    let x := p.index s
    let r := p.resolve x
    ∀ (c : Context) (b : BindingRecord) (span objectSpan : Span) (id : Ident)
      (props : Ast (.list .property)), c.kind = .property → c.typed = "" →
      String.ofList (Text.trim c.base.toList) = b.name → Builtin.members? b.name = none →
      b ∈ r.bindings → b.scope = r.root → x.identNode? id = some b.decl →
      .declaratorOf span (.target id) (.present (.object objectSpan props)) ∈
        p.body.declarators →
      (∀ n ∈ t.nodes, n.head.form = .object → n.head.span = objectSpan →
        ∀ m ∈ n.children, Cst.isKeyed s.toUTF8 m = true) →
      (c.candidates ⟨x, some r⟩ none).map Candidate.label =
        (props.memberNames ++ ["hasOwnProperty", "toString", "valueOf"]).eraseDups := by
  intro p x r c b span objectSpan id props hc htyped hbase hname hb hscope hid hdeclarator
    hkeyed
  obtain ⟨value, hvalue, hkind, hlabels⟩ :=
    h.exists_initializer hstop hdeclarator hid hkeyed (some r)
  rw [map_label_candidates hc htyped hbase hname (Indexed.globalBinding?_of_mem hb hscope) hvalue
    hkind, hlabels]
  rfl

def memberOfO : Context := ⟨.property, "o", "identifier", "", ⟨0, 0⟩⟩

theorem mem_bindings_of_events {p : Program} {x : Index} {declared used : Ident} {n m : Nat}
    (hevents : p.events = [.declare .varDecl declared, .refer used])
    (hdeclared : x.identNode? declared = some n) (hused : x.identNode? used = some m)
    (hname : (declared.name == used.name) = false) (hnode : n ≠ m) :
    ⟨0, declared.name, .varDecl, n, 0, #[]⟩ ∈ (p.resolve x).bindings := by
  have hglobal : hoistTarget #[⟨0, none, .global, p.span, #[], #[]⟩] 0 = 0 := by
    rw [hoistTarget]
    rfl
  have hfree : lookupFrom? #[⟨0, none, .global, p.span, #[(declared.name, 0)], #[]⟩] 0 used.name =
      none := by
    rw [lookupFrom?]
    simp [ScopeRecord.binding?, hname]
  rw [Program.resolve_eq_run, hevents]
  simp [Resolver.run, Resolver.step, Resolver.rewind, Resolver.finish, Resolver.start,
    Resolver.declare, Resolver.bind, Resolver.refer, hdeclared, hused, hglobal, hfree, hnode,
    ScopeRecord.binding?, BindingKind.isHoisted]

def keyedObject : Cst :=
  .named "program" none 0 16 [.named "variable_declaration" none 0 16 [
    .token "var" none 0 3,
    .named "variable_declarator" none 4 15 [
      .named "identifier" (some "name") 4 5 [],
      .token "=" none 5 6,
      .named "object" (some "value") 6 15 [
        .token "\x7b" none 6 7,
        .named "pair" none 7 12 [
          .named "computed_property_name" (some "key") 7 10 [
            .token "[" none 7 8, .named "number" none 8 9 [], .token "]" none 9 10],
          .token ":" none 10 11,
          .named "number" (some "value") 11 12 []],
        .token "," none 12 13,
        .named "shorthand_property_identifier" none 13 14 [],
        .token "\x7d" none 14 15]],
    .token ";" none 15 16]]

def keyedText : String := "var o=\x7b[0]:1,b\x7d;"

def keyedProgram : Program := Program.ofCst keyedText.toUTF8 keyedObject

def keyedProps : List (Ast .property) :=
  [.pair ⟨8, 13⟩ (.keyComputed (.literal ⟨⟨9, 10⟩, .number, "0"⟩))
      (.literal ⟨⟨12, 13⟩, .number, "1"⟩),
    .shorthand ⟨⟨14, 15⟩, "b"⟩]

theorem keyedProgram_read :
    keyedObject.Legible keyedText ∧ keyedObject.head.stop ≤ keyedText.toUTF8.size ∧
    (∀ n ∈ keyedObject.nodes, n.head.form = .object → n.head.span = ⟨7, 16⟩ →
      ∀ m ∈ n.children, Cst.isKeyed keyedText.toUTF8 m = true) ∧
    keyedProgram.events = [.declare .varDecl ⟨⟨5, 6⟩, "o"⟩, .refer ⟨⟨14, 15⟩, "b"⟩] ∧
    keyedProgram.body.declarators = [.declaratorOf ⟨5, 16⟩ (.target ⟨⟨5, 6⟩, "o"⟩)
      (.present (.object ⟨7, 16⟩ (.ofList keyedProps)))] ∧
    (keyedProgram.index keyedText).identNode? ⟨⟨5, 6⟩, "o"⟩ = some 3 ∧
    (keyedProgram.index keyedText).identNode? ⟨⟨14, 15⟩, "b"⟩ = some 8 := by
  have hfind : (keyedProgram.index keyedText).find? .identifier ⟨5, 6⟩ = some 3 ∧
      (keyedProgram.index keyedText).find? .identifier ⟨14, 15⟩ = some 8 := by
    rw [Index.ofTree_find?, Index.ofTree_find?]
    exact ⟨rfl, rfl⟩
  have horders : ∀ n ∈ keyedObject.nodes, n.head.Orders (n.children.map Rose.head) := by
    decide +kernel
  have hcompletes : ∀ n ∈ keyedObject.nodes,
      n.head.Completes keyedText.toUTF8 (n.children.map Rose.head) := by
    decide +kernel
  have hstop : keyedObject.head.stop ≤ keyedText.toUTF8.size := by decide +kernel
  have hkeyed : ∀ n ∈ keyedObject.nodes, n.head.form = .object → n.head.span = ⟨7, 16⟩ →
      ∀ m ∈ n.children, Cst.isKeyed keyedText.toUTF8 m = true := by
    decide +kernel
  exact ⟨⟨horders, hcompletes⟩, hstop, hkeyed, rfl, rfl, hfind⟩

/-- The plain key is offered, the computed key is not. -/
theorem keyedProgram_candidates :
    let x := keyedProgram.index keyedText
    let r := keyedProgram.resolve x
    keyedObject.Legible keyedText ∧ keyedObject.head.stop ≤ keyedText.toUTF8.size ∧
    (∀ n ∈ keyedObject.nodes, n.head.form = .object → n.head.span = ⟨7, 16⟩ →
      ∀ m ∈ n.children, Cst.isKeyed keyedText.toUTF8 m = true) ∧
    ⟨0, "o", .varDecl, 3, 0, #[]⟩ ∈ r.bindings ∧ r.root = 0 ∧
    x.identNode? ⟨⟨5, 6⟩, "o"⟩ = some 3 ∧ Builtin.members? "o" = none ∧
    .declaratorOf ⟨5, 16⟩ (.target ⟨⟨5, 6⟩, "o"⟩)
      (.present (.object ⟨7, 16⟩ (.ofList keyedProps))) ∈ keyedProgram.body.declarators ∧
    (memberOfO.candidates ⟨x, some r⟩ none).map Candidate.label =
      ["b", "hasOwnProperty", "toString", "valueOf"] := by
  intro x r
  obtain ⟨hlegible, hstop, hkeyed, hevents, hdeclarators, hnode, huse⟩ := keyedProgram_read
  have hbinding : ⟨0, "o", .varDecl, 3, 0, #[]⟩ ∈ r.bindings :=
    mem_bindings_of_events hevents hnode huse rfl (by decide)
  have hdeclarator : .declaratorOf ⟨5, 16⟩ (.target ⟨⟨5, 6⟩, "o"⟩)
      (.present (.object ⟨7, 16⟩ (.ofList keyedProps))) ∈ keyedProgram.body.declarators := by
    rw [hdeclarators]
    exact List.mem_singleton_self _
  refine ⟨hlegible, hstop, hkeyed, hbinding, rfl, hnode, rfl, hdeclarator, ?_⟩
  have hcandidates := Context.candidates_object keyedText keyedObject hlegible hstop memberOfO
    ⟨0, "o", .varDecl, 3, 0, #[]⟩ ⟨5, 16⟩ ⟨7, 16⟩ ⟨⟨5, 6⟩, "o"⟩ (.ofList keyedProps) rfl rfl rfl rfl
    hbinding rfl hnode hdeclarator hkeyed
  exact hcandidates.trans rfl

def commentedKey : Cst :=
  .named "program" none 0 18 [.named "variable_declaration" none 0 18 [
    .token "var" none 0 3,
    .named "variable_declarator" none 4 17 [
      .named "identifier" (some "name") 4 5 [],
      .token "=" none 5 6,
      .named "object" (some "value") 6 17 [
        .token "\x7b" none 6 7,
        .named "pair" none 7 16 [
          .named "computed_property_name" (some "key") 7 14 [
            .token "[" none 7 8, .named "comment" none 8 12 [],
            .named "identifier" none 12 13 [], .token "]" none 13 14],
          .token ":" none 14 15,
          .named "number" (some "value") 15 16 []],
        .token "\x7d" none 16 17]],
    .token ";" none 17 18]]

def commentedText : String := "var o=\x7b[/**/x]:1\x7d;"

def commentedProgram : Program := Program.ofCst commentedText.toUTF8 commentedKey

def commentedProps : List (Ast .property) :=
  [.pair ⟨8, 17⟩ (.keyComputed (.ident ⟨⟨13, 14⟩, "x"⟩)) (.literal ⟨⟨16, 17⟩, .number, "1"⟩)]

theorem commentedProgram_read :
    (∀ n ∈ commentedKey.nodes, n.head.Orders (n.children.map Rose.head)) ∧
    (∀ n ∈ commentedKey.nodes,
      n.head.Completes commentedText.toUTF8 (n.children.map Rose.head)) ∧
    commentedKey.head.stop ≤ commentedText.toUTF8.size ∧
    commentedProgram.events =
      [.declare .varDecl ⟨⟨5, 6⟩, "o"⟩, .refer ⟨⟨13, 14⟩, "x"⟩] ∧
    commentedProgram.body.declarators = [.declaratorOf ⟨5, 18⟩ (.target ⟨⟨5, 6⟩, "o"⟩)
      (.present (.object ⟨7, 18⟩ (.ofList commentedProps)))] ∧
    (commentedProgram.index commentedText).identNode? ⟨⟨5, 6⟩, "o"⟩ = some 3 ∧
    (commentedProgram.index commentedText).identNode? ⟨⟨13, 14⟩, "x"⟩ = some 6 ∧
    (Indexed.initializer? ⟨commentedProgram.index commentedText, none⟩
        ⟨0, "o", .varDecl, 3, 0, #[]⟩).map
      (fun v => (v.kind, (Indexed.objectKeys ⟨commentedProgram.index commentedText, none⟩ v).map
        Candidate.label)) = some (.objectLiteral, ["x"]) := by
  have hfind : (commentedProgram.index commentedText).find? .identifier ⟨5, 6⟩ = some 3 ∧
      (commentedProgram.index commentedText).find? .identifier ⟨13, 14⟩ = some 6 := by
    rw [Index.ofTree_find?, Index.ofTree_find?]
    exact ⟨rfl, rfl⟩
  have horders : ∀ n ∈ commentedKey.nodes, n.head.Orders (n.children.map Rose.head) := by
    decide +kernel
  have hcompletes : ∀ n ∈ commentedKey.nodes,
      n.head.Completes commentedText.toUTF8 (n.children.map Rose.head) := by
    decide +kernel
  have hstop : commentedKey.head.stop ≤ commentedText.toUTF8.size := by decide +kernel
  have hoffered : (Indexed.initializer? ⟨commentedProgram.index commentedText, none⟩
        ⟨0, "o", .varDecl, 3, 0, #[]⟩).map
      (fun v => (v.kind, (Indexed.objectKeys ⟨commentedProgram.index commentedText, none⟩ v).map
        Candidate.label)) = some (.objectLiteral, ["x"]) := by
    decide +kernel
  exact ⟨horders, hcompletes, hstop, rfl, rfl, hfind.1, hfind.2, hoffered⟩

/-- Behind a comment, the expression of a computed key is taken for a key. -/
theorem commentedProgram_candidates :
    let x := commentedProgram.index commentedText
    let r := commentedProgram.resolve x
    (∀ n ∈ commentedKey.nodes, n.head.Orders (n.children.map Rose.head)) ∧
    (∀ n ∈ commentedKey.nodes,
      n.head.Completes commentedText.toUTF8 (n.children.map Rose.head)) ∧
    commentedKey.head.stop ≤ commentedText.toUTF8.size ∧
    ⟨0, "o", .varDecl, 3, 0, #[]⟩ ∈ r.bindings ∧ r.root = 0 ∧
    x.identNode? ⟨⟨5, 6⟩, "o"⟩ = some 3 ∧ Builtin.members? "o" = none ∧
    commentedProgram.body.declarators = [.declaratorOf ⟨5, 18⟩ (.target ⟨⟨5, 6⟩, "o"⟩)
      (.present (.object ⟨7, 18⟩ (.ofList commentedProps)))] ∧
    (Ast.ofList commentedProps).memberNames = [] ∧
    (memberOfO.candidates ⟨x, some r⟩ none).map Candidate.label =
      ["x", "hasOwnProperty", "toString", "valueOf"] := by
  intro x r
  obtain ⟨horders, hcompletes, hstop, hevents, hdeclarators, hnode, huse, hvalue⟩ :=
    commentedProgram_read
  have hbinding : ⟨0, "o", .varDecl, 3, 0, #[]⟩ ∈ r.bindings :=
    mem_bindings_of_events hevents hnode huse rfl (by decide)
  refine ⟨horders, hcompletes, hstop, hbinding, rfl, hnode, rfl, hdeclarators, rfl, ?_⟩
  obtain ⟨value, hinit, hpair⟩ := Option.map_eq_some_iff.mp hvalue
  obtain ⟨hkind, hlabels⟩ := Prod.mk.inj hpair
  have hlisted : (Indexed.objectKeys ⟨x, some r⟩ value).map Candidate.label = ["x"] := hlabels
  have hcandidates := Context.map_label_candidates (c := memberOfO) (x := ⟨x, some r⟩)
    (b := ⟨0, "o", .varDecl, 3, 0, #[]⟩) rfl rfl rfl rfl
    (Indexed.globalBinding?_of_mem hbinding rfl) hinit hkind
  rw [hlisted] at hcandidates
  exact hcandidates.trans rfl

end ScriptLens
