import Mathlib.Data.List.Basic
import Mathlib.Data.List.Find
import ScriptLens.Proofs.Completion.Contexts
import ScriptLens.Proofs.Reading.Comments

/-! # The bases of contexts

In a tree without faults a property context comes from the name of an access, and its base is
the object of the access. An argument context comes from a mark in an argument list. Its base is
the first child of the call that the list belongs to: the function that is called or, where an
object is constructed, not the constructor but the word before it.
-/
namespace ScriptLens

open Rose

/-! ## What the grammar says -/

namespace CstHead

def isAccessMark (h : CstHead) : Bool :=
  h.kind == "." && h.field.isNone ||
    h.kind == "optional_chain" && h.field == some "optional_chain"

def isAccessName (h : CstHead) : Bool :=
  (h.kind == "property_identifier" || h.kind == "private_property_identifier") &&
    h.field == some "property"

/-- Something that is no mark by itself, in the role of an object. -/
def isAccessObject (h : CstHead) : Bool :=
  !(["comment", ".", "?.", "optional_chain"].contains h.kind) && h.field == some "object"

/-- An object, a mark and a name. Comments stand between them. -/
def isAccess (parts : List CstHead) : Bool :=
  match parts.filter (!·.isComment) with
  | [object, mark, name] =>
    object.isAccessObject && mark.isAccessMark && name.isAccessName &&
      parts.head? == some object && parts.getLast? == some name
  | _ => false

def isCall (parts : List CstHead) : Bool := parts.head?.any (·.field == some "function")

def isConstruction (parts : List CstHead) : Bool :=
  parts.head?.any (fun h => h.kind == "new" && h.field.isNone) &&
    parts.any (·.field == some "constructor")

/-- The children of a node are as the grammar of accesses and calls has them. -/
structure Accords (h : CstHead) (parts : List CstHead) : Prop where
  comments : ∀ p ∈ parts, p.isComment = true → p.field = none
  access : h.kind = "member_expression" → isAccess parts = true
  call : h.kind = "call_expression" → isCall parts = true
  construction : h.kind = "new_expression" → isConstruction parts = true
  list : ∀ p ∈ parts, p.kind = "arguments" →
    h.kind = "call_expression" ∨ h.kind = "new_expression"

instance (h : CstHead) (parts : List CstHead) : Decidable (h.Accords parts) :=
  decidable_of_iff ((∀ p ∈ parts, p.isComment = true → p.field = none) ∧
      (h.kind = "member_expression" → isAccess parts = true) ∧
      (h.kind = "call_expression" → isCall parts = true) ∧
      (h.kind = "new_expression" → isConstruction parts = true) ∧
      ∀ p ∈ parts, p.kind = "arguments" → h.kind = "call_expression" ∨ h.kind = "new_expression")
    ⟨fun ⟨h₁, h₂, h₃, h₄, h₅⟩ => ⟨h₁, h₂, h₃, h₄, h₅⟩,
      fun ⟨h₁, h₂, h₃, h₄, h₅⟩ => ⟨h₁, h₂, h₃, h₄, h₅⟩⟩

end CstHead

namespace Cst

variable {source : ByteArray}

/-! ## The parts of accesses and calls -/

theorem field?_cons {t c : Cst} {rest : List Cst} {role : String} (h : t.children = c :: rest)
    (hc : c.head.field = some role) : t.field? role = some c := by
  simp [field?, h, hc]

theorem head?_of_filter (keep : CstHead → Bool) {ts rest : List Cst} {a : Cst}
    (h : ts.filter (keep ·.head) = a :: rest) (hhead : ts.head?.map Rose.head = some a.head) :
    ts.head? = some a := by
  have ha : keep a.head = true :=
    (List.mem_filter.mp (by rw [h]; exact List.mem_cons_self : a ∈ ts.filter (keep ·.head))).2
  cases ts with
  | nil => cases hhead
  | cons c tail =>
    have hc : c.head = a.head := Option.some.inj hhead
    rw [List.filter_cons_of_pos (by rw [hc]; exact ha)] at h
    rw [List.head?_cons, (List.cons.inj h).1]

theorem access_parts {t : Cst} (h : t.head.Accords (t.children.map Rose.head))
    (hkind : t.head.kind = "member_expression") :
    ∃ object name, t.field? "object" = some object ∧ t.children.head? = some object ∧
      object.head.isAccessObject = true ∧ t.field? "property" = some name ∧
      t.children.getLast? = some name ∧ name.head.isAccessName = true := by
  have haccess := h.access hkind
  unfold CstHead.isAccess at haccess
  split at haccess
  · next o m n hparts =>
    rw [List.filter_map] at hparts
    obtain ⟨object, rest, hfilter, rfl, hrest⟩ := List.map_eq_cons_iff.mp hparts
    obtain ⟨mark, rest', rfl, rfl, hrest'⟩ := List.map_eq_cons_iff.mp hrest
    obtain ⟨name, rest'', rfl, rfl, hrest''⟩ := List.map_eq_cons_iff.mp hrest'
    obtain rfl := List.map_eq_nil_iff.mp hrest''
    simp only [Bool.and_eq_true, beq_iff_eq, List.head?_map, List.getLast?_map] at haccess
    obtain ⟨⟨⟨⟨ho, hm⟩, hn⟩, hhead⟩, hlast⟩ := haccess
    have hfirst : t.children.head? = some object :=
      head?_of_filter (fun h => !h.isComment) hfilter hhead
    have hend : t.children.getLast? = some name := by
      rw [← List.head?_reverse] at hlast ⊢
      exact head?_of_filter (fun h => !h.isComment)
        (by rw [List.filter_reverse]; exact congrArg List.reverse hfilter) hlast
    have hname : t.field? "property" = some name := by
      rw [CstHead.isAccessObject, Bool.and_eq_true, beq_iff_eq] at ho
      rw [CstHead.isAccessName, Bool.and_eq_true, beq_iff_eq] at hn
      have hmark : mark.head.field ≠ some "property" := by
        intro hfield
        simp [CstHead.isAccessMark, hfield] at hm
      have hfind : (t.children.filter ((!·.isComment) ∘ Rose.head)).find?
          (·.head.field == some "property") = some name := by
        simp [hfilter, ho.2, hn.2, hmark]
      rw [List.find?_filter] at hfind
      rw [field?, ← hfind]
      refine List.find?_congr fun c hc => ?_
      rw [Bool.eq_iff_iff]
      cases hcomment : c.head.isComment with
      | false => simp [hcomment]
      | true => simp [hcomment, h.comments _ (List.mem_map_of_mem hc) hcomment]
    obtain ⟨tail, hchildren⟩ : ∃ tail, t.children = object :: tail := by
      cases hc : t.children with
      | nil => rw [hc] at hfirst; cases hfirst
      | cons c tail => rw [hc] at hfirst; exact ⟨tail, by rw [Option.some.inj hfirst]⟩
    have hobject : object.head.field = some "object" := by
      rw [CstHead.isAccessObject, Bool.and_eq_true] at ho
      exact beq_iff_eq.mp ho.2
    exact ⟨object, name, field?_cons hchildren hobject, hfirst, ho, hname, hend, hn⟩
  · cases haccess

/-- The first child of a call is what is called or, in a construction, the word before it. -/
theorem call_parts {t first : Cst} (h : t.head.Accords (t.children.map Rose.head))
    (hkind : t.head.kind = "call_expression" ∨ t.head.kind = "new_expression")
    (hfirst : t.children.head? = some first) :
    t.head.kind = "call_expression" ∧ t.field? "function" = some first ∨
      t.head.kind = "new_expression" ∧ first.head.kind = "new" ∧
        ∃ callee, t.field? "constructor" = some callee ∧ callee ≠ first := by
  obtain ⟨rest, hchildren⟩ := List.head?_eq_some_iff.mp hfirst
  rcases hkind with hkind | hkind
  · have hcall := h.call hkind
    simp only [CstHead.isCall, hchildren, List.map_cons, List.head?_cons, Option.any_some,
      beq_iff_eq] at hcall
    exact .inl ⟨hkind, field?_cons hchildren hcall⟩
  · have hnew := h.construction hkind
    rw [CstHead.isConstruction, Bool.and_eq_true, hchildren, List.map_cons, List.head?_cons,
      Option.any_some, Bool.and_eq_true, beq_iff_eq, Option.isNone_iff_eq_none, ← List.map_cons,
      ← hchildren, List.any_map] at hnew
    obtain ⟨⟨hword, hfield⟩, hcallee⟩ := hnew
    obtain ⟨callee, hfind⟩ := Option.isSome_iff_exists.mp (List.find?_isSome.mpr
      (List.any_eq_true.mp hcallee))
    refine .inr ⟨hkind, hword, callee, hfind, ?_⟩
    rintro rfl
    have hrole := List.find?_some hfind
    simp [hfield] at hrole

/-! ## Copies of accesses -/

theorem object?_copy {t object : Cst} {levels : Nat} (hlevels : 1 < levels)
    (hfirst : t.children.head? = some object) (hobject : object.head.isAccessObject = true) :
    (t.copy source levels).object? = some (object.copy source (levels - 1)) := by
  obtain ⟨rest, hchildren⟩ := List.head?_eq_some_iff.mp hfirst
  simp only [CstHead.isAccessObject, Bool.and_eq_true, Bool.not_eq_true', List.contains_eq_mem,
    List.mem_cons, List.not_mem_nil, or_false, decide_eq_false_iff_not, not_or] at hobject
  obtain ⟨⟨hcomment, hdot, hoptional, hchain⟩, _⟩ := hobject
  simp [Snapshot.object?, Snapshot.parts, children_copy, hchildren, Nat.not_le.mpr hlevels,
    SnapshotHead.isComment, SnapshotHead.isSeparator, kind_copy, hcomment, hdot, hoptional,
    hchain]

theorem kind_of_isAccessName {h : CstHead} (hname : h.isAccessName = true) :
    h.kind = "property_identifier" ∨ h.kind = "private_property_identifier" := by
  simp only [CstHead.isAccessName, Bool.and_eq_true, Bool.or_eq_true, beq_iff_eq] at hname
  exact hname.1

theorem parts_copy_concat {t name : Cst} {levels : Nat} (hlevels : 1 < levels)
    (hlast : t.children.getLast? = some name) (hname : name.head.isAccessName = true) :
    ∃ before, (t.copy source levels).parts =
      before ++ [name.copy source (levels - 1)] := by
  obtain ⟨before, hchildren⟩ := List.getLast?_eq_some_iff.mp hlast
  have hkeep : (name.copy source (levels - 1)).head.isComment = false := by
    rcases kind_of_isAccessName hname with h | h <;> simp [SnapshotHead.isComment, kind_copy, h]
  refine ⟨(before.map (copy source (levels - 1))).filter (!·.head.isComment), ?_⟩
  rw [Snapshot.parts, children_copy, if_neg (Nat.not_le.mpr hlevels), hchildren, List.map_append,
    List.filter_append]
  simp [hkeep]

theorem unfinished?_copy {t name : Cst} {levels : Nat} (cursor : Point)
    (hlast : t.children.getLast? = some name) (hname : name.head.isAccessName = true)
    (hmissing : name.head.isMissing = false) :
    Context.unfinished? cursor (t.copy source levels) = none := by
  by_cases hlevels : 1 < levels
  · obtain ⟨before, hparts⟩ : ∃ before, (t.copy source levels).parts =
        before ++ [name.copy source (levels - 1)] := parts_copy_concat hlevels hlast hname
    have hmissing' : (name.copy source (levels - 1)).head.isMissing = false := by
      rw [head_copy]
      exact hmissing
    have hseparator : (name.copy source (levels - 1)).head.isSeparator = false := by
      rcases kind_of_isAccessName hname with h | h <;>
        simp [SnapshotHead.isSeparator, kind_copy, h]
    simp [Context.unfinished?, Context.lastSeparator?, hparts, hmissing', hseparator]
  · have hparts : (t.copy source levels).parts = [] := by
      rw [Snapshot.parts, children_copy, if_pos (Nat.not_lt.mp hlevels), List.filter_nil]
    simp [Context.unfinished?, Context.lastSeparator?, hparts]

theorem getElem?_of_isLastPart {t name : Cst} {levels i : Nat} (hlevels : 1 < levels)
    (hlast : t.children.getLast? = some name) (hname : name.head.isAccessName = true)
    (hi : i < t.children.length) (h : (t.copy source levels).isLastPart i = true) :
    t.children[i]? = some name := by
  obtain ⟨before, hchildren⟩ := List.getLast?_eq_some_iff.mp hlast
  rw [Snapshot.isLastPart, Bool.and_eq_true, children_copy, if_neg (Nat.not_le.mpr hlevels),
    hchildren, List.map_append] at h
  rw [hchildren, List.length_append, List.length_singleton] at hi
  have hend : before.length ≤ i := by
    by_contra hlt
    have hmem : name.copy source (levels - 1) ∈ (before.map (copy source (levels - 1)) ++
        [name].map (copy source (levels - 1))).drop (i + 1) := by
      rw [List.drop_append_of_le_length (by simp; omega)]
      simp
    have hcomment := List.all_eq_true.mp h.1 _ hmem
    rcases kind_of_isAccessName hname with hk | hk <;>
      simp [SnapshotHead.isComment, kind_copy, hk] at hcomment
  rw [hchildren, show i = before.length by omega]
  simp

end Cst

namespace Context

/-- A context rests on a node: its base is the source of the copy of the node, which is all of the
node's text if the copy is not cut. -/
structure RestsOn (c : Context) (source : ByteArray) (levels : Nat) (base : Cst) : Prop where
  kind : c.baseKind = base.head.kind
  shown : c.base = (base.copy source levels).source
  whole : base.height ≤ levels → c.base = base.leafText source

variable {source : ByteArray}

theorem restsOn_on (kind : ContextKind) (typed : String) (cursor : Point) (levels : Nat)
    (base : Cst) :
    (on kind (base.copy source levels) typed cursor).RestsOn source levels base := by
  refine ⟨Cst.kind_copy _ _ _, rfl, fun hheight => ?_⟩
  rw [on, Snapshot.source, Cst.text_copy]
  split
  · next hleaf => rw [Option.getD_some, Cst.leafText_of_leaf (List.isEmpty_iff.mp hleaf)]
  · rw [Option.getD_none, Cst.leafText_copy hheight]

theorem dangling?_eq_none {cursor : Point} {steps : List Step}
    (hsound : ∀ st ∈ steps, st.node.head.isError = false)
    (hfinished : ∀ st ∈ steps, st.node.head.isMember = true → unfinished? cursor st.node = none) :
    dangling? cursor steps = none := by
  induction steps with
  | nil => rfl
  | cons here above ih =>
    have habove : dangling? cursor above = none :=
      ih (fun st hst => hsound st (List.mem_cons_of_mem _ hst))
        fun st hst => hfinished st (List.mem_cons_of_mem _ hst)
    unfold dangling?
    split
    · next hmember => rw [hfinished here List.mem_cons_self hmember, habove, Option.or_none]
    · rw [hsound here List.mem_cons_self, if_neg Bool.false_ne_true, habove]

end Context

/-- A mark of an argument list, with the call that the list belongs to. -/
structure Cst.MarkAt (t : Cst) (way : List Nat) (i j : Nat) (call list mark : Cst) : Prop where
  leads : t.at? way = some call
  holdsList : call.children[i]? = some list
  holdsMark : list.children[j]? = some mark
  isList : list.head.kind = "arguments"
  isMark : mark.head.kind = "(" ∨ mark.head.kind = ","

structure Cst.NameAt (t : Cst) (way : List Nat) (i : Nat) (member object name : Cst) : Prop where
  leads : t.at? way = some member
  holdsName : member.children[i]? = some name
  isMember : member.head.kind = "member_expression"
  isName : member.field? "property" = some name
  isObject : member.field? "object" = some object

namespace Context

/-- The context rests on the object of an access whose name is under a point. -/
def RestsOnObject (c : Context) (t : Cst) (source : ByteArray) (maxDepth : Nat) (p : Point) :
    Prop :=
  ∃ way i member object name, t.NameAt way i member object name ∧
    t.Under source maxDepth p (way ++ [i]) name ∧
    c.RestsOn source (maxDepth - (way.length + 1)) object

/-- The context rests on the first child of a call, a mark of whose argument list is under a
point: on the function or, where an object is constructed, on the word before the constructor. -/
def RestsOnCall (c : Context) (t : Cst) (source : ByteArray) (maxDepth : Nat) (p : Point) : Prop :=
  ∃ way i j call list mark first, t.MarkAt way i j call list mark ∧
    t.Under source maxDepth p (way ++ [i] ++ [j]) mark ∧
    c.RestsOn source (maxDepth - (way.length + 1)) first ∧
    (call.head.kind = "call_expression" ∧ call.field? "function" = some first ∨
      call.head.kind = "new_expression" ∧ first.head.kind = "new" ∧
        ∃ callee, call.field? "constructor" = some callee ∧ callee ≠ first)

variable {t : Cst} {maxDepth : Nat} {cursor : Point}

theorem dangling?_steps (hsound : ∀ n ∈ t.nodes, n.head.isError = false ∧ n.head.isMissing = false)
    (haccords : ∀ n ∈ t.nodes, n.head.Accords (n.children.map Rose.head)) (way : List Nat) :
    dangling? cursor ((Snapshot.ofCst source maxDepth t).steps way) = none := by
  have hcopy : ∀ st ∈ (Snapshot.ofCst source maxDepth t).steps way,
      ∃ (w : List Nat) (n : Cst) (levels : Nat), t.at? w = some n ∧
        st.node = n.copy source levels := by
    intro st hst
    obtain ⟨w, hw⟩ := Snapshot.exists_of_mem_steps hst
    obtain ⟨n, hn, hnode⟩ := Cst.at?_copy _ hw
    exact ⟨w, n, _, hn, hnode⟩
  refine dangling?_eq_none (fun st hst => ?_) fun st hst hmember => ?_
  · obtain ⟨w, n, levels, hn, hnode⟩ := hcopy st hst
    rw [hnode, Cst.head_copy]
    exact (hsound n (mem_nodes_of_at? hn)).1
  · obtain ⟨w, n, levels, hn, hnode⟩ := hcopy st hst
    rw [hnode, SnapshotHead.isMember, Cst.kind_copy, beq_iff_eq] at hmember
    obtain ⟨_, name, _, _, _, _, hlast, hname⟩ :=
      Cst.access_parts (haccords n (mem_nodes_of_at? hn)) hmember
    have hmissing := (hsound name (Rose.child_mem_nodes hn (List.mem_of_getLast? hlast))).2
    rw [hnode]
    exact Cst.unfinished?_copy cursor hlast hname hmissing

theorem restsOnObject (haccords : ∀ n ∈ t.nodes, n.head.Accords (n.children.map Rose.head))
    {p : Point} {steps : List Step} {c : Context}
    (hsteps : (Snapshot.ofCst source maxDepth t).stepsTo? p = some steps)
    (hc : inProperty? cursor steps = some c) :
    c.RestsOnObject t source maxDepth p := by
  obtain ⟨here, above, rest, base, rfl, _, hmember, hlastPart, hbase, rfl⟩ := inProperty?_eq_some hc
  obtain ⟨way, u, hunder, heq, hu⟩ := Cst.exists_under hsteps
  obtain ⟨w, v, rfl, hv, hchild, hlevels, hcopy, habove⟩ :=
    Cst.exists_parent hunder.leads hu heq.symm (List.cons_ne_nil _ _)
  have hnode : above.node = v.copy source (maxDepth - w.length) :=
    (Snapshot.steps_eq_cons hcopy habove.symm).1
  rw [hnode, SnapshotHead.isMember, Cst.kind_copy, beq_iff_eq] at hmember
  obtain ⟨object, name, hobject, hfirst, hisObject, hname, hlast, hisName⟩ :=
    Cst.access_parts (haccords v (mem_nodes_of_at? hv)) hmember
  rw [hnode] at hlastPart hbase
  have hname' := Cst.getElem?_of_isLastPart hlevels hlast hisName
    (List.getElem?_eq_some_iff.mp hchild).1 hlastPart
  obtain rfl : u = name := Option.some.inj (hchild.symm.trans hname')
  rw [Cst.object?_copy hlevels hfirst hisObject] at hbase
  obtain rfl := Option.some.inj hbase
  exact ⟨w, here.index, v, object, u, ⟨hv, hchild, hmember, hname, hobject⟩, hunder,
    restsOn_on _ _ _ _ _⟩

theorem restsOnCall (haccords : ∀ n ∈ t.nodes, n.head.Accords (n.children.map Rose.head))
    {p : Point} {steps : List Step} {c : Context}
    (hsteps : (Snapshot.ofCst source maxDepth t).stepsTo? p = some steps)
    (hc : inArguments? cursor steps = some c) :
    c.RestsOnCall t source maxDepth p := by
  obtain ⟨here, list, call, rest, base, rfl, hmark, hlist, hbase, rfl⟩ := inArguments?_eq_some hc
  obtain ⟨way, u, hunder, heq, hu⟩ := Cst.exists_under hsteps
  obtain ⟨w, v, rfl, hv, hchild, _, hcopy, habove⟩ :=
    Cst.exists_parent hunder.leads hu heq.symm (List.cons_ne_nil _ _)
  obtain ⟨w', v', rfl, hv', hchild', hlevels, hcopy', habove'⟩ :=
    Cst.exists_parent hv hcopy habove.symm (List.cons_ne_nil _ _)
  have hhere := (Snapshot.steps_eq_cons hu heq.symm).1
  have hnode := (Snapshot.steps_eq_cons hcopy habove.symm).1
  have hnode' := (Snapshot.steps_eq_cons hcopy' habove'.symm).1
  rw [hhere, Cst.kind_copy] at hmark
  rw [hnode, Cst.kind_copy] at hlist
  rw [hnode', Cst.children_copy, if_neg (Nat.not_le.mpr hlevels), List.head?_map] at hbase
  obtain ⟨first, hfirst, rfl⟩ := Option.map_eq_some_iff.mp hbase
  have haccord := haccords v' (mem_nodes_of_at? hv')
  have hcall := haccord.list v.head (List.mem_map_of_mem (List.mem_of_getElem? hchild')) hlist
  exact ⟨w', list.index, here.index, v', v, u, first, ⟨hv', hchild', hchild, hlist, hmark⟩, hunder,
    restsOn_on _ _ _ _ _, Cst.call_parts haccord hcall hfirst⟩

/-- In a tree without faults that accords with the grammar, a property context rests on the
object of the access whose name is under the cursor or just left of it. An argument context rests
on the function of the call whose mark is there. Where an object is constructed it rests on the
word `new`, which is not the constructor. -/
theorem ofCursor_base (source : ByteArray) (t : Cst) (maxDepth : Nat) (cursor : Point)
    (hsound : ∀ n ∈ t.nodes, n.head.isError = false ∧ n.head.isMissing = false)
    (haccords : ∀ n ∈ t.nodes, n.head.Accords (n.children.map Rose.head)) :
    let c := ofCursor (.ofCst source maxDepth t) cursor
    (c.kind = .argument → ∃ p ∈ places cursor, c.RestsOnCall t source maxDepth p) ∧
    (c.kind = .property → ∃ p ∈ places cursor, c.RestsOnObject t source maxDepth p) := by
  intro c
  constructor
  · intro hkind
    have hne : c.kind ≠ .nothing := by rw [hkind]; decide
    obtain ⟨p, hp, steps, hsteps, hclass⟩ := exists_of_ofCursor hne
    cases hclass with
    | property _ hc => cases hkind.symm.trans hc
    | dangling base _ hc => cases hkind.symm.trans (congrArg kind hc)
    | identifier _ hc => cases hkind.symm.trans hc
    | argument h _ => exact ⟨p, hp, restsOnCall haccords hsteps h⟩
  · intro hkind
    have hne : c.kind ≠ .nothing := by rw [hkind]; decide
    obtain ⟨p, hp, steps, hsteps, hclass⟩ := exists_of_ofCursor hne
    cases hclass with
    | property h _ => exact ⟨p, hp, restsOnObject haccords hsteps h⟩
    | dangling base h _ =>
      obtain ⟨way, _, _, rfl, _⟩ := Cst.exists_under hsteps
      rw [dangling?_steps hsound haccords] at h
      cases h
    | identifier _ hc => cases hkind.symm.trans hc
    | argument _ hc => cases hkind.symm.trans hc

def calledAccess : Cst :=
  .named "program" none 0 6 [.named "expression_statement" none 0 6 [
    .named "call_expression" none 0 6 [
      .named "identifier" (some "function") 0 1 [],
      .named "arguments" (some "arguments") 1 6 [
        .token "(" none 1 2,
        .named "member_expression" none 2 5 [
          .named "identifier" (some "object") 2 3 [], .token "." none 3 4,
          .named "property_identifier" (some "property") 4 5 []],
        .token ")" none 5 6]]]]

theorem calledAccess_base :
    let root := Snapshot.ofCst "f(o.p)".toUTF8 Snapshot.defaultDepth calledAccess
    (∀ n ∈ calledAccess.nodes, n.head.isError = false ∧ n.head.isMissing = false) ∧
    (∀ n ∈ calledAccess.nodes, n.head.Accords (n.children.map Rose.head)) ∧
    ofCursor root ⟨0, 1⟩ = ⟨.argument, "f", "identifier", "", ⟨0, 1⟩⟩ ∧
    (∃ p ∈ places ⟨0, 1⟩, (ofCursor root ⟨0, 1⟩).RestsOnCall calledAccess "f(o.p)".toUTF8
      Snapshot.defaultDepth p) ∧
    ofCursor root ⟨0, 5⟩ = ⟨.property, "o", "identifier", "p", ⟨0, 5⟩⟩ ∧
    ∃ p ∈ places ⟨0, 5⟩, (ofCursor root ⟨0, 5⟩).RestsOnObject calledAccess "f(o.p)".toUTF8
      Snapshot.defaultDepth p := by
  intro root
  have hsound : ∀ n ∈ calledAccess.nodes, n.head.isError = false ∧ n.head.isMissing = false := by
    decide +kernel
  have haccords : ∀ n ∈ calledAccess.nodes, n.head.Accords (n.children.map Rose.head) := by
    decide +kernel
  have hcall : ofCursor root ⟨0, 1⟩ = ⟨.argument, "f", "identifier", "", ⟨0, 1⟩⟩ := rfl
  have haccess : ofCursor root ⟨0, 5⟩ = ⟨.property, "o", "identifier", "p", ⟨0, 5⟩⟩ := rfl
  exact ⟨hsound, haccords, hcall,
    (ofCursor_base _ calledAccess _ ⟨0, 1⟩ hsound haccords).1 (congrArg kind hcall), haccess,
    (ofCursor_base _ calledAccess _ ⟨0, 5⟩ hsound haccords).2 (congrArg kind haccess)⟩

def constructedList : Cst :=
  .named "program" none 0 14 [.named "expression_statement" none 0 14 [
    .named "new_expression" none 0 14 [
      .token "new" none 0 3,
      .named "identifier" (some "constructor") 4 5 [],
      .named "arguments" (some "arguments") 5 14 [
        .token "(" none 5 6, .named "identifier" none 6 7 [], .token "," none 7 8,
        .named "spread_element" none 9 13 [
          .token "..." none 9 12, .named "identifier" none 12 13 []],
        .token ")" none 13 14]]]]

/-- The base at the parenthesis is not the constructor `X`. -/
theorem constructedList_base :
    (∀ n ∈ constructedList.nodes, n.head.isError = false ∧ n.head.isMissing = false) ∧
    (∀ n ∈ constructedList.nodes, n.head.Accords (n.children.map Rose.head)) ∧
    ofCursor (.ofCst "new X(a, ...b)".toUTF8 Snapshot.defaultDepth constructedList) ⟨0, 5⟩ =
      ⟨.argument, "new", "new", "", ⟨0, 5⟩⟩ ∧
    ∃ call callee, constructedList.at? [0, 0] = some call ∧
      Cst.field? call "constructor" = some callee ∧ callee.head.kind = "identifier" ∧
      callee.leafText "new X(a, ...b)".toUTF8 = "X" := by
  have hsound : ∀ n ∈ constructedList.nodes,
      n.head.isError = false ∧ n.head.isMissing = false := by
    decide +kernel
  have haccords : ∀ n ∈ constructedList.nodes, n.head.Accords (n.children.map Rose.head) := by
    decide +kernel
  exact ⟨hsound, haccords, rfl, _, _, rfl, rfl, rfl, rfl⟩

end Context

end ScriptLens
