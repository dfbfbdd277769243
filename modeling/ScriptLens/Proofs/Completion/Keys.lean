import Mathlib.Data.List.TakeWhile
import ScriptLens.Completion.Offer
import ScriptLens.Proofs.Reading.Comments
import ScriptLens.Proofs.Reading.Origins
import ScriptLens.Proofs.Reading.Sites
import ScriptLens.Proofs.Text.Utf8

/-! # Telling keys apart

A computed key stands right behind a bracket, any other key at the start of its member or behind
a word. So what stands in front of a key in its member tells whether the key is computed, as long
as no comment gets between a bracket and its expression and none in front of a key ends in a
bracket.
-/
namespace ScriptLens

open Rose

namespace Text

theorem trimEnd_append (as bs : List Char) :
    trimEnd (as ++ bs) = if (trimEnd bs).isEmpty then trimEnd as else as ++ trimEnd bs := by
  simp only [trimEnd, List.reverse_append, List.dropWhile_append, List.isEmpty_reverse]
  split
  · rfl
  · rw [List.reverse_append, List.reverse_reverse]

theorem trimEnd_of_blank {bs : List Char} (h : ∀ c ∈ bs, isBlank c = true) : trimEnd bs = [] := by
  rw [trimEnd, List.reverse_eq_nil_iff, List.dropWhile_eq_nil_iff]
  intro c hc
  exact h c (List.mem_reverse.mp hc)

theorem getLast?_trimEnd {as ws bs : List Char} {c : Char} (hw : (trimEnd ws).getLast? = some c)
    (hb : ∀ b ∈ bs, isBlank b = true) : (trimEnd (as ++ (ws ++ bs))).getLast? = some c := by
  have hne : trimEnd ws ≠ [] := by
    intro hnil
    rw [hnil] at hw
    cases hw
  have hws : trimEnd (ws ++ bs) = trimEnd ws := by
    rw [trimEnd_append, trimEnd_of_blank hb]
    rfl
  rw [trimEnd_append, hws, if_neg (by rwa [List.isEmpty_iff]), List.getLast?_append_of_ne_nil _ hne,
    hw]

end Text

namespace CstHead

variable {h : CstHead} {s : String}

def adjoins (source : ByteArray) (h next : CstHead) : Bool :=
  (Text.lossySlice source h.stop next.start).toList.all Text.isBlank

def lastMark? (source : ByteArray) (h : CstHead) : Option Char :=
  (Text.trimEnd (h.text source).toList).getLast?

/-- A node with a text has its place between characters. -/
structure Stands (s : String) (h : CstHead) : Prop where
  present : h.isMissing = false
  start_le : h.start ≤ h.stop
  start : Text.isBoundary s.toUTF8 h.start = true
  stop : Text.isBoundary s.toUTF8 h.stop = true

theorem stands_of_text (ht : h.text s.toUTF8 ≠ "") : h.Stands s := by
  have hm := not_missing_of_text ht
  rw [text, hm, if_neg Bool.false_ne_true, Text.slice?] at ht
  split at ht
  · next hguard =>
    simp only [Bool.and_eq_true, decide_eq_true_eq] at hguard
    exact ⟨hm, hguard.1.1, hguard.1.2, hguard.2⟩
  · exact absurd rfl ht

theorem Stands.text_eq (hs : h.Stands s) :
    h.text s.toUTF8 = Text.lossySlice s.toUTF8 h.start h.stop := by
  rw [text, hs.present, if_neg Bool.false_ne_true, Text.slice?, hs.start, hs.stop,
    decide_eq_true hs.start_le]
  rfl

end CstHead

namespace Cst

/-- A computed key is an expression right behind a bracket. -/
def valueStands (source : ByteArray) (n : Cst) : Bool :=
  match n.children with
  | mark :: value :: _ =>
    !mark.head.isNamed && mark.head.text source == "[" && value.head.isNamed &&
      !value.head.isComment && mark.head.adjoins source value.head
  | _ => false

/-- A key is the first child of its member, or it stands right behind a word; if it is computed,
its expression stands right behind its bracket. -/
def keyStands (source : ByteArray) (role : String) (n : Cst) : Bool :=
  match n.children.dropWhile (·.head.field != some role) with
  | [] => false
  | key :: _ =>
    (key.head.form != .computedProperty || Cst.valueStands source key) &&
    match (n.children.takeWhile (·.head.field != some role)).getLast? with
    | none => key.head.start == n.head.start
    | some word =>
      (word.head.lastMark? source).any (· != '[') && word.head.adjoins source key.head

def isKeyed (source : ByteArray) (n : Cst) : Bool :=
  match n.head.form with
  | .pair => n.keyStands source "key"
  | .methodDefinition => n.keyStands source "name"
  | _ => true

variable {s : String} {n : Cst} {role : String}

theorem field?_of_keyStands {source : ByteArray} (h : n.keyStands source role = true) :
    ∃ key, n.field? role = some key ∧
      (key.head.form = .computedProperty → key.valueStands source = true) ∧
      (key.head.start = n.head.start ∨ ∃ word ∈ n.children, ∃ c, [word, key].Sublist n.children ∧
        word.head.lastMark? source = some c ∧ c ≠ '[' ∧
        word.head.adjoins source key.head = true) := by
  unfold keyStands at h
  split at h
  · cases h
  · next key rest hkey =>
    have hfield : n.field? role = some key := by
      rw [field?, List.find?_eq_head?_dropWhile_not]
      exact congrArg List.head? hkey
    rw [Bool.and_eq_true] at h
    obtain ⟨hvalue, h⟩ := h
    refine ⟨key, hfield, ?_, ?_⟩
    · intro hform
      simpa [hform] using hvalue
    split at h
    · exact .inl (beq_iff_eq.mp h)
    · next word hword =>
      rw [Bool.and_eq_true, Option.any_eq_true] at h
      obtain ⟨⟨c, hc, hne⟩, hadjoins⟩ := h
      have hsub : [word, key].Sublist n.children := by
        rw [← List.takeWhile_append_dropWhile (p := (·.head.field != some role)) (l := n.children),
          hkey]
        exact (List.singleton_sublist.mpr (List.mem_of_getLast? hword)).append
          (List.singleton_sublist.mpr List.mem_cons_self)
      exact .inr ⟨word, hsub.subset List.mem_cons_self, c, hsub, hc, by simpa using hne, hadjoins⟩

end Cst

/-- An expression has one node, with the place of what it is read from. -/
theorem Site.expr_tree (source : ByteArray) (s : Site) : ∃ u, (s.expr source).trees = [u] ∧
    u.placed? = if s.span.isNowhere then none else some s.span := by
  unfold Site.expr
  split
  case h_27 =>
    unfold Site.call
    split
    · dsimp only
      split <;> exact ⟨_, rfl, Grid.placed?_inner⟩
    · exact ⟨_, rfl, Grid.placed?_inner⟩
  all_goals first
    | exact ⟨_, rfl, Grid.placed?_inner⟩
    | exact ⟨_, rfl, Grid.placed?_leaf⟩

/-- The node of a key in a member, in front of which there is a bracket exactly if the key is
computed. -/
structure Cst.TellsKey (n : Cst) (s : String) (key : Ast .key) (u : Tree) (span : Span) :
    Prop where
  tree : key.trees = [u]
  placed : u.placed? = some span
  start_lt : n.head.start < span.start
  le_stop : span.start ≤ n.head.stop + 1
  boundary : Text.isBoundary s.toUTF8 (span.start - 1) = true
  named : ∀ name, key.staticName? = some name → u.head.name = some name
  told : (Text.trimEnd (Text.lossySlice s.toUTF8 n.head.start (span.start - 1)).toList).getLast? =
    some '[' ↔ key.staticName? = none

namespace Cst

variable {s : String} {n key : Cst} {role : String}

/-- A tree without faults whose nodes are placed as in the text. -/
structure Legible (t : Cst) (s : String) : Prop where
  orders : ∀ n ∈ t.nodes, n.head.Orders (n.children.map Rose.head)
  completes : ∀ n ∈ t.nodes, n.head.Completes s.toUTF8 (n.children.map Rose.head)

namespace Legible

theorem of_mem {t : Cst} (h : t.Legible s) (hn : n ∈ t.nodes) : n.Legible s :=
  ⟨fun m hm => h.orders m (mem_nodes_trans hn hm),
    fun m hm => h.completes m (mem_nodes_trans hn hm)⟩

theorem child (h : n.Legible s) {c : Cst} (hc : c ∈ n.children) : c.Legible s :=
  h.of_mem (mem_nodes_of_child hc c.mem_nodes_self)

theorem stands (h : n.Legible s) {c : Cst} (hc : c ∈ n.children) : c.head.Stands s :=
  CstHead.stands_of_text ((h.completes n n.mem_nodes_self).text c.head (List.mem_map_of_mem hc))

theorem present (h : n.Legible s) {c : Cst} (hc : c ∈ n.children) : n.head.isMissing = false := by
  by_contra hmissing
  rw [Bool.not_eq_false] at hmissing
  have hnone := (h.orders n n.mem_nodes_self).missing hmissing
  rw [List.map_eq_nil_iff.mp hnone] at hc
  cases hc

theorem inside (h : n.Legible s) {c : Cst} (hc : c ∈ n.children) :
    n.head.start ≤ c.head.start ∧ c.head.stop ≤ n.head.stop :=
  (h.orders n n.mem_nodes_self).inside c.head (List.mem_map_of_mem hc)

theorem ordered (h : n.Legible s) {c d : Cst} (hcd : [c, d].Sublist n.children) :
    c.head.stop ≤ d.head.start := by
  have hpairs := List.pairwise_map.mp (h.orders n n.mem_nodes_self).ordered
  exact List.pairwise_iff_forall_sublist.mp hpairs hcd

end Legible

/-- In front of a node right behind a word stands the last character of the word. -/
theorem getLast?_front {word next : Cst} {c : Char} (hstart : n.head.start ≤ word.head.start)
    (hn : n.head.Stands s) (hw : word.head.Stands s) (hnext : next.head.Stands s)
    (hle : word.head.stop ≤ next.head.start) (hc : word.head.lastMark? s.toUTF8 = some c)
    (hadjoins : word.head.adjoins s.toUTF8 next.head = true) :
    (Text.trimEnd (Text.lossySlice s.toUTF8 n.head.start next.head.start).toList).getLast? =
      some c := by
  have hle' := hw.start_le
  rw [Text.toList_lossySlice_append hstart (Nat.le_trans hle' hle) hn.start hw.start hnext.start,
    Text.toList_lossySlice_append hle' hle hw.start hw.stop hnext.start]
  rw [CstHead.lastMark?, hw.text_eq] at hc
  exact Text.getLast?_trimEnd hc (List.all_eq_true.mp hadjoins)

theorem exists_value (hstands : key.valueStands s.toUTF8 = true) :
    ∃ mark value, [mark, value].Sublist key.children ∧ mark.head.lastMark? s.toUTF8 = some '[' ∧
      mark.head.adjoins s.toUTF8 value.head = true ∧
      (Reading.ofCst s.toUTF8 key).site.first? = some (Reading.ofCst s.toUTF8 value) := by
  unfold valueStands at hstands
  split at hstands
  · next mark value rest hchildren =>
    simp only [Bool.and_eq_true, Bool.not_eq_true', beq_iff_eq] at hstands
    obtain ⟨⟨⟨⟨hmark, htext⟩, hnamed⟩, hcomment⟩, hadjoins⟩ := hstands
    refine ⟨mark, value, ?_, ?_, hadjoins, ?_⟩
    · rw [hchildren]
      exact (List.nil_sublist rest).cons_cons value |>.cons_cons mark
    · rw [CstHead.lastMark?, htext]
      rfl
    · have hplain : Reading.isPart (.ofCst s.toUTF8 mark) = false := by
        rw [Reading.isPart, Reading.head_ofCst, hmark, Bool.false_and]
      have hpart : Reading.isPart (.ofCst s.toUTF8 value) = true := by
        rw [Reading.isPart, Reading.form, Reading.head_ofCst, hnamed, Bool.true_and,
          Bool.not_eq_true']
        exact hcomment
      rw [Site.first?, Reading.site, Reading.children_ofCst, hchildren, List.map_cons,
        List.map_cons, List.find?_cons_of_neg (by rw [hplain]; exact Bool.false_ne_true),
        List.find?_cons_of_pos hpart]
  · cases hstands

theorem placed?_of_stands {u : Tree} {h : CstHead} (hs : h.Stands s)
    (hu : u.placed? = if h.span.isNowhere then none else some h.span) :
    u.placed? = some h.extent := by
  rw [hu, CstHead.span_eq_extent hs.present, if_neg (by simp [CstHead.extent, Span.isNowhere])]

/-- A key that is not computed is a leaf over its own node, which has its name. -/
theorem key_tree_of_static {h : CstHead} {r : Reading} (hr : r.head = h)
    (hform : h.form ≠ .computedProperty) (hs : h.Stands s) :
    ∃ u, (r.key s.toUTF8).trees = [u] ∧ u.placed? = some h.extent ∧
      (r.key s.toUTF8).staticName? = u.head.name ∧ u.head.name ≠ none := by
  have hplaced : ∀ {kind label name}, (Tree.leaf kind h.span label name).placed? = some h.extent :=
    placed?_of_stands hs Grid.placed?_leaf
  have hform' : r.form ≠ .computedProperty := by
    rwa [Reading.form, hr]
  unfold Reading.key
  split
  case h_4 heq => exact absurd heq hform'
  all_goals
    subst hr
    exact ⟨_, rfl, hplaced, rfl, Option.some_ne_none _⟩

theorem tellsKey_of_computed (h : n.Legible s) (hn : n.head.Stands s) (hmem : key ∈ n.children)
    (hform : key.head.form = .computedProperty) (hvalues : key.valueStands s.toUTF8 = true) :
    ∃ u span, n.TellsKey s ((Reading.ofCst s.toUTF8 key).key s.toUTF8) u span := by
  have hkey := h.child hmem
  obtain ⟨hstart, hstop⟩ := h.inside hmem
  obtain ⟨mark, value, hsub, hmark, hadjoins, hfirst⟩ := exists_value hvalues
  have hmarkMem : mark ∈ key.children := hsub.subset List.mem_cons_self
  have hvalueMem : value ∈ key.children :=
    hsub.subset (List.mem_cons_of_mem _ List.mem_cons_self)
  have hvalue := hkey.stands hvalueMem
  obtain ⟨hvstart, hvstop⟩ := hkey.inside hvalueMem
  have hle := hvalue.start_le
  have hcomputed : (Reading.ofCst s.toUTF8 key).key s.toUTF8 =
      .keyComputed (Reading.ofCst s.toUTF8 value).expr := by
    rw [Reading.key, Reading.form, Reading.head_ofCst, hform, Site.firstExpr, hfirst]
    rfl
  obtain ⟨u, hu, hplaced⟩ := Site.expr_tree s.toUTF8
    ⟨value.head, value.children.map (Reading.ofCst s.toUTF8)⟩
  have hexpr : (Reading.ofCst s.toUTF8 value).expr.trees = [u] := by
    rw [Reading.ofCst_eq]
    exact hu
  rw [hcomputed]
  refine ⟨u, value.head.extent, hexpr, placed?_of_stands hvalue hplaced, ?_, ?_, hvalue.start, ?_,
    iff_of_true ?_ rfl⟩
  · exact Nat.lt_succ_of_le (Nat.le_trans hstart hvstart)
  · exact Nat.succ_le_succ (Nat.le_trans hle (Nat.le_trans hvstop hstop))
  · intro name hname
    cases hname
  · exact getLast?_front (Nat.le_trans hstart (hkey.inside hmarkMem).1) hn (hkey.stands hmarkMem)
      hvalue (hkey.ordered hsub) hmark hadjoins

theorem tellsKey_of_static (h : n.Legible s) (hn : n.head.Stands s) (hmem : key ∈ n.children)
    (hform : key.head.form ≠ .computedProperty)
    (hplace : key.head.start = n.head.start ∨ ∃ word ∈ n.children, ∃ c,
      [word, key].Sublist n.children ∧ word.head.lastMark? s.toUTF8 = some c ∧ c ≠ '[' ∧
        word.head.adjoins s.toUTF8 key.head = true) :
    ∃ u span, n.TellsKey s ((Reading.ofCst s.toUTF8 key).key s.toUTF8) u span := by
  have hkey := h.stands hmem
  obtain ⟨hstart, hstop⟩ := h.inside hmem
  have hle := hkey.start_le
  obtain ⟨u, hu, hplaced, hname, hsome⟩ :=
    key_tree_of_static (Reading.head_ofCst key) hform hkey
  have hfront : (Text.trimEnd
      (Text.lossySlice s.toUTF8 n.head.start key.head.start).toList).getLast? ≠ some '[' := by
    rcases hplace with hsame | ⟨word, hword, c, hsub, hc, hne, hadjoins⟩
    · rw [hsame, Text.toList_lossySlice_self]
      exact Option.some_ne_none _ ∘ Eq.symm
    · rw [getLast?_front (h.inside hword).1 hn (h.stands hword) hkey (h.ordered hsub) hc hadjoins]
      exact fun heq => hne (Option.some.inj heq)
  refine ⟨u, key.head.extent, hu, hplaced, Nat.lt_succ_of_le hstart,
    Nat.succ_le_succ (Nat.le_trans hle hstop), hkey.start, ?_, ?_⟩
  · intro name hstatic
    rw [← hname, hstatic]
  · rw [hname]
    exact iff_of_false hfront hsome

theorem exists_tellsKey (h : n.Legible s) (hn : n.head.Stands s)
    (hkey : n.keyStands s.toUTF8 role = true) :
    ∃ u span, n.TellsKey s ((Reading.ofCst s.toUTF8 n).site.fieldKey s.toUTF8 role) u span := by
  obtain ⟨key, hfield, hvalues, hplace⟩ := field?_of_keyStands hkey
  have hmem : key ∈ n.children := List.mem_of_find?_eq_some hfield
  have hread : (Reading.ofCst s.toUTF8 n).site.fieldKey s.toUTF8 role =
      (Reading.ofCst s.toUTF8 key).key s.toUTF8 := by
    rw [Site.fieldKey, Reading.field?_ofCst, hfield]
    rfl
  rw [hread]
  by_cases hform : key.head.form = .computedProperty
  · exact tellsKey_of_computed h hn hmem hform (hvalues hform)
  · exact tellsKey_of_static h hn hmem hform hplace

end Cst

end ScriptLens
