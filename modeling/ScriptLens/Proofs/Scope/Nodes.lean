import Mathlib.Tactic.Tauto
import ScriptLens.Proofs.Scope.Occurrences
import ScriptLens.Proofs.Scope.Run

/-! # What is recorded about nodes

A step acts on at most one identifier, and records about its node either a binding of that
name or that there is none. What is recorded about other nodes stays, and so do the names
and the uses of bindings.
-/
namespace ScriptLens

namespace Event

/-- The identifier that a pass acts on at an event. -/
def acting? : Pass → Event → Option Ident
  | .declare, .declare _ id => some id
  | .resolve, .refer id => some id
  | .resolve, .nameSelf id => some id
  | _, _ => none

/-- The node that a pass records something about at an event. -/
def touched? (x : Index) (pass : Pass) (e : Event) : Option Nat :=
  (e.acting? pass).bind x.identNode?

theorem touched?_eq_some {x : Index} {pass : Pass} {e : Event} {id : Ident} {n : Nat}
    (acting : e.acting? pass = some id) (node : x.identNode? id = some n) :
    e.touched? x pass = some n := by
  rw [touched?, acting, Option.bind_some, node]

end Event

/-- Bindings keep their names and lose none of their uses. -/
def BindingsGrow (old new : Array BindingRecord) : Prop :=
  ∀ (b : Nat) (β : BindingRecord), old[b]? = some β →
    ∃ γ, new[b]? = some γ ∧ γ.name = β.name ∧ ∀ n ∈ β.references, n ∈ γ.references

namespace BindingsGrow
variable {old mid new : Array BindingRecord}

theorem refl (bindings : Array BindingRecord) : BindingsGrow bindings bindings :=
  fun _ β hβ => ⟨β, hβ, rfl, fun _ hn => hn⟩

theorem trans (h₁ : BindingsGrow old mid) (h₂ : BindingsGrow mid new) : BindingsGrow old new := by
  intro b β hβ
  obtain ⟨γ, hγ, hname, hrefs⟩ := h₁ b β hβ
  obtain ⟨δ, hδ, hname', hrefs'⟩ := h₂ b γ hγ
  exact ⟨δ, hδ, hname'.trans hname, fun n hn => hrefs' n (hrefs n hn)⟩

theorem push (bindings : Array BindingRecord) (added : BindingRecord) :
    BindingsGrow bindings (bindings.push added) := by
  intro b β hβ
  have hlt := (Array.getElem?_eq_some_iff.mp hβ).1
  refine ⟨β, ?_, rfl, fun _ hn => hn⟩
  rw [Array.getElem?_push, if_neg (Nat.ne_of_lt hlt), hβ]

theorem modify (bindings : Array BindingRecord) (c : Nat) (f : BindingRecord → BindingRecord)
    (hf : ∀ β, (f β).name = β.name ∧ ∀ n ∈ β.references, n ∈ (f β).references) :
    BindingsGrow bindings (bindings.modify c f) := by
  intro b β hβ
  rw [Array.getElem?_modify, hβ]
  split
  · exact ⟨f β, rfl, hf β⟩
  · exact ⟨β, rfl, rfl, fun _ hn => hn⟩

end BindingsGrow

namespace Resolver

/-- What a step can do to what is recorded about nodes. -/
inductive NodeStep (x : Index) (pass : Pass) (e : Event) (r after : Resolver) : Prop where
  /-- No node is concerned. -/
  | quiet (none : e.touched? x pass = none) (nodeBinding : after.nodeBinding = r.nodeBinding)
      (unresolved : after.unresolved = r.unresolved)
      (declarations : after.declarations = r.declarations)
      (bindings : after.bindings = r.bindings)
  /-- The node has been dealt with before. -/
  | again {n : Nat} (node : e.touched? x pass = some n)
      (seen : n ∈ r.declarations ∨ n ∈ r.nodeBinding) (same : after = r)
  /-- The node has no binding. -/
  | free {n : Nat} (node : e.touched? x pass = some n) (fresh : n ∉ r.nodeBinding)
      (same : after = { r with unresolved := r.unresolved.push n })
  /-- The node gets a binding of its name. -/
  | bound {n b : Nat} {id : Ident} {β : BindingRecord} (acting : e.acting? pass = some id)
      (node : x.identNode? id = some n)
      (nodeBinding : after.nodeBinding = r.nodeBinding.insert n b)
      (unresolved : after.unresolved = r.unresolved)
      (declarations : after.declarations = r.declarations ∨
        after.declarations = r.declarations.insert n)
      (binding : after.bindings[b]? = some β) (name : β.name = id.name)
      (grow : BindingsGrow r.bindings after.bindings)

variable {x : Index} {pass : Pass} {e : Event} {r : Resolver}

theorem nodeStep_bind (h : r.Sound) {scope : Nat} {id : Ident} {n : Nat}
    (acting : e.acting? pass = some id) (node : x.identNode? id = some n) (kind : BindingKind) :
    NodeStep x pass e r (r.bind scope n id.name kind) := by
  unfold Resolver.bind
  split
  · next b hb =>
    obtain ⟨β, hβ, _, hname⟩ := (h.graph.bound_iff scope id.name b).mp hb
    have hkeep : ∀ γ, (redeclare kind n γ).name = γ.name ∧
        ∀ m ∈ γ.references, m ∈ (redeclare kind n γ).references := by
      intro γ
      unfold redeclare
      split <;> exact ⟨rfl, fun _ hm => hm⟩
    refine .bound acting node rfl rfl (.inr rfl) ?_ ((hkeep β).1.trans hname) (.modify _ _ _ hkeep)
    simp [Array.getElem?_modify, hβ]
  · exact .bound acting node rfl rfl (.inr rfl) Array.getElem?_push_size rfl (.push _ _)

theorem nodeStep_addReference {b n : Nat} {id : Ident} {β : BindingRecord}
    (acting : e.acting? pass = some id) (node : x.identNode? id = some n)
    (hb : r.bindings[b]? = some β) (hname : β.name = id.name) :
    NodeStep x pass e r (r.addReference n b) := by
  have hkeep : ∀ γ : BindingRecord,
      BindingRecord.name { γ with references := γ.references.push n } = γ.name ∧
        ∀ m ∈ γ.references, m ∈ γ.references.push n :=
    fun γ => ⟨rfl, fun _ hm => Array.mem_push_of_mem n hm⟩
  refine .bound acting node rfl rfl (.inl rfl) (β := { β with references := β.references.push n })
    ?_ hname (.modify _ _ _ hkeep)
  simp [addReference, Array.getElem?_modify, hb]

theorem nodeStep_refer (h : r.Sound) (x : Index) (id : Ident) :
    NodeStep x .resolve (.refer id) r (r.refer x id) := by
  unfold Resolver.refer
  cases hn : x.identNode? id with
  | none => exact .quiet hn rfl rfl rfl rfl
  | some n =>
    simp only
    split
    · next hseen =>
      refine .again hn ?_ rfl
      simpa using hseen
    · next hseen =>
      have hfresh : n ∉ r.nodeBinding := by
        intro hmem
        simp [hmem] at hseen
      cases hb : lookupFrom? r.scopes r.current id.name with
      | none => exact .free hn hfresh rfl
      | some b =>
        obtain ⟨β, hβ, hname⟩ := h.graph.exists_binding_of_lookupFrom? hb
        exact nodeStep_addReference rfl hn hβ hname

theorem nodeStep_nameSelf (h : r.Sound) (x : Index) (id : Ident) :
    NodeStep x .resolve (.nameSelf id) r (r.nameSelf x id) := by
  simp only [Resolver.nameSelf]
  cases hn : x.identNode? id with
  | none => exact .quiet hn rfl rfl rfl rfl
  | some n =>
    simp only
    split
    · next b hb =>
      rcases Option.or_eq_some_iff.mp hb with hb | ⟨_, hb⟩
      · obtain ⟨p, _, hp⟩ := Option.bind_eq_some_iff.mp hb
        obtain ⟨β, hβ, hname⟩ := h.graph.exists_binding_of_lookupFrom? hp
        exact nodeStep_addReference rfl hn hβ hname
      · obtain ⟨β, hβ, _, hname⟩ := (h.graph.bound_iff r.current id.name b).mp hb
        exact nodeStep_addReference rfl hn hβ hname
    · exact nodeStep_bind h rfl hn .functionDecl

theorem nodeStep_declare (h : r.Sound) (x : Index) (kind : BindingKind) (id : Ident) :
    NodeStep x .declare (.declare kind id) r (r.declare x kind id) := by
  simp only [Resolver.declare]
  cases hn : x.identNode? id with
  | none => exact .quiet hn rfl rfl rfl rfl
  | some n => exact nodeStep_bind h rfl hn kind

theorem nodeStep_step (h : r.Sound) (x : Index) (pass : Pass) (e : Event) :
    NodeStep x pass e r (r.step x pass e) := by
  cases pass with
  | declare =>
    cases e with
    | declare kind id => exact nodeStep_declare h x kind id
    | leave =>
      simp only [step, Resolver.leave]
      split <;> exact .quiet rfl rfl rfl rfl rfl
    | _ => exact .quiet rfl rfl rfl rfl rfl
  | resolve =>
    cases e with
    | refer id => exact nodeStep_refer h x id
    | nameSelf id => exact nodeStep_nameSelf h x id
    | enter kind span =>
      simp only [step, Resolver.enter]
      split <;> exact .quiet rfl rfl rfl rfl rfl
    | leave =>
      simp only [step, Resolver.leave]
      split <;> exact .quiet rfl rfl rfl rfl rfl
    | _ => exact .quiet rfl rfl rfl rfl rfl

def Knows (r : Resolver) (n : Nat) : Prop := n ∈ r.nodeBinding ∨ n ∈ r.unresolved

/-- No node stands in two records, none twice among those without a binding, and a node
that declares has a binding. -/
structure Sorted (r : Resolver) : Prop where
  apart : ∀ n ∈ r.nodeBinding, n ∉ r.unresolved
  nodup : r.unresolved.toList.Nodup
  declares : ∀ n ∈ r.declarations, n ∈ r.nodeBinding

/-- The binding of a node has the name of an identifier with that node. -/
def Labelled (x : Index) (known : Ident → Prop) (r : Resolver) : Prop :=
  ∀ (n b : Nat), r.nodeBinding[n]? = some b → ∃ id β, known id ∧ x.identNode? id = some n ∧
    r.bindings[b]? = some β ∧ β.name = id.name

namespace NodeStep
variable {after : Resolver}

theorem grow (h : NodeStep x pass e r after) : BindingsGrow r.bindings after.bindings := by
  cases h with
  | quiet _ _ _ _ hbindings => exact hbindings ▸ .refl _
  | again _ _ same => exact same ▸ .refl _
  | free _ _ same => exact same ▸ .refl _
  | bound _ _ _ _ _ _ _ hgrow => exact hgrow

theorem knows_iff (h : NodeStep x pass e r after)
    (hd : ∀ n ∈ r.declarations, n ∈ r.nodeBinding) (n : Nat) :
    after.Knows n ↔ r.Knows n ∨ e.touched? x pass = some n := by
  cases h with
  | quiet hnone hb hu _ _ => simp [Knows, hb, hu, hnone]
  | again hnode hseen hsame =>
    have hmem := hseen.elim (hd _) id
    subst hsame
    constructor
    · exact .inl
    · rintro (hk | hn)
      · exact hk
      · rw [hnode] at hn
        cases hn
        exact .inl hmem
  | free hnode _ hsame =>
    subst hsame
    simp only [Knows, Array.mem_push, hnode, Option.some.injEq, or_assoc, eq_comm]
  | bound hact hnode hb hu _ _ _ _ =>
    have htouched := Event.touched?_eq_some hact hnode
    simp only [Knows, hb, hu, Std.HashMap.mem_insert, beq_iff_eq, htouched, Option.some.injEq]
    tauto

theorem nodeBinding_eq (h : NodeStep x pass e r after) {n : Nat}
    (hn : e.touched? x pass ≠ some n) : after.nodeBinding[n]? = r.nodeBinding[n]? := by
  cases h with
  | quiet _ hb _ _ _ => rw [hb]
  | again _ _ same => rw [same]
  | free _ _ same => rw [same]
  | bound hact hnode hb _ _ _ _ _ =>
    rw [hb, Std.HashMap.getElem?_insert]
    split
    · next heq =>
      simp only [beq_iff_eq] at heq
      subst heq
      exact absurd (Event.touched?_eq_some hact hnode) hn
    · rfl

theorem mem_unresolved (h : NodeStep x pass e r after) {n : Nat} (hn : n ∈ r.unresolved) :
    n ∈ after.unresolved := by
  cases h with
  | quiet _ _ hu _ _ => exact hu ▸ hn
  | again _ _ same => exact same ▸ hn
  | free _ _ same => exact same ▸ Array.mem_push_of_mem _ hn
  | bound _ _ _ hu _ _ _ _ => exact hu ▸ hn

theorem declares (h : NodeStep x pass e r after) (hr : ∀ n ∈ r.declarations, n ∈ r.nodeBinding) :
    ∀ n ∈ after.declarations, n ∈ after.nodeBinding := by
  intro n hn
  cases h with
  | quiet _ hb _ hd _ => exact hb ▸ hr n (hd ▸ hn)
  | again _ _ same => exact same ▸ hr n (same ▸ hn)
  | free _ _ same =>
    subst same
    exact hr n hn
  | bound _ _ hb _ hd _ _ _ =>
    rw [hb, Std.HashMap.mem_insert, beq_iff_eq]
    rcases hd with hd | hd
    · exact .inr (hr n (hd ▸ hn))
    · rw [hd, Std.HashSet.mem_insert, beq_iff_eq] at hn
      exact hn.imp id (hr n)

theorem sorted (h : NodeStep x pass e r after) (hs : r.Sorted)
    (hnew : ∀ n, e.touched? x pass = some n → ¬ r.Knows n) : after.Sorted := by
  have hdeclares := h.declares hs.declares
  cases h with
  | quiet _ hb hu hd _ =>
    refine ⟨?_, hu ▸ hs.nodup, hdeclares⟩
    rw [hb, hu]
    exact hs.apart
  | again _ _ same => exact same ▸ hs
  | @free m hnode hfresh same =>
    subst same
    refine ⟨?_, ?_, hdeclares⟩
    · intro n hn hmem
      rcases Array.mem_push.mp hmem with hmem | rfl
      · exact hs.apart n hn hmem
      · exact hfresh hn
    · rw [Array.toList_push]
      refine List.nodup_append.mpr ⟨hs.nodup, List.nodup_singleton _, ?_⟩
      intro a ha b hb hab
      rw [hab, List.mem_singleton.mp hb] at ha
      exact hnew m hnode (.inr (Array.mem_toList_iff.mp ha))
  | @bound m _ _ _ hact hnode hb hu hd _ _ _ =>
    have hm : ¬ r.Knows m := hnew m (Event.touched?_eq_some hact hnode)
    refine ⟨?_, hu ▸ hs.nodup, hdeclares⟩
    intro n hn
    rw [hb, Std.HashMap.mem_insert, beq_iff_eq] at hn
    rw [hu]
    rcases hn with rfl | hn
    · exact fun hmem => hm (.inr hmem)
    · exact hs.apart n hn

theorem labelled (h : NodeStep x pass e r after) {known : Ident → Prop}
    (hr : r.Labelled x known) (he : ∀ id, e.acting? pass = some id → known id) :
    after.Labelled x known := by
  have keep : ∀ {n b : Nat}, r.nodeBinding[n]? = some b → ∃ id β, known id ∧
      x.identNode? id = some n ∧ after.bindings[b]? = some β ∧ β.name = id.name := by
    intro n b hb
    obtain ⟨id, β, hid, hn, hβ, hname⟩ := hr n b hb
    obtain ⟨γ, hγ, hγname, _⟩ := h.grow b β hβ
    exact ⟨id, γ, hid, hn, hγ, hγname.trans hname⟩
  intro n b hb
  cases h with
  | quiet _ hnb _ _ _ => exact keep (hnb ▸ hb)
  | again _ _ same => exact keep (same ▸ hb)
  | free _ _ same =>
    subst same
    exact keep hb
  | @bound m c id β hact hnode hnb _ _ hβ hname _ =>
    rw [hnb, Std.HashMap.getElem?_insert] at hb
    split at hb
    · next heq =>
      simp only [beq_iff_eq] at heq
      cases hb
      exact ⟨id, β, he id hact, heq ▸ hnode, hβ, hname⟩
    · exact keep hb

end NodeStep

/-! ## Whole runs -/

theorem run_declares (h : r.Sound) (hd : ∀ n ∈ r.declarations, n ∈ r.nodeBinding) (x : Index)
    (pass : Pass) (es : List Event) :
    ∀ n ∈ (r.run x pass es).declarations, n ∈ (r.run x pass es).nodeBinding := by
  induction es generalizing r with
  | nil => exact hd
  | cons e rest ih =>
    exact ih (h.step x pass e) ((nodeStep_step h x pass e).declares hd)

/-- A run records something about exactly the nodes that its events touch. -/
theorem run_knows_iff (h : r.Sound) (hd : ∀ n ∈ r.declarations, n ∈ r.nodeBinding) (x : Index)
    (pass : Pass) (es : List Event) (n : Nat) :
    (r.run x pass es).Knows n ↔ r.Knows n ∨ n ∈ es.filterMap (Event.touched? x pass) := by
  induction es generalizing r with
  | nil => simp [run]
  | cons e rest ih =>
    have hstep := nodeStep_step h x pass e
    rw [run_cons, ih (h.step x pass e) (hstep.declares hd), hstep.knows_iff hd, List.filterMap_cons]
    cases e.touched? x pass with
    | none => simp
    | some m => simp only [Option.some.injEq, List.mem_cons, or_assoc, eq_comm]

theorem run_sorted (h : r.Sound) (hs : r.Sorted) {x : Index} {pass : Pass} {es : List Event}
    (hnodup : (es.filterMap (Event.touched? x pass)).Nodup)
    (hnew : ∀ n ∈ es.filterMap (Event.touched? x pass), ¬ r.Knows n) :
    (r.run x pass es).Sorted := by
  induction es generalizing r with
  | nil => exact hs
  | cons e rest ih =>
    have hstep := nodeStep_step h x pass e
    have htouched : ∀ n, e.touched? x pass = some n → ¬ r.Knows n := by
      intro n hn
      exact hnew n (by simp [hn])
    refine ih (h.step x pass e) (hstep.sorted hs htouched) ?_ ?_
    · cases hn : e.touched? x pass with
      | none => simpa [List.filterMap_cons, hn] using hnodup
      | some m =>
        rw [List.filterMap_cons, hn] at hnodup
        exact (List.nodup_cons.mp hnodup).2
    · intro n hmem hknows
      rcases (hstep.knows_iff hs.declares n).mp hknows with hold | hn
      · exact hnew n (List.mem_filterMap.mpr (by
          obtain ⟨f, hf, hfn⟩ := List.mem_filterMap.mp hmem
          exact ⟨f, List.mem_cons_of_mem e hf, hfn⟩)) hold
      · rw [List.filterMap_cons, hn] at hnodup
        exact (List.nodup_cons.mp hnodup).1 hmem

theorem run_labelled (h : r.Sound) {x : Index} {pass : Pass} {known : Ident → Prop}
    {es : List Event} (hr : r.Labelled x known)
    (hes : ∀ e ∈ es, ∀ id, e.acting? pass = some id → known id) :
    (r.run x pass es).Labelled x known := by
  induction es generalizing r with
  | nil => exact hr
  | cons e rest ih =>
    have hstep := (nodeStep_step h x pass e).labelled hr (hes e List.mem_cons_self)
    refine ih (h.step x pass e) hstep ?_
    intro f hf
    exact hes f (List.mem_cons_of_mem e hf)

theorem run_grow (h : r.Sound) (x : Index) (pass : Pass) (es : List Event) :
    BindingsGrow r.bindings (r.run x pass es).bindings := by
  induction es generalizing r with
  | nil => exact .refl _
  | cons e rest ih => exact (nodeStep_step h x pass e).grow.trans (ih (h.step x pass e))

theorem run_nodeBinding_eq (h : r.Sound) {x : Index} {pass : Pass} {es : List Event} {n : Nat}
    (hn : n ∉ es.filterMap (Event.touched? x pass)) :
    (r.run x pass es).nodeBinding[n]? = r.nodeBinding[n]? := by
  induction es generalizing r with
  | nil => rfl
  | cons e rest ih =>
    have he : e.touched? x pass ≠ some n := fun he => hn (by simp [he])
    have hrest : n ∉ rest.filterMap (Event.touched? x pass) := by
      intro hmem
      obtain ⟨f, hf, hfn⟩ := List.mem_filterMap.mp hmem
      exact hn (List.mem_filterMap.mpr ⟨f, List.mem_cons_of_mem e hf, hfn⟩)
    rw [run_cons, ih (h.step x pass e) hrest, (nodeStep_step h x pass e).nodeBinding_eq he]

theorem run_mem_unresolved (h : r.Sound) {x : Index} {pass : Pass} {es : List Event} {n : Nat}
    (hn : n ∈ r.unresolved) : n ∈ (r.run x pass es).unresolved := by
  induction es generalizing r with
  | nil => exact hn
  | cons e rest ih =>
    exact ih (h.step x pass e) ((nodeStep_step h x pass e).mem_unresolved hn)

end Resolver

end ScriptLens
