import ScriptLens.Proofs.Reading.Layout
import ScriptLens.Proofs.Scope.Occurrences
import ScriptLens.Proofs.Scope.Shape

/-! # Where events stand

The scopes and the uses of a program have places in the text. A scope holds the places of
what happens in it, and what happens one after the other stands apart. Only two constructs
open their scope late, so that it also holds a part that comes before it: a `switch`
statement its discriminant, and a field of a class its key.

Seen from the start of a use, the events before it lead into scopes that hold it and pass by
others that do not, and of the scopes that follow only late ones hold it.
-/
namespace ScriptLens

namespace Span
variable {s other : Span}

theorem Within.contains_start (h : s.Within other) (hwide : s.start < s.stop) :
    other.contains s.start = true :=
  contains_iff.mpr ⟨h.start_le, Nat.lt_of_lt_of_le hwide h.stop_le⟩

theorem Apart.not_contains_start (h : other.Apart s) (hwide : s.start < s.stop) :
    other.contains s.start = false := by
  rw [Bool.eq_false_iff, ne_eq, contains_iff]
  unfold Apart at h
  omega

end Span

namespace Event

def mark? : Event → Option Span
  | .enter _ span => some span
  | .refer id => if id.isPlaced then some id.span else none
  | _ => none

def marks (es : List Event) : List Span := es.filterMap mark?

@[simp] theorem marks_append (es fs : List Event) : marks (es ++ fs) = marks es ++ marks fs :=
  List.filterMap_append

theorem marks_within (kind : ScopeKind) (span : Span) (body : List Event) :
    marks (within kind span body) = span :: marks body := by
  simp [marks, within, List.filterMap_cons, mark?]

theorem marks_map {make : Ident → Event} (h : ∀ id, (make id).mark? = none) (ids : List Ident) :
    marks (ids.map make) = [] := by
  simp [marks, List.filterMap_map, h]

theorem mem_marks_of_enter {es : List Event} {kind : ScopeKind} {span : Span}
    (h : .enter kind span ∈ es) : span ∈ marks es :=
  List.mem_filterMap.mpr ⟨.enter kind span, h, rfl⟩

theorem mem_marks_of_refer {es : List Event} {id : Ident} (h : .refer id ∈ es)
    (hplaced : id.isPlaced = true) : id.span ∈ marks es :=
  List.mem_filterMap.mpr ⟨.refer id, h, if_pos hplaced⟩

/-- Events that declare nothing outside of functions, but for the name of a class inside the
class. -/
inductive Quiet : List Event → Prop where
  | nil : Quiet []
  | refer (id : Ident) : Quiet [.refer id]
  | property (id : Ident) : Quiet [.property id]
  | append {es fs : List Event} (first : Quiet es) (rest : Quiet fs) : Quiet (es ++ fs)
  | function (span : Span) (name : Option Ident) {body : List Event} (inside : Shape body) :
      Quiet (within .function span (name.toList.map .nameSelf ++ body))
  | class (span : Span) (name : Ident) {body : List Event} (inside : Quiet body) :
      Quiet (within .block span (.declare .classDecl name :: body))

/-- A scope that may be opened late: that of a `switch` statement, or one without names. -/
inductive Late (switch : Span → Prop) : ScopeKind → Span → List Event → Prop where
  | switch {span : Span} {body : List Event} (known : switch span) : Late switch .block span body
  | field {span : Span} {body : List Event} (quiet : Quiet body) : Late switch .function span body

/-- Scopes around what happens in them, and all else apart. -/
inductive Placed (switch : Span → Prop) : List Event → Prop where
  | nil : Placed switch []
  | declare (kind : BindingKind) (id : Ident) : Placed switch [.declare kind id]
  | property (id : Ident) : Placed switch [.property id]
  | refer (id : Ident) (wide : id.isPlaced = true → id.span.start < id.span.stop) :
      Placed switch [.refer id]
  | append {es fs : List Event} (first : Placed switch es) (rest : Placed switch fs)
      (apart : ∀ m ∈ marks es, ∀ n ∈ marks fs, m.Apart n) : Placed switch (es ++ fs)
  | within (kind : ScopeKind) {span : Span} (name : Option Ident) {body : List Event}
      (placed : span.isNowhere = false) (inside : Placed switch body)
      (around : ∀ m ∈ marks body, m.Within span) :
      Placed switch (within kind span (name.toList.map .nameSelf ++ body))
  | late {kind : ScopeKind} {span : Span} {es body : List Event}
      (placed : span.isNowhere = false) (opens : Late switch kind span body)
      (first : Placed switch es) (inside : Placed switch body)
      (apart : ∀ m ∈ marks es, ∀ n ∈ marks body, m.Apart n)
      (around : ∀ m ∈ marks es, m.Within span) (inner : ∀ m ∈ marks body, m.Within span) :
      Placed switch (es ++ within kind span body)

theorem Placed.shape {switch : Span → Prop} {es : List Event} (h : Placed switch es) :
    Shape es := by
  induction h with
  | nil => exact .nil
  | declare kind id => exact .declare kind id
  | property id => exact .property id
  | refer id _ => exact .refer id
  | append _ _ _ ihe ihf => exact ihe.append ihf
  | within kind name _ _ _ ih => exact .within kind _ name ih
  | late _ _ _ _ _ _ _ ihe ihb => exact ihe.append (ihb.plain _ _)

theorem Placed.placed {switch : Span → Prop} {es : List Event} (h : Placed switch es)
    {kind : ScopeKind} {span : Span} (he : .enter kind span ∈ es) : span.isNowhere = false := by
  induction h with
  | nil | declare | property | refer => simp at he
  | append _ _ _ ihe ihf => exact (List.mem_append.mp he).elim ihe ihf
  | within _ _ placed _ _ ih =>
    simp only [Event.within, List.mem_append, List.mem_cons, List.mem_map, enter.injEq,
      reduceCtorEq, and_false, exists_false, false_or, List.not_mem_nil, or_false] at he
    rcases he with ⟨_, rfl⟩ | he
    · exact placed
    · exact ih he
  | late placed _ _ _ _ _ _ ihe ihb =>
    simp only [Event.within, List.mem_append, List.mem_cons, enter.injEq, reduceCtorEq,
      List.not_mem_nil, or_false] at he
    rcases he with he | ⟨_, rfl⟩ | he
    · exact ihe he
    · exact placed
    · exact ihb he

/-! ## Around a use -/

/-- The scopes that events open have places, none of which holds an offset. -/
def Avoids (o : Nat) (es : List Event) : Prop :=
  ∀ kind span, .enter kind span ∈ es → span.isNowhere = false ∧ span.contains o = false

/-- Events that go into scopes which hold an offset, past others which do not. -/
inductive Leads (o : Nat) : List Event → Prop where
  | nil : Leads o []
  | past {es rest : List Event} (shape : Shape es) (avoids : Avoids o es) (next : Leads o rest) :
      Leads o (es ++ rest)
  | into (kind : ScopeKind) {span : Span} (name : Option Ident) {rest : List Event}
      (placed : span.isNowhere = false) (holds : span.contains o = true) (next : Leads o rest) :
      Leads o (.enter kind span :: (name.toList.map .nameSelf ++ rest))

/-- Events that go out of scopes, past others which do not hold an offset or are late. -/
inductive Trails (switch : Span → Prop) (o : Nat) : List Event → Prop where
  | nil : Trails switch o []
  | past {es rest : List Event} (shape : Shape es) (avoids : Avoids o es)
      (next : Trails switch o rest) : Trails switch o (es ++ rest)
  | out {rest : List Event} (next : Trails switch o rest) : Trails switch o (.leave :: rest)
  | late {kind : ScopeKind} {span : Span} {body rest : List Event}
      (placed : span.isNowhere = false) (opens : Late switch kind span body) (shape : Shape body)
      (avoids : Avoids o body) (next : Trails switch o rest) :
      Trails switch o (within kind span body ++ rest)

namespace Trails
variable {switch : Span → Prop} {o : Nat} {es fs : List Event}

theorem append (h : Trails switch o es) (h' : Trails switch o fs) : Trails switch o (es ++ fs) := by
  induction h with
  | nil => exact h'
  | past shape avoids _ ih =>
    rw [List.append_assoc]
    exact .past shape avoids ih
  | out _ ih => exact .out ih
  | late placed opens shape avoids _ ih =>
    rw [List.append_assoc]
    exact .late placed opens shape avoids ih

theorem avoided (shape : Shape es) (avoids : Avoids o es) : Trails switch o es := by
  rw [← List.append_nil es]
  exact .past shape avoids .nil

theorem opened {kind : ScopeKind} {span : Span} (placed : span.isNowhere = false)
    (opens : Late switch kind span es) (shape : Shape es) (avoids : Avoids o es) :
    Trails switch o (within kind span es) := by
  rw [← List.append_nil (within kind span es)]
  exact .late placed opens shape avoids .nil

end Trails

theorem append_eq_split {α : Type} {xs ys before rest : List α} {a : α}
    (h : xs ++ ys = before ++ a :: rest) :
    (∃ mid, xs = before ++ a :: mid ∧ rest = mid ++ ys) ∨
      ∃ mid, before = xs ++ mid ∧ ys = mid ++ a :: rest := by
  rcases List.append_eq_append_iff.mp h with ⟨mid, hbefore, hys⟩ | ⟨mid, hxs, hrest⟩
  · exact .inr ⟨mid, hbefore, hys⟩
  · rcases List.cons_eq_append_iff.mp hrest with ⟨rfl, hys⟩ | ⟨tail, rfl, hrest⟩
    · exact .inr ⟨[], by simpa using hxs.symm, hys⟩
    · exact .inl ⟨tail, hxs, by simpa using hrest⟩

theorem within_eq_split {kind : ScopeKind} {span : Span} {name : Option Ident} {id : Ident}
    {body before rest : List Event}
    (h : within kind span (name.toList.map .nameSelf ++ body) = before ++ .refer id :: rest) :
    ∃ first last, before = .enter kind span :: (name.toList.map .nameSelf ++ first) ∧
      rest = last ++ [.leave] ∧ body = first ++ .refer id :: last := by
  rcases append_eq_split h with ⟨last, hopened, hrest⟩ | ⟨mid, _, hleave⟩
  · rw [← List.cons_append] at hopened
    rcases append_eq_split hopened with ⟨mid, hnames, _⟩ | ⟨first, hbefore, hbody⟩
    · have hmem : Event.refer id ∈ Event.enter kind span :: name.toList.map .nameSelf := by
        simp [hnames]
      simp at hmem
    · exact ⟨first, last, hbefore, hrest, hbody⟩
  · have hmem : Event.refer id ∈ [Event.leave] := by simp [hleave]
    simp at hmem

namespace Placed
variable {switch : Span → Prop} {es before rest : List Event} {id : Ident}

theorem avoids (h : Placed switch es) {s : Span} (hapart : ∀ m ∈ marks es, m.Apart s)
    (hwide : s.start < s.stop) : Avoids s.start es := by
  intro kind span he
  exact ⟨h.placed he, Span.Apart.not_contains_start (hapart span (mem_marks_of_enter he)) hwide⟩

/-- What stands before a use leads into its scopes, and what follows trails out of them. -/
theorem split (h : Placed switch es) (hes : es = before ++ .refer id :: rest)
    (hplaced : id.isPlaced = true) :
    id.span.start < id.span.stop ∧ Leads id.span.start before ∧
      Trails switch id.span.start rest := by
  induction h generalizing before rest with
  | nil => simp at hes
  | declare | property =>
    have hmem : Event.refer id ∈ before ++ .refer id :: rest := by simp
    rw [← hes] at hmem
    simp at hmem
  | refer other wide =>
    rcases List.cons_eq_append_iff.mp hes with ⟨rfl, hrest⟩ | ⟨tail, _, hnil⟩
    · cases hrest
      exact ⟨wide hplaced, .nil, .nil⟩
    · simp at hnil
  | @append es fs first second apart ihe ihf =>
    rcases append_eq_split hes with ⟨mid, hfirst, rfl⟩ | ⟨mid, rfl, hfs⟩
    · obtain ⟨hwide, hleads, htrails⟩ := ihe hfirst
      have hmark : id.span ∈ marks es := mem_marks_of_refer (by simp [hfirst]) hplaced
      have havoids := second.avoids (fun m hm => (apart _ hmark m hm).symm) hwide
      exact ⟨hwide, hleads, htrails.append (.avoided second.shape havoids)⟩
    · obtain ⟨hwide, hleads, htrails⟩ := ihf hfs
      have hmark : id.span ∈ marks fs := mem_marks_of_refer (by simp [hfs]) hplaced
      have havoids := first.avoids (fun m hm => apart m hm _ hmark) hwide
      exact ⟨hwide, .past first.shape havoids hleads, htrails⟩
  | @within kind span name body placed _ around ih =>
    obtain ⟨mid, last, rfl, rfl, hbody⟩ := within_eq_split hes
    obtain ⟨hwide, hleads, htrails⟩ := ih hbody
    have hmark : id.span ∈ marks body := mem_marks_of_refer (by simp [hbody]) hplaced
    have hholds := (around _ hmark).contains_start hwide
    exact ⟨hwide, .into kind name placed hholds hleads, htrails.append (.out .nil)⟩
  | @late kind span es body placed opens first inside apart _ inner ihe ihb =>
    rcases append_eq_split hes with ⟨mid, hfirst, rfl⟩ | ⟨mid, rfl, hwithin⟩
    · obtain ⟨hwide, hleads, htrails⟩ := ihe hfirst
      have hmark : id.span ∈ marks es := mem_marks_of_refer (by simp [hfirst]) hplaced
      have havoids := inside.avoids (fun m hm => (apart _ hmark m hm).symm) hwide
      exact ⟨hwide, hleads, htrails.append (.opened placed opens inside.shape havoids)⟩
    · change Event.within kind span ((none : Option Ident).toList.map .nameSelf ++ body) = _
        at hwithin
      obtain ⟨head, last, rfl, rfl, hbody⟩ := within_eq_split hwithin
      obtain ⟨hwide, hleads, htrails⟩ := ihb hbody
      have hmark : id.span ∈ marks body := mem_marks_of_refer (by simp [hbody]) hplaced
      have havoids := first.avoids (fun m hm => apart m hm _ hmark) hwide
      have hholds := (inner _ hmark).contains_start hwide
      exact ⟨hwide, .past first.shape havoids (.into kind none placed hholds hleads),
        htrails.append (.out .nil)⟩

end Placed

end Event

end ScriptLens
