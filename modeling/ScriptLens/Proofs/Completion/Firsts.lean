import Mathlib.Data.List.Basic
import ScriptLens.Analysis
import ScriptLens.Proofs.Reading.Nodes

/-! # First candidates

What is offered is chosen in one pass that drops what has a known label and what does not
continue the typed text at the same time. Whether a text is continued depends on the label alone,
so it makes no difference which of the two is dropped first: offered is what is the first with its
label, as far as it continues the typed text.
-/
namespace ScriptLens

namespace Candidate

/-- The first candidate of each label, apart from labels seen before. -/
def distinct (seen : List String) : List Candidate → List Candidate
  | [] => []
  | c :: rest =>
    if seen.contains c.label then distinct seen rest
    else c :: distinct (c.label :: seen) rest

/-- The candidates in front of which no other one has their label, if they continue a text. -/
def chosen (typed : String) (cs : List Candidate) : List Candidate :=
  (cs.zipIdx.filter fun (c, i) =>
    (cs.take i).all (·.label ≠ c.label) && c.continues typed).map Prod.fst

theorem continues_congr {c d : Candidate} (typed : String) (h : c.label = d.label) :
    c.continues typed = d.continues typed := by
  rw [continues, continues, h]

/-- Every candidate is seen, whether it is kept or not. -/
theorem sift_eq (typed : String) (seen : List String) (cs : List Candidate) :
    sift typed seen cs = (distinct seen cs).filter (·.continues typed) := by
  induction cs generalizing seen with
  | nil => rfl
  | cons c rest ih =>
    rw [sift, distinct]
    split
    · exact ih seen
    · rw [List.filter_cons, ih]

theorem distinct_congr {seen others : List String} {cs : List Candidate}
    (h : ∀ c ∈ cs, seen.contains c.label = others.contains c.label) :
    distinct seen cs = distinct others cs := by
  induction cs generalizing seen others with
  | nil => rfl
  | cons c rest ih =>
    obtain ⟨hc, hrest⟩ := List.forall_mem_cons.mp h
    rw [distinct, distinct, hc, ih hrest]
    congr 2
    apply ih
    intro d hd
    rw [List.contains_cons, List.contains_cons, hrest d hd]

theorem distinct_filter (typed : String) (seen : List String) (cs : List Candidate) :
    distinct seen (cs.filter (·.continues typed)) =
      (distinct seen cs).filter (·.continues typed) := by
  induction cs generalizing seen with
  | nil => rfl
  | cons c rest ih =>
    by_cases hc : c.continues typed = true
    · rw [List.filter_cons_of_pos hc, distinct, distinct, ih, ih]
      split
      · rfl
      · rw [List.filter_cons_of_pos hc]
    · rw [List.filter_cons_of_neg hc, distinct]
      split
      · exact ih seen
      · rw [List.filter_cons_of_neg hc, ← ih]
        apply distinct_congr
        intro d hd
        have hne : d.label ≠ c.label := fun hsame =>
          hc (continues_congr typed hsame ▸ (List.mem_filter.mp hd).2)
        rw [List.contains_cons, beq_eq_false_iff_ne.mpr hne, Bool.false_or]

theorem nodup_map_label_distinct (seen : List String) (cs : List Candidate) :
    ((distinct seen cs).map label).Nodup ∧ ∀ c ∈ distinct seen cs, c.label ∉ seen := by
  induction cs generalizing seen with
  | nil => exact ⟨List.nodup_nil, fun _ hc => by cases hc⟩
  | cons c rest ih =>
    rw [distinct]
    split
    · exact ih seen
    · next hc =>
      obtain ⟨hnodup, hnew⟩ := ih (c.label :: seen)
      refine ⟨?_, ?_⟩
      · rw [List.map_cons, List.nodup_cons]
        refine ⟨fun hmem => ?_, hnodup⟩
        obtain ⟨d, hd, hsame⟩ := List.mem_map.mp hmem
        exact hnew d hd (hsame ▸ List.mem_cons_self)
      · rw [List.forall_mem_cons]
        refine ⟨fun hmem => hc (List.contains_iff_mem.mpr hmem), fun d hd hmem => ?_⟩
        exact hnew d hd (List.mem_cons_of_mem _ hmem)

/-- Labels have been seen if candidates further ahead have them. -/
theorem distinct_filter_eq_zipIdx {typed : String} {cs : List Candidate} (before : List Candidate)
    (seen : List String) (hseen : ∀ l, l ∈ seen ↔ l ∈ before.map label) :
    (distinct seen cs).filter (·.continues typed) =
      ((cs.zipIdx before.length).filter fun (c, i) =>
        ((before ++ cs).take i).all (·.label ≠ c.label) && c.continues typed).map Prod.fst := by
  induction cs generalizing before seen with
  | nil => rfl
  | cons c rest ih =>
    have hnext : before ++ c :: rest = (before ++ [c]) ++ rest := by
      rw [List.append_assoc, List.singleton_append]
    have hlength : before.length + 1 = (before ++ [c]).length := by
      rw [List.length_append, List.length_singleton]
    have hfirst : before.all (·.label ≠ c.label) = !seen.contains c.label := by
      rw [Bool.eq_iff_iff, Bool.not_eq_true', Bool.eq_false_iff, ne_eq, List.contains_iff_mem,
        hseen]
      simp
    rw [List.zipIdx_cons, List.filter_cons, distinct]
    simp only [List.take_left, hfirst]
    rw [hnext, hlength]
    cases hc : seen.contains c.label with
    | true =>
      rw [if_pos rfl, Bool.not_true, Bool.false_and, if_neg Bool.false_ne_true]
      apply ih
      intro l
      rw [List.map_append, List.mem_append, ← hseen]
      have hmem := List.contains_iff_mem.mp hc
      simp only [List.map_cons, List.map_nil, List.mem_singleton]
      constructor
      · exact Or.inl
      · rintro (hl | rfl)
        exacts [hl, hmem]
    | false =>
      rw [if_neg Bool.false_ne_true, Bool.not_false, Bool.true_and, List.filter_cons]
      have hrest := ih (before ++ [c]) (c.label :: seen) fun l => by
        rw [List.mem_cons, hseen, List.map_append, List.mem_append, Or.comm]
        simp
      rw [hrest]
      cases c.continues typed <;> rfl

theorem chosen_eq (typed : String) (cs : List Candidate) :
    chosen typed cs = (distinct [] cs).filter (·.continues typed) :=
  (distinct_filter_eq_zipIdx [] [] fun _ => Iff.rfl).symm

end Candidate

theorem Context.candidates_eq (c : Context) (x : Indexed) (buffer : Option Snapshot) :
    c.candidates x buffer = if c.isNothing then [] else
      (Candidate.distinct [] (c.fitting x ++ (buffer.map Snapshot.declared).getD [])).filter
        (·.continues c.typed) := by
  rw [candidates, Candidate.sift_eq]

/-- Wherever something is completed, what is offered is what comes first with its label, first the
candidates of the place and then the names that the buffer declares, as far as it continues the
typed text. No label is offered twice, labels may be dropped before or after texts are compared,
and an analysis shows what is offered up to its limit. -/
theorem Context.candidates_first_wins (c : Context) (hc : c.kind ≠ .nothing) (x : Indexed)
    (buffer : Option Snapshot) :
    let raw := c.fitting x ++ (buffer.map Snapshot.declared).getD []
    let offered := c.candidates x buffer
    offered = Candidate.chosen c.typed raw ∧
    (offered.map Candidate.label).Nodup ∧
    offered = (Candidate.distinct [] raw).filter (·.continues c.typed) ∧
    offered = Candidate.distinct [] (raw.filter (·.continues c.typed)) ∧
    ∀ (a : Analysis) (cursor : Point), a.indexed = x → Context.ofCursor a.snapshot cursor = c →
      a.complete cursor buffer = (c, offered.take a.maxResults) := by
  intro raw offered
  have hsomething : c.isNothing = false := beq_eq_false_iff_ne.mpr hc
  have hoffered : offered = (Candidate.distinct [] raw).filter (·.continues c.typed) := by
    have heq := c.candidates_eq x buffer
    rwa [hsomething, if_neg Bool.false_ne_true] at heq
  have hlabels := (Candidate.nodup_map_label_distinct [] raw).1
  refine ⟨?_, ?_, hoffered, ?_, ?_⟩
  · rw [hoffered, Candidate.chosen_eq]
  · rw [hoffered]
    exact hlabels.sublist (List.filter_sublist.map _)
  · rw [hoffered, Candidate.distinct_filter]
  · rintro a cursor rfl rfl
    rfl

def consoleText : String := "console.l"

def consoleAccess : Cst :=
  .named "program" none 0 9
    [.named "expression_statement" none 0 9
      [.named "member_expression" none 0 9
        [.named "identifier" (some "object") 0 7 [], .token "." none 7 8,
          .named "property_identifier" (some "property") 8 9 []]]]

def levelBuffer : Snapshot :=
  .ofCst "Level log Level".toUTF8 9 <| .named "program" none 0 15
    [.named "variable_declarator" none 0 5 [.named "identifier" (some "name") 0 5 []],
      .named "variable_declarator" none 6 9 [.named "identifier" (some "name") 6 9 []],
      .named "variable_declarator" none 10 15 [.named "identifier" (some "name") 10 15 []]]

/-- Behind `console.l` the method `log` and the name `Level` are offered once each, and only the
method if the limit is one candidate. -/
theorem consoleAccess_first_wins :
    let x : Indexed := ⟨.ofTree (.inner .program ⟨1, 10⟩ "" []) consoleText, none⟩
    let a : Analysis := ⟨0, consoleText, x, .ofCst consoleText.toUTF8 9 consoleAccess, [], 1⟩
    let c : Context := ⟨.property, "console", "identifier", "l", ⟨0, 9⟩⟩
    let raw := c.fitting x ++ levelBuffer.declared
    let offered : List Candidate :=
      [⟨"log", .method, "console"⟩, ⟨"Level", .variable, "buffer"⟩]
    c.kind ≠ .nothing ∧ a.indexed = x ∧ Context.ofCursor a.snapshot ⟨0, 9⟩ = c ∧
    Candidate.chosen "l" raw = offered ∧
    c.candidates x (some levelBuffer) = offered ∧ (offered.map Candidate.label).Nodup ∧
    offered = (Candidate.distinct [] raw).filter (·.continues "l") ∧
    offered = Candidate.distinct [] (raw.filter (·.continues "l")) ∧
    a.complete ⟨0, 9⟩ (some levelBuffer) = (c, [⟨"log", .method, "console"⟩]) := by
  intro x a c raw offered
  have hkind : c.kind ≠ .nothing := by decide
  have hcontext : Context.ofCursor a.snapshot ⟨0, 9⟩ = c := by decide +kernel
  have hchosen : Candidate.chosen "l" raw = offered := by decide +kernel
  obtain ⟨hoffered, hlabels, hbefore, hafter, hcomplete⟩ :=
    c.candidates_first_wins hkind x (some levelBuffer)
  have hall : c.candidates x (some levelBuffer) = offered := hoffered.trans hchosen
  rw [hall] at hlabels hbefore hafter hcomplete
  exact ⟨hkind, rfl, hcontext, hchosen, hall, hlabels, hbefore, hafter,
    hcomplete a ⟨0, 9⟩ rfl hcontext⟩

end ScriptLens
