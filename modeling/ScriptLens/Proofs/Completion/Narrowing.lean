import ScriptLens.Proofs.Completion.Firsts
import ScriptLens.Proofs.Text.Lowercase

/-! # What typing more leaves

What is typed does not decide which candidates there are, only which of them are offered. So
typing more takes candidates away and brings none, unless the text typed first has another lower
case by itself than at the beginning of the whole. That is so if it ends in a capital sigma that
ends a word, and only then.
-/
namespace ScriptLens

namespace Candidate

theorem exists_mem_distinct {seen : List String} {cs : List Candidate} {c : Candidate}
    (hc : c ∈ cs) (hseen : c.label ∉ seen) : ∃ d ∈ distinct seen cs, d.label = c.label := by
  induction cs generalizing seen with
  | nil => cases hc
  | cons first rest ih =>
    rw [distinct]
    split
    · next hknown =>
      rcases List.mem_cons.mp hc with rfl | hc
      · exact absurd (List.contains_iff_mem.mp hknown) hseen
      · exact ih hc hseen
    · by_cases hlabel : c.label = first.label
      · exact ⟨first, List.mem_cons_self, hlabel.symm⟩
      · have hrest : c ∈ rest := by
          rcases List.mem_cons.mp hc with rfl | hc
          · exact absurd rfl hlabel
          · exact hc
        have hnew : c.label ∉ first.label :: seen := by simp [hlabel, hseen]
        obtain ⟨d, hd, hsame⟩ := ih hrest hnew
        exact ⟨d, List.mem_cons_of_mem _ hd, hsame⟩

theorem continues_iff {typed : String} {c : Candidate} :
    c.continues typed = true ↔
      Text.lowercase typed.toList <+: Text.lowercase c.label.toList :=
  List.isPrefixOf_iff_prefix

theorem continues_empty (c : Candidate) : c.continues "" = true :=
  continues_iff.mpr List.nil_prefix

theorem continues_append {p q : String} {c : Candidate} (hlabel : c.label = p ++ q) :
    c.continues p = true ↔
      ¬ (Text.endsInSigma p.toList = true ∧ Text.meetsCase q.toList = true) := by
  rw [continues_iff, hlabel, String.toList_append, Text.lowercase_prefix_iff]

end Candidate

namespace Snapshot

def declaring (name : String) : Snapshot :=
  .node { (default : SnapshotHead) with kind := "variable_declarator" }
    [.node { (default : SnapshotHead) with kind := "identifier", text := some name } []]

theorem declared_declaring (name : String) :
    (declaring name).declared = [⟨name, .variable, "buffer"⟩] := by
  rfl

end Snapshot

namespace Context

def typing (c : Context) (text : String) : Context := { c with typed := text }

theorem candidates_typing (c : Context) (text : String) (x : Indexed)
    (buffer : Option Snapshot) :
    (c.typing text).candidates x buffer =
      ((c.typing "").candidates x buffer).filter (·.continues text) := by
  have hnothing : ∀ t, (c.typing t).isNothing = c.isNothing := fun _ => rfl
  have hfitting : ∀ t, (c.typing t).fitting x = c.fitting x := fun _ => rfl
  have htyped : ∀ t, (c.typing t).typed = t := fun _ => rfl
  simp only [candidates_eq, hnothing, hfitting, htyped]
  split
  · rfl
  · rw [List.filter_filter]
    exact List.filter_congr fun k _ => by rw [k.continues_empty, Bool.and_true]

theorem exists_candidate (c : Context) (hc : c.isNothing = false) (x : Indexed) (name : String) :
    ∃ k ∈ (c.typing "").candidates x (some (.declaring name)), k.label = name := by
  have hmem : ⟨name, .variable, "buffer"⟩ ∈
      c.fitting x ++ ((some (.declaring name)).map Snapshot.declared).getD [] := by
    rw [Option.map_some, Option.getD_some, Snapshot.declared_declaring]
    exact List.mem_append_right _ List.mem_cons_self
  have hnew : name ∉ ([] : List String) := List.not_mem_nil
  obtain ⟨k, hk, hlabel⟩ := Candidate.exists_mem_distinct hmem hnew
  have hsame : (c.typing "").isNothing = c.isNothing := rfl
  refine ⟨k, ?_, hlabel⟩
  rw [candidates_eq, hsame, hc]
  exact List.mem_filter.mpr ⟨hk, k.continues_empty⟩

end Context

/-- Typing more only narrows what is offered, and a name that starts with the typed text is
offered, exactly if the typed text does not end in a sigma that the rest takes into a word. -/
theorem Context.candidates_narrow_iff (p q : String) :
    ((∀ (c : Context) (x : Indexed) (buffer : Option Snapshot),
        ((c.typing (p ++ q)).candidates x buffer).Sublist
          ((c.typing p).candidates x buffer)) ↔
      ¬ (Text.endsInSigma p.toList = true ∧ Text.meetsCase q.toList = true)) ∧
    ((∀ (c : Context) (x : Indexed) (buffer : Option Snapshot),
        ∀ k ∈ (c.typing "").candidates x buffer, k.label = p ++ q →
          k ∈ (c.typing p).candidates x buffer) ↔
      ¬ (Text.endsInSigma p.toList = true ∧ Text.meetsCase q.toList = true)) := by
  obtain ⟨c₀, hc₀⟩ : ∃ c₀ : Context, c₀.isNothing = false :=
    ⟨⟨.identifier, "", "", "", ⟨0, 0⟩⟩, rfl⟩
  obtain ⟨x₀⟩ : Nonempty Indexed := ⟨⟨.ofTree (.inner .program ⟨1, 1⟩ "" []) "", none⟩⟩
  obtain ⟨k₀, hk₀, hlabel₀⟩ := c₀.exists_candidate hc₀ x₀ (p ++ q)
  constructor
  · constructor
    · intro hnarrow
      have hwhole : k₀ ∈ (c₀.typing (p ++ q)).candidates x₀ (some (.declaring (p ++ q))) := by
        rw [candidates_typing]
        refine List.mem_filter.mpr ⟨hk₀, ?_⟩
        have hsame : Text.lowercase (p ++ q).toList = Text.lowercase k₀.label.toList := by
          rw [hlabel₀]
        exact Candidate.continues_iff.mpr (hsame ▸ List.prefix_rfl)
      have hpart := (hnarrow c₀ x₀ _).subset hwhole
      rw [candidates_typing] at hpart
      exact (Candidate.continues_append hlabel₀).mp (List.mem_filter.mp hpart).2
    · intro hopen c x buffer
      rw [candidates_typing, candidates_typing c p]
      apply List.monotone_filter_right
      intro k hk
      rw [Candidate.continues_iff, String.toList_append] at hk
      exact Candidate.continues_iff.mpr ((Text.lowercase_prefix_iff.mpr hopen).trans hk)
  · constructor
    · intro hoffered
      have hpart := hoffered c₀ x₀ _ k₀ hk₀ hlabel₀
      rw [candidates_typing] at hpart
      exact (Candidate.continues_append hlabel₀).mp (List.mem_filter.mp hpart).2
    · intro hopen c x buffer k hk hlabel
      rw [candidates_typing]
      exact List.mem_filter.mpr ⟨hk, (Candidate.continues_append hlabel).mpr hopen⟩

/-- With the name `ΑΣΑ` in a buffer, `ΑΣ` is not offered it, but `ΑΣΑ` is. -/
theorem sigmaBuffer_not_narrow :
    let c : Context := ⟨.identifier, "", "", "", ⟨0, 0⟩⟩
    let x : Indexed := ⟨.ofTree (.inner .program ⟨1, 1⟩ "" []) "", none⟩
    let buffer := some (Snapshot.declaring "ΑΣΑ")
    "ΑΣΑ" = "ΑΣ" ++ "Α" ∧
    (c.typing "ΑΣΑ").candidates x buffer = [⟨"ΑΣΑ", .variable, "buffer"⟩] ∧
    (c.typing "ΑΣ").candidates x buffer = [] ∧
    ¬ ((c.typing "ΑΣΑ").candidates x buffer).Sublist ((c.typing "ΑΣ").candidates x buffer) := by
  intro c x buffer
  have hwhole : (c.typing "ΑΣΑ").candidates x buffer = [⟨"ΑΣΑ", .variable, "buffer"⟩] := by
    decide +kernel
  have hpart : (c.typing "ΑΣ").candidates x buffer = [] := by decide +kernel
  refine ⟨by decide, hwhole, hpart, ?_⟩
  rw [hwhole, hpart, List.sublist_nil]
  exact List.cons_ne_nil _ _

end ScriptLens
