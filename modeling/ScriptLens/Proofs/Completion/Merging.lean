import Mathlib.Data.Char
import Mathlib.Data.List.Induction
import Mathlib.Data.List.Lex
import Mathlib.Data.List.Nodup
import Mathlib.Data.Prod.Lex
import ScriptLens.Completion.Rank

/-! # Merged candidates

Of all candidates with one label a merge keeps the first of those that are trusted most. Which
ones it keeps does not depend on how candidates of different sources are mixed, as no two sources
are trusted the same. What is kept has distinct labels, so there is only one order in which it is
sorted, and the list of kept candidates is determined by which they are.
-/
namespace ScriptLens

theorem CandidateSource.eq_of_priority {s t : CandidateSource} (h : s.priority = t.priority) :
    s = t := by
  cases s <;> cases t <;> first | rfl | cases h

namespace Ranked

variable {all best : List Ranked} {r x : Ranked}

/-- What merged candidates are sorted by: the source, the label in lower case, the label. -/
def key (r : Ranked) : ℕ ×ₗ List Char ×ₗ List Char :=
  toLex (r.priority, toLex (Text.lowercase r.label.toList, r.label.toList))

theorem isBefore_iff {a b : Ranked} : a.isBefore b = true ↔ a.key ≤ b.key := by
  rw [isBefore, key, key, Prod.Lex.toLex_le_toLex, Prod.Lex.toLex_le_toLex]
  dsimp only
  split
  · next hne => simp only [decide_eq_true_eq, hne, false_and, or_false]
  · next heq =>
    rw [not_not] at heq
    split
    · next hne => simp only [decide_eq_true_eq, heq, lt_irrefl, hne, false_and, or_false, false_or,
        true_and]
    · next hsame =>
      rw [not_not] at hsame
      simp only [Bool.not_eq_true', decide_eq_false_iff_not, not_lt, heq, hsame, lt_irrefl,
        false_or, true_and]

theorem label_eq_of_key {a b : Ranked} (h : a.key = b.key) : a.label = b.label := by
  have hlabel : a.label.toList = b.label.toList :=
    congrArg (fun k => (ofLex (ofLex k).2).2) h
  exact String.toList_inj.mp hlabel

/-! ## The best of each label -/

/-- A candidate stands in a list, where none with its label is trusted more and none that is
trusted as much stands before it. -/
def IsBest (all : List Ranked) (r : Ranked) : Prop :=
  ∃ before after, all = before ++ r :: after ∧
    (∀ o ∈ before, o.label = r.label → r.priority < o.priority) ∧
    ∀ o ∈ after, o.label = r.label → r.priority ≤ o.priority

theorem IsBest.mem (h : IsBest all r) : r ∈ all := by
  obtain ⟨before, after, rfl, _, _⟩ := h
  exact List.mem_append_right _ List.mem_cons_self

theorem isBest_concat : IsBest (all ++ [x]) r ↔
    IsBest all r ∧ (x.label = r.label → r.priority ≤ x.priority) ∨
      r = x ∧ ∀ o ∈ all, o.label = x.label → x.priority < o.priority := by
  constructor
  · rintro ⟨before, after, hsplit, hbefore, hafter⟩
    rcases List.eq_nil_or_concat after with rfl | ⟨later, last, rfl⟩
    · obtain ⟨rfl, hx⟩ := List.append_inj' hsplit rfl
      obtain rfl := List.singleton_inj.mp hx
      exact .inr ⟨rfl, hbefore⟩
    · rw [List.concat_eq_append, ← List.cons_append, ← List.append_assoc] at hsplit
      obtain ⟨rfl, hx⟩ := List.append_inj' hsplit rfl
      obtain rfl := List.singleton_inj.mp hx
      simp only [List.concat_eq_append, List.mem_append, List.mem_singleton] at hafter
      exact .inl ⟨⟨before, later, rfl, hbefore, fun o ho => hafter o (.inl ho)⟩,
        hafter x (.inr rfl)⟩
  · rintro (⟨⟨before, after, rfl, hbefore, hafter⟩, hx⟩ | ⟨rfl, hall⟩)
    · refine ⟨before, after ++ [x], by rw [List.append_assoc, List.cons_append], hbefore, ?_⟩
      intro o ho
      rcases List.mem_append.mp ho with ho | ho
      · exact hafter o ho
      · rw [List.mem_singleton.mp ho]
        exact hx
    · exact ⟨all, [], rfl, hall, fun o ho => by cases ho⟩

theorem isBest_iff_mem (h : (all.map label).Nodup) : IsBest all r ↔ r ∈ all := by
  refine ⟨IsBest.mem, fun hr => ?_⟩
  obtain ⟨before, after, rfl⟩ := List.append_of_mem hr
  rw [List.map_append, List.map_cons, List.nodup_middle, List.nodup_cons, List.mem_append,
    not_or] at h
  refine ⟨before, after, rfl, fun o ho hsame => ?_, fun o ho hsame => ?_⟩
  · exact absurd (hsame ▸ List.mem_map_of_mem ho) h.1.1
  · exact absurd (hsame ▸ List.mem_map_of_mem ho) h.1.2

theorem isBest_iff_source : IsBest all r ↔
    (∀ o ∈ all, o.label = r.label → r.priority ≤ o.priority) ∧
      IsBest (all.filter (·.source = r.source)) r := by
  constructor
  · rintro ⟨before, after, rfl, hbefore, hafter⟩
    refine ⟨?_, before.filter (·.source = r.source), after.filter (·.source = r.source), ?_,
      fun o ho => hbefore o (List.mem_filter.mp ho).1,
      fun o ho => hafter o (List.mem_filter.mp ho).1⟩
    · intro o ho hsame
      rcases List.mem_append.mp ho with ho | ho
      · exact Nat.le_of_lt (hbefore o ho hsame)
      · rcases List.mem_cons.mp ho with rfl | ho
        · exact Nat.le_refl _
        · exact hafter o ho hsame
    · rw [List.filter_append, List.filter_cons_of_pos]
      exact decide_eq_true rfl
  · rintro ⟨hleast, first, rest, hsplit, hfirst, _⟩
    obtain ⟨l, m, rfl, rfl, hm⟩ := List.filter_eq_append_iff.mp hsplit
    obtain ⟨l', m', rfl, hl', _, _⟩ := List.filter_eq_cons_iff.mp hm
    refine ⟨l ++ l', m', List.append_assoc .. ▸ rfl, ?_, fun o ho => hleast o (by simp [ho])⟩
    intro o ho hsame
    have hle := hleast o (by simp only [List.mem_append] at ho ⊢; tauto) hsame
    refine Nat.lt_of_le_of_ne hle fun heq => ?_
    have hsource := CandidateSource.eq_of_priority heq
    rcases List.mem_append.mp ho with ho | ho
    · have hlt := hfirst o (List.mem_filter.mpr ⟨ho, decide_eq_true hsource.symm⟩) hsame
      omega
    · exact hl' o ho (decide_eq_true hsource.symm)

/-! ## Collecting -/

theorem map_label_place (r : Ranked) (best : List Ranked) :
    r.label ∈ best.map label ∧ (r.place best).map label = best.map label ∨
      r.label ∉ best.map label ∧ (r.place best).map label = best.map label ++ [r.label] := by
  induction best with
  | nil => exact .inr ⟨List.not_mem_nil, rfl⟩
  | cons b rest ih =>
    rw [place]
    split
    · next hsame =>
      refine .inl ⟨hsame.symm ▸ List.mem_cons_self, ?_⟩
      rw [List.map_cons, List.map_cons]
      split
      · rfl
      · rw [hsame]
    · next hne =>
      rw [List.map_cons, List.map_cons, List.mem_cons, or_iff_right (Ne.symm hne)]
      rcases ih with ⟨hmem, heq⟩ | ⟨hmem, heq⟩
      · exact .inl ⟨hmem, by rw [heq]⟩
      · exact .inr ⟨hmem, by rw [heq, List.cons_append]⟩

theorem exists_mem_place (h : x = r ∨ x ∈ best) :
    ∃ b ∈ r.place best, b.label = x.label ∧ b.priority ≤ x.priority := by
  induction best with
  | nil =>
    rcases h with rfl | h
    · exact ⟨x, List.mem_cons_self, rfl, Nat.le_refl _⟩
    · cases h
  | cons b rest ih =>
    rw [List.mem_cons, ← or_assoc, or_comm (a := x = r), or_assoc] at h
    rw [place]
    split
    · next hsame =>
      rcases h with rfl | rfl | h
      · refine ⟨_, List.mem_cons_self, ?_, ?_⟩ <;> split
        exacts [rfl, hsame.symm, Nat.le_refl _, by omega]
      · refine ⟨_, List.mem_cons_self, ?_, ?_⟩ <;> split
        exacts [hsame, rfl, by assumption, Nat.le_refl _]
      · exact ⟨x, List.mem_cons_of_mem _ h, rfl, Nat.le_refl _⟩
    · rcases h with rfl | h
      · exact ⟨x, List.mem_cons_self, rfl, Nat.le_refl _⟩
      · obtain ⟨d, hd, hlabel, hle⟩ := ih h
        exact ⟨d, List.mem_cons_of_mem _ hd, hlabel, hle⟩

theorem mem_place_iff (h : (best.map label).Nodup) : x ∈ r.place best ↔
    x ∈ best ∧ (r.label = x.label → x.priority ≤ r.priority) ∨
      x = r ∧ ∀ o ∈ best, o.label = r.label → r.priority < o.priority := by
  induction best with
  | nil => simp [place]
  | cons b rest ih =>
    rw [List.map_cons, List.nodup_cons] at h
    obtain ⟨hb, hrest⟩ := h
    rw [place]
    split
    · next hsame =>
      have hother : ∀ o ∈ rest, o.label ≠ r.label := fun o ho heq =>
        hb (hsame.trans heq.symm ▸ List.mem_map_of_mem ho)
      rw [List.mem_cons, List.mem_cons, List.forall_mem_cons]
      split
      · next hle =>
        constructor
        · rintro (rfl | hx)
          · exact .inl ⟨.inl rfl, fun _ => hle⟩
          · exact .inl ⟨.inr hx, fun heq => absurd heq.symm (hother x hx)⟩
        · rintro (⟨hx, _⟩ | ⟨rfl, hlt, _⟩)
          · exact hx
          · exact absurd (hlt hsame) (Nat.not_lt.mpr hle)
      · next hlt =>
        rw [Nat.not_le] at hlt
        constructor
        · rintro (rfl | hx)
          · exact .inr ⟨rfl, fun _ => hlt, fun o ho heq => absurd heq (hother o ho)⟩
          · exact .inl ⟨.inr hx, fun heq => absurd heq.symm (hother x hx)⟩
        · rintro (⟨rfl | hx, hle⟩ | ⟨rfl, _⟩)
          · exact absurd (hle hsame.symm) (Nat.not_le.mpr hlt)
          · exact .inr hx
          · exact .inl rfl
    · next hne =>
      rw [List.mem_cons, ih hrest, List.mem_cons, List.forall_mem_cons]
      constructor
      · rintro (rfl | ⟨hx, hle⟩ | ⟨rfl, hlt⟩)
        · exact .inl ⟨.inl rfl, fun heq => absurd heq.symm hne⟩
        · exact .inl ⟨.inr hx, hle⟩
        · exact .inr ⟨rfl, fun heq => absurd heq hne, hlt⟩
      · rintro (⟨rfl | hx, hle⟩ | ⟨rfl, _, hlt⟩)
        · exact .inl rfl
        · exact .inr (.inl ⟨hx, hle⟩)
        · exact .inr (.inr ⟨rfl, hlt⟩)

/-- A list has the best candidates of another one, each label once. -/
structure Collects (best all : List Ranked) : Prop where
  nodup : (best.map label).Nodup
  mem_iff : ∀ r, r ∈ best ↔ IsBest all r
  covers : ∀ o ∈ all, ∃ b ∈ best, b.label = o.label ∧ b.priority ≤ o.priority

theorem Collects.place (h : Collects best all) (r : Ranked) :
    Collects (r.place best) (all ++ [r]) := by
  have hmem : ∀ x, x ∈ r.place best ↔ IsBest (all ++ [r]) x := by
    intro x
    have hlower : (∀ o ∈ best, o.label = r.label → r.priority < o.priority) ↔
        ∀ o ∈ all, o.label = r.label → r.priority < o.priority := by
      constructor
      · intro hbest o ho hsame
        obtain ⟨b, hb, hlabel, hle⟩ := h.covers o ho
        exact Nat.lt_of_lt_of_le (hbest b hb (hlabel.trans hsame)) hle
      · exact fun hall o ho => hall o ((h.mem_iff o).mp ho).mem
    rw [mem_place_iff h.nodup, isBest_concat, h.mem_iff, hlower]
  refine ⟨?_, hmem, ?_⟩
  · rcases map_label_place r best with ⟨_, heq⟩ | ⟨hnew, heq⟩
    · rw [heq]
      exact h.nodup
    · rw [heq, ← List.concat_eq_append]
      exact (List.nodup_concat _ _).mpr ⟨hnew, h.nodup⟩
  · intro o ho
    rcases List.mem_append.mp ho with ho | ho
    · obtain ⟨b, hb, hlabel, hle⟩ := h.covers o ho
      obtain ⟨d, hd, hlabel', hle'⟩ := exists_mem_place (.inr hb)
      exact ⟨d, hd, hlabel'.trans hlabel, Nat.le_trans hle' hle⟩
    · exact exists_mem_place (.inl (List.mem_singleton.mp ho))

theorem collects_foldl (all : List Ranked) :
    Collects (all.foldl (fun best r => r.place best) []) all := by
  induction all using List.reverseRecOn with
  | nil =>
    refine ⟨List.nodup_nil, fun r => ?_, fun o ho => by cases ho⟩
    exact iff_of_false List.not_mem_nil fun hr => List.not_mem_nil hr.mem
  | append_singleton all r ih =>
    rw [List.foldl_append]
    exact ih.place r

/-! ## Sorting -/

theorem perm_merge (sources : List (CandidateSource × List Candidate)) :
    (merge sources).Perm ((ofSources sources).foldl (fun best r => r.place best) []) :=
  List.mergeSort_perm _ _

theorem mem_merge_iff {sources : List (CandidateSource × List Candidate)} :
    r ∈ merge sources ↔ IsBest (ofSources sources) r :=
  (perm_merge sources).mem_iff.trans ((collects_foldl _).mem_iff r)

theorem nodup_map_label_merge (sources : List (CandidateSource × List Candidate)) :
    ((merge sources).map label).Nodup :=
  ((perm_merge sources).map label).nodup_iff.mpr (collects_foldl _).nodup

theorem pairwise_mergeSort {rs : List Ranked} (h : (rs.map label).Nodup) :
    (rs.mergeSort isBefore).Pairwise fun a b => a.key < b.key := by
  have hsorted : (rs.mergeSort isBefore).Pairwise fun a b => a.isBefore b = true := by
    apply List.pairwise_mergeSort
    · intro a b c hab hbc
      exact isBefore_iff.mpr (le_trans (isBefore_iff.mp hab) (isBefore_iff.mp hbc))
    · intro a b
      rw [Bool.or_eq_true, isBefore_iff, isBefore_iff]
      exact le_total _ _
  have hlabels : (rs.mergeSort isBefore).Pairwise fun a b => a.label ≠ b.label :=
    List.pairwise_map.mp (((List.mergeSort_perm rs _).map label).nodup_iff.mpr h)
  refine (hsorted.and hlabels).imp fun ⟨hle, hne⟩ => ?_
  exact lt_of_le_of_ne (isBefore_iff.mp hle) fun heq => hne (label_eq_of_key heq)

theorem pairwise_merge (sources : List (CandidateSource × List Candidate)) :
    (merge sources).Pairwise fun a b => a.key < b.key :=
  pairwise_mergeSort (collects_foldl _).nodup

theorem eq_of_pairwise {rs ss : List Ranked} (hr : rs.Pairwise fun a b => a.key < b.key)
    (hs : ss.Pairwise fun a b => a.key < b.key) (h : ∀ x, x ∈ rs ↔ x ∈ ss) : rs = ss := by
  have hnodup : ∀ {ts : List Ranked}, ts.Pairwise (fun a b => a.key < b.key) → ts.Nodup :=
    fun ht => ht.imp fun hlt heq => absurd (congrArg key heq) (ne_of_lt hlt)
  refine List.Perm.eq_of_pairwise (fun a b _ _ hab hba => ?_) hr hs
    ((List.perm_ext_iff_of_nodup (hnodup hr) (hnodup hs)).mpr h)
  exact absurd hab (lt_asymm hba)

/-! ## Other lists of the same candidates -/

theorem filter_ofSources (sources : List (CandidateSource × List Candidate))
    (s : CandidateSource) :
    (ofSources sources).filter (·.source = s) = ofSources (sources.filter (·.1 = s)) := by
  induction sources with
  | nil => rfl
  | cons pair rest ih =>
    have hcons : ∀ rest, ofSources (pair :: rest) = pair.2.map (⟨·, pair.1⟩) ++ ofSources rest :=
      fun rest => List.flatMap_cons
    rw [hcons, List.filter_append, ih, List.filter_map]
    by_cases hs : pair.1 = s
    · rw [List.filter_cons_of_pos (by simpa using hs), hcons]
      congr 1
      simp [Function.comp_def, hs]
    · rw [List.filter_cons_of_neg (by simpa using hs)]
      simp [Function.comp_def, hs]

/-- Lists in which the candidates of each source come in the same order have the same best
candidates. -/
theorem isBest_congr {others : List Ranked}
    (h : ∀ s : CandidateSource, all.filter (·.source = s) = others.filter (·.source = s)) :
    IsBest all r ↔ IsBest others r := by
  have hmem : ∀ o, o ∈ all ↔ o ∈ others := by
    intro o
    have hsource := congrArg (o ∈ ·) (h o.source)
    simpa using hsource
  rw [isBest_iff_source, h r.source, @isBest_iff_source others]
  simp only [hmem]

def bySource (rs : List Ranked) : List (CandidateSource × List Candidate) :=
  [CandidateSource.analysis, .alias, .runtime].map fun s =>
    (s, (rs.filter (·.source = s)).map candidate)

theorem ofSources_bySource_perm (rs : List Ranked) : (ofSources (bySource rs)).Perm rs := by
  have hback : ∀ s : CandidateSource,
      ((rs.filter (·.source = s)).map candidate).map (⟨·, s⟩) = rs.filter (·.source = s) := by
    intro s
    rw [List.map_map]
    conv_rhs => rw [← List.map_id (rs.filter (·.source = s))]
    refine List.map_congr_left fun r hr => ?_
    have hs : r.source = s := by simpa using (List.mem_filter.mp hr).2
    rw [← hs]
    rfl
  have hlists : ofSources (bySource rs) = rs.filter (·.source = .analysis) ++
      (rs.filter (·.source = .alias) ++ rs.filter (·.source = .runtime)) := by
    simp only [ofSources, bySource, List.map_cons, List.map_nil, List.flatMap_cons,
      List.flatMap_nil, List.append_nil, hback]
  rw [hlists]
  clear hback hlists
  induction rs with
  | nil => exact List.Perm.nil
  | cons r rest ih =>
    obtain ⟨c, s⟩ := r
    rcases s with _ | _ | _
    · simpa using ih
    · simpa using List.perm_middle.trans (ih.cons _)
    · have hmiddle := @List.perm_middle _ (⟨c, .runtime⟩ : Ranked)
        (rest.filter (·.source = .analysis) ++ rest.filter (·.source = .alias))
        (rest.filter (·.source = .runtime))
      rw [List.append_assoc, List.append_assoc] at hmiddle
      simpa using hmiddle.trans (ih.cons _)

end Ranked

/-- A merge has every label of its sources once, with the first of the candidates that are trusted
most, strictly sorted by source, label in lower case and label. The order in which the collected
candidates are handed over for sorting makes no difference, nor does the order of lists from
different sources, and merging what has been merged changes nothing. -/
theorem Ranked.merge_ranks (sources : List (CandidateSource × List Candidate)) :
    let all := ofSources sources
    let merged := merge sources
    (∀ l, (merged.map label).count l = if l ∈ all.map label then 1 else 0) ∧
    (∀ r, r ∈ merged ↔ ∃ before after, all = before ++ r :: after ∧
      (∀ o ∈ before, o.label = r.label → r.priority < o.priority) ∧
      ∀ o ∈ after, o.label = r.label → r.priority ≤ o.priority) ∧
    (merged.Pairwise fun a b => a.key < b.key) ∧
    (∀ collected : List Ranked,
      collected.Perm (all.foldl (fun best r => r.place best) []) →
        collected.mergeSort isBefore = merged) ∧
    (∀ others : List (CandidateSource × List Candidate),
      (∀ s : CandidateSource, others.filter (·.1 = s) = sources.filter (·.1 = s)) →
        merge others = merged) ∧
    (∀ regrouped : List (CandidateSource × List Candidate),
      (ofSources regrouped).Perm merged → merge regrouped = merged) ∧
    merge (bySource merged) = merged := by
  intro all merged
  have hagain : ∀ regrouped : List (CandidateSource × List Candidate),
      (ofSources regrouped).Perm merged → merge regrouped = merged := by
    intro regrouped hperm
    refine eq_of_pairwise (pairwise_merge _) (pairwise_merge _) fun r => ?_
    rw [mem_merge_iff, isBest_iff_mem, hperm.mem_iff]
    exact (hperm.map label).nodup_iff.mpr (nodup_map_label_merge sources)
  refine ⟨?_, fun r => mem_merge_iff, pairwise_merge sources, ?_, ?_, hagain,
    hagain _ (ofSources_bySource_perm merged)⟩
  · intro l
    have hmem : l ∈ merged.map label ↔ l ∈ all.map label := by
      constructor
      · intro hl
        obtain ⟨r, hr, rfl⟩ := List.mem_map.mp hl
        exact List.mem_map_of_mem (mem_merge_iff.mp hr).mem
      · intro hl
        obtain ⟨o, ho, rfl⟩ := List.mem_map.mp hl
        obtain ⟨b, hb, hlabel, _⟩ := (collects_foldl all).covers o ho
        exact hlabel ▸ List.mem_map_of_mem ((perm_merge sources).mem_iff.mpr hb)
    rw [(nodup_map_label_merge sources).count]
    exact if_congr hmem rfl rfl
  · intro collected hperm
    have hlabels := (hperm.map label).nodup_iff.mpr (collects_foldl all).nodup
    refine eq_of_pairwise (pairwise_mergeSort hlabels) (pairwise_merge sources) fun r => ?_
    rw [List.mem_mergeSort, hperm.mem_iff, (perm_merge sources).mem_iff]
  · intro others hsame
    refine eq_of_pairwise (pairwise_merge _) (pairwise_merge _) fun r => ?_
    rw [mem_merge_iff, mem_merge_iff]
    exact isBest_congr fun s => by rw [filter_ofSources, filter_ofSources, hsame]

/-- Candidates of two sources in three lists. Four labels are `k` in lower case, the Kelvin sign
among them. -/
def mixedSources : List (CandidateSource × List Candidate) :=
  [(.runtime, [⟨"k", .variable, "runtime"⟩, ⟨"\u212a", .variable, "runtime"⟩]),
    (.analysis, [⟨"x", .variable, "let"⟩, ⟨"k", .function, "first"⟩, ⟨"k", .variable, "second"⟩]),
    (.runtime, [⟨"K", .variable, "runtime"⟩, ⟨"x", .method, "runtime"⟩])]

def sortedSources : List (CandidateSource × List Candidate) :=
  [(.analysis, [⟨"x", .variable, "let"⟩, ⟨"k", .function, "first"⟩, ⟨"k", .variable, "second"⟩]),
    (.runtime, [⟨"k", .variable, "runtime"⟩, ⟨"\u212a", .variable, "runtime"⟩]),
    (.runtime, [⟨"K", .variable, "runtime"⟩, ⟨"x", .method, "runtime"⟩])]

/-- The merge keeps the first `k` of the analysis and neither the one of the other source nor its
`x`, in whatever order the lists and what is collected from them come. -/
theorem mixedSources_merge_ranks :
    let merged : List Ranked :=
      [⟨⟨"k", .function, "first"⟩, .analysis⟩, ⟨⟨"x", .variable, "let"⟩, .analysis⟩,
        ⟨⟨"K", .variable, "runtime"⟩, .runtime⟩, ⟨⟨"\u212a", .variable, "runtime"⟩, .runtime⟩]
    (∀ s : CandidateSource, sortedSources.filter (·.1 = s) = mixedSources.filter (·.1 = s)) ∧
    merged.Perm ((Ranked.ofSources mixedSources).foldl (fun best r => r.place best) []) ∧
    (Ranked.ofSources (Ranked.bySource merged)).Perm merged ∧
    Ranked.merge mixedSources = merged ∧ Ranked.merge sortedSources = merged ∧
    merged.mergeSort Ranked.isBefore = merged ∧
    Ranked.merge (Ranked.bySource merged) = merged ∧
    ((Ranked.merge mixedSources).map Ranked.label).count "k" = 1 := by
  intro merged
  have hsame : ∀ s : CandidateSource,
      sortedSources.filter (·.1 = s) = mixedSources.filter (·.1 = s) := by
    intro s
    cases s <;> decide
  have hcollected : merged.Perm
      ((Ranked.ofSources mixedSources).foldl (fun best r => r.place best) []) := by
    decide +kernel
  have hsorted : merged.Pairwise fun a b => a.key < b.key := by decide +kernel
  obtain ⟨hcount, _, hstrict, hperm, hothers, hregrouped, _⟩ := Ranked.merge_ranks mixedSources
  have hmerged : Ranked.merge mixedSources = merged :=
    Ranked.eq_of_pairwise hstrict hsorted fun r =>
      ((Ranked.perm_merge mixedSources).trans hcollected.symm).mem_iff
  rw [hmerged] at hperm hothers hregrouped
  have hback := Ranked.ofSources_bySource_perm merged
  refine ⟨hsame, hcollected, hback, hmerged, hothers _ hsame, hperm _ hcollected,
    hregrouped _ hback, (hcount "k").trans ?_⟩
  decide +kernel

end ScriptLens
