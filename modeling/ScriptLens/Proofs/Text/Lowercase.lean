import ScriptLens.Text.Lowercase

/-! # Lower case of texts put together

Case rules look at the surroundings of a capital sigma only. So the lower case of a text starts
with the lower case of its beginning, unless the beginning ends in a sigma that ends a word
there, and no longer does when the text goes on.
-/
namespace ScriptLens.Text

def isIgnored (c : Char) : Bool := inRanges ignorableRanges c.toNat

/-- Whether the last character that case rules take note of is a capital sigma behind a
character with a case. -/
def endsInSigma (text : List Char) : Bool :=
  match text.reverse.dropWhile isIgnored with
  | [] => false
  | c :: before => c == capitalSigma && meetsCase before

/-- A text in lower case between two others, the first of which is given backwards. -/
def lowerBetween (before after : List Char) : List Char → List Char
  | [] => []
  | c :: rest =>
    (if c = capitalSigma then
      [if meetsCase before && !meetsCase (rest ++ after) then finalSigma else smallSigma]
    else lowerChar c) ++ lowerBetween (c :: before) after rest

theorem isIgnored_capitalSigma : isIgnored capitalSigma = false := by decide +kernel

theorem meetsCase_cons (c : Char) (text : List Char) :
    meetsCase (c :: text) =
      if isIgnored c then meetsCase text else inRanges casedRanges c.toNat := by
  rw [meetsCase, isIgnored, List.dropWhile_cons]
  cases inRanges ignorableRanges c.toNat <;> rfl

theorem meetsCase_append (p q : List Char) :
    meetsCase (p ++ q) = if p.all isIgnored then meetsCase q else meetsCase p := by
  induction p with
  | nil => rfl
  | cons c p ih =>
    rw [List.cons_append, meetsCase_cons, meetsCase_cons, ih, List.all_cons]
    cases isIgnored c <;> rfl

theorem meetsCase_of_ignored {text : List Char} (h : text.all isIgnored = true) :
    meetsCase text = false := by
  have heq := meetsCase_append text []
  rwa [List.append_nil, if_pos h] at heq

theorem endsInSigma_iff {p : List Char} :
    endsInSigma p = true ↔ ∃ u v, p = u ++ capitalSigma :: v ∧ v.all isIgnored = true ∧
      meetsCase u.reverse = true := by
  constructor
  · intro h
    rw [endsInSigma] at h
    split at h
    · cases h
    · next c before hdrop =>
      rw [Bool.and_eq_true, beq_iff_eq] at h
      obtain ⟨rfl, hbefore⟩ := h
      have hsplit := List.takeWhile_append_dropWhile (p := isIgnored) (l := p.reverse)
      rw [hdrop] at hsplit
      refine ⟨before.reverse, (p.reverse.takeWhile isIgnored).reverse, ?_, ?_, ?_⟩
      · have hrev := congrArg List.reverse hsplit
        rw [List.reverse_reverse, List.reverse_append, List.reverse_cons, List.append_assoc] at hrev
        exact hrev.symm
      · rw [List.all_reverse, List.all_takeWhile]
      · rwa [List.reverse_reverse]
  · rintro ⟨u, v, rfl, hv, hu⟩
    have hdrop : (u ++ capitalSigma :: v).reverse.dropWhile isIgnored =
        capitalSigma :: u.reverse := by
      rw [List.reverse_append, List.reverse_cons, List.append_assoc,
        List.dropWhile_append_of_pos (by simpa using hv)]
      exact List.dropWhile_cons_of_neg (by simp [isIgnored_capitalSigma])
    rw [endsInSigma, hdrop]
    simp [hu]

theorem lowerAfter_append (before p q : List Char) :
    lowerAfter before (p ++ q) =
      lowerBetween before q p ++ lowerAfter (p.reverse ++ before) q := by
  induction p generalizing before with
  | nil => rfl
  | cons c p ih =>
    rw [List.cons_append, lowerAfter, lowerBetween, ih, List.append_assoc, List.reverse_cons,
      List.append_assoc]
    rfl

theorem lowerBetween_nil (before p : List Char) :
    lowerBetween before [] p = lowerAfter before p := by
  have happend := lowerAfter_append before p []
  rw [List.append_nil, lowerAfter, List.append_nil] at happend
  exact happend.symm

theorem length_lowerBetween (before after other p : List Char) :
    (lowerBetween before after p).length = (lowerBetween before other p).length := by
  induction p generalizing before with
  | nil => rfl
  | cons c p ih =>
    rw [lowerBetween, lowerBetween, List.length_append, List.length_append, ih]
    split <;> rfl

/-- What follows a text matters to the sigmas in it that are behind a character with a case. -/
theorem lowerBetween_eq_iff {before q p : List Char} :
    lowerBetween before [] p = lowerBetween before q p ↔
      ∀ u v, p = u ++ capitalSigma :: v → meetsCase (u.reverse ++ before) = true →
        meetsCase (v ++ q) = meetsCase v := by
  induction p generalizing before with
  | nil => simp [lowerBetween]
  | cons c p ih =>
    have hheads : lowerBetween before [] (c :: p) = lowerBetween before q (c :: p) ↔
        (c = capitalSigma → meetsCase before = true → meetsCase (p ++ q) = meetsCase p) ∧
          lowerBetween (c :: before) [] p = lowerBetween (c :: before) q p := by
      have hsigma : finalSigma ≠ smallSigma := by decide
      rw [lowerBetween, lowerBetween, List.append_nil]
      constructor
      · intro h
        obtain ⟨hfirst, hrest⟩ := List.append_inj' h (length_lowerBetween ..)
        refine ⟨fun hc hbefore => ?_, hrest⟩
        rw [if_pos hc, if_pos hc, hbefore, List.singleton_inj] at hfirst
        cases hp : meetsCase p <;> cases hq : meetsCase (p ++ q) <;> simp_all
      · rintro ⟨hfirst, hrest⟩
        rw [hrest]
        congr 1
        by_cases hc : c = capitalSigma
        · rw [if_pos hc, if_pos hc]
          cases hbefore : meetsCase before with
          | false => rfl
          | true => rw [hfirst hc hbefore]
        · rw [if_neg hc, if_neg hc]
    rw [hheads, ih]
    constructor
    · rintro ⟨hfirst, hrest⟩ u v hsplit hu
      cases u with
      | nil =>
        obtain ⟨rfl, rfl⟩ := List.cons.inj hsplit
        exact hfirst rfl hu
      | cons d u =>
        obtain ⟨rfl, rfl⟩ := List.cons.inj hsplit
        exact hrest u v rfl (by simpa using hu)
    · intro h
      refine ⟨fun hc hbefore => h [] p (by rw [hc]; rfl) hbefore, ?_⟩
      intro u v hsplit hu
      exact h (c :: u) v (by rw [hsplit]; rfl) (by simpa using hu)

/-- The lower case of a beginning is a beginning of the lower case, but for a sigma at its end
that the rest takes into a word. -/
theorem lowercase_prefix_iff {p q : List Char} :
    lowercase p <+: lowercase (p ++ q) ↔
      ¬ (endsInSigma p = true ∧ meetsCase q = true) := by
  have hequal : lowercase p <+: lowercase (p ++ q) ↔
      lowerBetween [] [] p = lowerBetween [] q p := by
    rw [lowercase, lowercase, lowerAfter_append, ← lowerBetween_nil]
    constructor
    · intro h
      have hle := List.prefix_append (lowerBetween [] q p) (lowerAfter (p.reverse ++ []) q)
      have hprefix := List.prefix_of_prefix_length_le h hle (Nat.le_of_eq (length_lowerBetween ..))
      exact hprefix.eq_of_length (length_lowerBetween ..)
    · intro h
      rw [h]
      exact List.prefix_append _ _
  rw [hequal, lowerBetween_eq_iff, endsInSigma_iff]
  constructor
  · rintro h ⟨⟨u, v, hsplit, hv, hu⟩, hq⟩
    have hsame := h u v hsplit (by simpa using hu)
    rw [meetsCase_append, if_pos hv, meetsCase_of_ignored hv, hq] at hsame
    cases hsame
  · intro h u v hsplit hu
    rw [meetsCase_append]
    split
    · next hv =>
      rw [meetsCase_of_ignored hv]
      cases hq : meetsCase q with
      | false => rfl
      | true => exact absurd ⟨⟨u, v, hsplit, hv, by simpa using hu⟩, hq⟩ h
    · rfl

end ScriptLens.Text
