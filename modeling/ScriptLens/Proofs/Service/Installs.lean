import ScriptLens.Proofs.Service.Changes

/-! # Late results are never installed

A document changes its analysis only for one with a greater number, and the task of an edit
ends with success just if its analysis was taken.
-/
namespace ScriptLens

theorem History.Consistent.sequence_built {config : Config} {h : History}
    (hc : h.Consistent config) {i : Nat} {t : Task} {b : Analysis}
    (ht : h.service.tasks[i]? = some t) (hstage : t.stage = .built b) :
    b.sequence = t.sequence := by
  obtain ⟨script, _, hfits⟩ := hc.task ht
  rw [hstage] at hfits
  have hbuilt : b = Analysis.build config t.sequence script := hfits
  rw [hbuilt]
  rfl

namespace History

/-- Nothing that a history remembers is forgotten. -/
theorem script?_act {h : History} {n k : Nat} {script : Script} (hs : h.script? n k = some script)
    (a : Action) : (h.act a).script? n k = some script := by
  cases a with
  | openDocument name other =>
    exact Consistent.script?_of_versions (Consistent.versions_push · other) hs
  | update name other =>
    cases hm : h.service.number? name with
    | none => simpa only [script?, act, hm] using hs
    | some m =>
      have hmodify : script? { h with versions := h.versions.modify m (·.push other) } n k =
          some script := Consistent.script?_of_versions (Consistent.versions_modify · m other) hs
      simpa only [script?, act, hm] using hmodify
  | _ => exact hs

theorem script?_run_take {config : Config} {actions : List Action} {n m : Nat} {script : Script}
    (k : Nat) (hs : (run config (actions.take k)).script? n m = some script) :
    (run config actions).script? n m = some script := by
  have hfold : ∀ (rest : List Action) (h : History), h.script? n m = some script →
      (rest.foldl act h).script? n m = some script := by
    intro rest
    induction rest with
    | nil => exact fun _ hs => hs
    | cons a rest ih => exact fun h hs => ih (h.act a) (script?_act hs a)
  rw [run, ← List.take_append_drop k actions, List.foldl_append]
  exact hfold _ _ hs

end History

/-! ## Installs in the course of a run -/

namespace Service

/-- The action after the first `k` gives a document another analysis. -/
def InstallsAt (config : Config) (actions : List Action) (k n : Nat) (b : Analysis) : Prop :=
  ∃ d e, (run config (actions.take k)).documents[n]? = some d ∧
    (run config (actions.take (k + 1))).documents[n]? = some e ∧
    e.current ≠ d.current ∧ e.current = b

variable {config : Config} {actions : List Action}

theorem InstallsAt.exists_applies {k n : Nat} {b : Analysis}
    (hinstalls : InstallsAt config actions k n b) :
    ∃ i t d, t.document = n ∧ t.sequence = b.sequence ∧
      (run config (actions.take k)).Applies (run config (actions.take (k + 1))) i t d b := by
  obtain ⟨d, e, hd, he, hne, rfl⟩ := hinstalls
  obtain ⟨a, hchange⟩ := exists_change config actions k
  obtain ⟨f, hf, _, hcurrent⟩ := hchange.document hd
  rw [he] at hf
  cases hf
  rcases hcurrent with hsame | ⟨i, t, hn, happlies⟩
  · exact absurd hsame hne
  · have ht := happlies.task
    rw [← History.service_run] at ht
    have hsequence := (History.Consistent.run config _).sequence_built ht happlies.built
    exact ⟨i, t, d, hn, hsequence.symm, happlies⟩

theorem InstallsAt.exists_script {k n : Nat} {b : Analysis}
    (hinstalls : InstallsAt config actions k n b) :
    ∃ script, (History.run config actions).script? n b.sequence = some script ∧
      b = Analysis.build config b.sequence script := by
  obtain ⟨i, t, d, rfl, hsequence, happlies⟩ := hinstalls.exists_applies
  have ht := happlies.task
  rw [← History.service_run] at ht
  obtain ⟨script, hscript, hfits⟩ := (History.Consistent.run config _).task ht
  rw [happlies.built, hsequence] at hfits
  rw [hsequence] at hscript
  exact ⟨script, History.script?_run_take k hscript, hfits⟩

theorem Applies.installsAt {k i : Nat} {t : Task} {d : Document} {b : Analysis}
    (happlies : (run config (actions.take k)).Applies (run config (actions.take (k + 1))) i t d b) :
    InstallsAt config actions k t.document b := by
  refine ⟨d, _, happlies.document, happlies.installed, ?_, rfl⟩
  intro heq
  have hlt := happlies.newer
  rw [← heq] at hlt
  exact Nat.lt_irrefl _ hlt

theorem InstallsAt.sequence_lt {j k n : Nat} {a b : Analysis}
    (hj : InstallsAt config actions j n a) (hk : InstallsAt config actions k n b) (hjk : j < k) :
    a.sequence < b.sequence := by
  obtain ⟨_, e, _, he, _, rfl⟩ := hj
  obtain ⟨i, t, d, rfl, _, happlies⟩ := hk.exists_applies
  obtain ⟨f, hf, _, hle⟩ := document_later hjk he
  rw [happlies.document] at hf
  cases hf
  exact Nat.lt_of_le_of_lt hle happlies.newer

theorem InstallsAt.of_applied {k i : Nat} {t : Task}
    (ht : (run config (actions.take k)).tasks[i]? = some t) (happlied : t.isApplied = true) :
    ∃ j b, InstallsAt config actions j t.document b ∧ b.sequence = t.sequence := by
  induction k generalizing t with
  | zero => simp [run, new] at ht
  | succ k ih =>
    obtain ⟨a, hchange⟩ := exists_change config actions k
    cases hold : (run config (actions.take k)).tasks[i]? with
    | none =>
      rw [hchange.new_task ht hold] at happlied
      cases happlied
    | some u =>
      obtain ⟨t', ht', hdocument, hsequence, _, hcases⟩ := hchange.task hold
      rw [ht] at ht'
      cases ht'
      rcases hcases happlied with hbefore | ⟨d, b, happlies⟩
      · rw [hdocument, hsequence]
        exact ih hold hbefore
      · have hb := happlies.task
        rw [← History.service_run] at hb
        have hbuilt := (History.Consistent.run config _).sequence_built hb happlies.built
        rw [hdocument, hsequence]
        exact ⟨k, b, happlies.installsAt, hbuilt⟩

theorem InstallsAt.applied {k i : Nat} {t : Task} {b : Analysis}
    (hinstalls : InstallsAt config actions k t.document b) (hsequence : b.sequence = t.sequence)
    (ht : (run config actions).tasks[i]? = some t) : t.isApplied = true := by
  obtain ⟨j, u, d, hdocument, hu, happlies⟩ := hinstalls.exists_applies
  have hlater : (run config actions).tasks[j]? = some { u with stage := .finished true } := by
    rcases Nat.le_total (k + 1) actions.length with hle | hle
    · have hend := finished_later hle happlies.applied rfl
      rwa [List.take_length] at hend
    · have happlied := happlies.applied
      rwa [List.take_of_length_le hle] at happlied
  have heq := (numbered_run config actions).unique ht hlater hdocument.symm
    (hsequence.symm.trans hu.symm)
  subst heq
  rw [ht] at hlater
  cases hlater
  rfl

theorem issued_update {s after : Service} (hs : s.Numbered) {name : String} {script : Script}
    (hafter : s.update name script = .ok after) :
    ∃ n, s.number? name = some n ∧ after.issued n = s.issued n ++ [(s.issued n).length + 1] := by
  simp only [update] at hafter
  cases hn : s.number? name with
  | none =>
    rw [hn] at hafter
    cases hafter
  | some n =>
    simp only [hn] at hafter
    cases hd : s.documents[n]? with
    | none =>
      rw [hd] at hafter
      cases hafter
    | some d =>
      rw [hd] at hafter
      cases hafter
      have hlength : (s.issued n).length = d.latest := by
        rw [hs n, List.length_range', latestOf, hd, Option.elim_some]
      refine ⟨n, rfl, ?_⟩
      rw [hlength]
      simp [issued]

/-- Whatever the order of calls and steps, the edits of a document get the numbers from one
on, its analysis is that of the script with its number and has the text of that script, every
install brings such an analysis of a greater number, none is made twice, and the task of an
edit ends with success just if the edit was installed. -/
theorem stale_never_installed (config : Config) (actions : List Action) :
    let h := History.run config actions
    let s := run config actions
    h.service = s ∧
    (∀ n d, s.documents[n]? = some d → s.issued n = List.range' 1 d.latest ∧
      d.current.sequence ≤ d.latest ∧ ∃ script, h.script? n d.current.sequence = some script ∧
        d.current.source = script.source ∧
        d.current = Analysis.build config d.current.sequence script) ∧
    (∀ name script after, s.update name script = .ok after →
      ∃ n, s.number? name = some n ∧ after.issued n = s.issued n ++ [(s.issued n).length + 1]) ∧
    (∀ k n b, InstallsAt config actions k n b →
      ∃ d script, (run config (actions.take k)).documents[n]? = some d ∧
        d.current.sequence < b.sequence ∧ h.script? n b.sequence = some script ∧
        b.source = script.source ∧ b = Analysis.build config b.sequence script) ∧
    (∀ j k n a b, InstallsAt config actions j n a → InstallsAt config actions k n b →
      (j < k → a.sequence < b.sequence) ∧ (a.sequence = b.sequence → j = k)) ∧
    ∀ (i : Nat) (t : Task), s.tasks[i]? = some t → (t.isApplied = true ↔
      ∃ k b, InstallsAt config actions k t.document b ∧ b.sequence = t.sequence) := by
  have hc := History.Consistent.run config actions
  have hservice := History.service_run config actions
  have hnumbered := numbered_run config actions
  refine ⟨hservice, ?_, ?_, ?_, ?_, ?_⟩
  · intro n d hd
    have hissued := hnumbered n
    rw [latestOf, hd, Option.elim_some] at hissued
    rw [← hservice] at hd
    obtain ⟨script, hscript, hbuild⟩ := hc.analyses hd
    have hsource := Analysis.source_of_eq_build hbuild
    exact ⟨hissued, hc.sequence_le hd, script, hscript, hsource, hbuild⟩
  · intro name script after hafter
    exact issued_update hnumbered hafter
  · intro k n b hinstalls
    obtain ⟨script, hscript, hbuild⟩ := hinstalls.exists_script
    have hsource := Analysis.source_of_eq_build hbuild
    obtain ⟨i, t, d, rfl, _, happlies⟩ := hinstalls.exists_applies
    exact ⟨d, script, happlies.document, happlies.newer, hscript, hsource, hbuild⟩
  · intro j k n a b hj hk
    refine ⟨hj.sequence_lt hk, ?_⟩
    intro hsame
    rcases Nat.lt_trichotomy j k with hjk | heq | hkj
    · have hlt := hj.sequence_lt hk hjk
      omega
    · exact heq
    · have hlt := hk.sequence_lt hj hkj
      omega
  · intro i t ht
    constructor
    · intro happlied
      rw [← actions.take_length] at ht
      exact InstallsAt.of_applied ht happlied
    · rintro ⟨k, b, hinstalls, hsequence⟩
      exact hinstalls.applied hsequence ht

end Service

theorem burst_installs_last :
    let actions := burst (.ofName "u") (.ofName "v") (.ofName "w")
    (∃ k b, Service.InstallsAt {} actions k 0 b ∧ b.sequence = 2 ∧ b.source = "w") ∧
      ¬ ∃ k b, Service.InstallsAt {} actions k 0 b ∧ b.sequence = 1 := by
  intro actions
  obtain ⟨htasks, _⟩ := service_burst {} (.ofName "u") (.ofName "v") (.ofName "w")
  obtain ⟨hversions, _⟩ := history_burst {} (.ofName "u") (.ofName "v") (.ofName "w")
  obtain ⟨_, _, _, hnewer, _, happlied⟩ := Service.stale_never_installed {} actions
  have hfirst := happlied 0 ⟨0, 1, .finished false⟩ (by rw [htasks]; rfl)
  have hsecond := happlied 1 ⟨0, 2, .finished true⟩ (by rw [htasks]; rfl)
  obtain ⟨k, b, hinstalls, hsequence⟩ := hsecond.mp rfl
  obtain ⟨_, script, _, _, hscript, hsource, _⟩ := hnewer k 0 b hinstalls
  rw [History.script?, hversions, hsequence] at hscript
  cases hscript
  refine ⟨⟨k, b, hinstalls, hsequence, hsource⟩, ?_⟩
  intro hinstalls
  cases hfirst.mpr hinstalls

end ScriptLens
