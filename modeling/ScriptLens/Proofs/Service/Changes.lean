import Mathlib.Data.List.Induction
import Mathlib.Data.Nat.Init
import ScriptLens.Proofs.Service.Freshness

/-! # What actions change

An action of a service does one of six things, and from these is read off what it can do to
the numbers of edits, to a document and to a task. Along a run, edits are numbered from one
on, documents stay closed and tasks stay finished.
-/
namespace ScriptLens

namespace Service

/-- What an action can do. -/
inductive Change (s : Service) : Action → Service → Prop where
  | idle {a : Action} : Change s a s
  | move {a : Action} {i : Nat} {t : Task} {stage : Stage} (action : a = .advance i ∨ a = .fail i)
      (task : s.tasks[i]? = some t) (unfinished : t.isFinished = false)
      (unapplied : stage ≠ .finished true) : Change s a (s.setStage i stage)
  | install {i : Nat} {t : Task} {d : Document} {b : Analysis} (task : s.tasks[i]? = some t)
      (stage : t.stage = .built b) (document : s.documents[t.document]? = some d)
      (latest : d.isCurrent b.sequence = true) (newer : d.current.sequence < b.sequence) :
      Change s (.advance i) { s.setStage i (.finished true) with
        documents := s.documents.modify t.document fun _ => { d with current := b } }
  | edit {name : String} {n : Nat} {d : Document} (script : Script)
      (number : s.number? name = some n) (document : s.documents[n]? = some d) :
      Change s (.update name script) { s with
        documents := s.documents.modify n fun d => { d with latest := d.latest + 1 }
        tasks := s.tasks.push ⟨n, d.latest + 1, .waiting script⟩ }
  | close (name : String) : Change s (.close name) (s.close name)
  | openDocument (name : String) (script : Script) :
      Change s (.openDocument name script) (s.openDocument name script)

variable {s after : Service} {a : Action}

theorem change_update (s : Service) (name : String) (script : Script) :
    s.Change (.update name script) (s.act (.update name script)) := by
  simp only [act, update]
  cases hn : s.number? name with
  | none => exact .idle
  | some n =>
    cases hd : s.documents[n]? with
    | none =>
      simp only [hd]
      exact .idle
    | some d =>
      simp only [hd]
      exact .edit script hn hd

theorem change_fail (s : Service) (i : Nat) : s.Change (.fail i) (s.fail i) := by
  unfold fail
  split
  · exact .idle
  next t ht =>
    split
    · next hstage => exact .move (.inr rfl) ht (by rw [Task.isFinished, hstage]) (by simp)
    · exact .idle

theorem TaskStep.change {i : Nat} (hstep : s.TaskStep i after) : s.Change (.advance i) after := by
  cases hstep with
  | idle => exact .idle
  | wake ht hstage => exact .move (.inl rfl) ht (by rw [Task.isFinished, hstage]) (by simp)
  | giveUp ht hstage => exact .move (.inl rfl) ht (by rw [Task.isFinished, hstage]) (by simp)
  | build ht hstage => exact .move (.inl rfl) ht (by rw [Task.isFinished, hstage]) (by simp)
  | discard ht hstage => exact .move (.inl rfl) ht (by rw [Task.isFinished, hstage]) (by simp)
  | install ht hstage hd hlatest hnewer => exact .install ht hstage hd hlatest hnewer

end Service

namespace History.Consistent
variable {config : Config} {h : History}

theorem document_lt (hc : h.Consistent config) {i : Nat} {t : Task}
    (ht : h.service.tasks[i]? = some t) : t.document < h.service.documents.size := by
  obtain ⟨script, hscript, _⟩ := hc.task ht
  obtain ⟨vs, hvs, _⟩ := Option.bind_eq_some_iff.mp hscript
  rw [← hc.size_eq]
  exact (Array.getElem?_eq_some_iff.mp hvs).1

theorem change (hc : h.Consistent config) (a : Action) :
    h.service.Change a (h.service.act a) := by
  cases a with
  | openDocument name script => exact .openDocument name script
  | update name script => exact Service.change_update h.service name script
  | close name => exact .close name
  | advance i => exact (Service.taskStep_advance fun _ ht => hc.document_lt ht).change
  | fail i => exact Service.change_fail h.service i

end History.Consistent

namespace Service
variable {s after : Service} {a : Action}

/-! ## The numbers of edits -/

/-- The numbers that the edits of a document were given, in the order of the edits. -/
def issued (s : Service) (n : Nat) : List Nat :=
  (s.tasks.toList.filter (·.document == n)).map Task.sequence

/-- The number of the last edit, of documents that do not exist as well. -/
def latestOf (s : Service) (n : Nat) : Nat := (s.documents[n]?).elim 0 Document.latest

def Numbered (s : Service) : Prop := ∀ n, s.issued n = List.range' 1 (s.latestOf n)

theorem filter_map_modify {α β : Type} (xs : List α) (i : Nat) {f : α → α} {p : α → Bool}
    {g : α → β} (hp : ∀ a, p (f a) = p a) (hg : ∀ a, g (f a) = g a) :
    ((xs.modify i f).filter p).map g = (xs.filter p).map g := by
  induction xs generalizing i with
  | nil => simp
  | cons a rest ih =>
    cases i with
    | zero =>
      rw [List.modify_zero_cons, List.filter_cons, List.filter_cons, hp]
      split <;> simp [hg]
    | succ i =>
      rw [List.modify_succ_cons, List.filter_cons, List.filter_cons]
      split <;> simp [ih]

theorem issued_setStage (s : Service) (i : Nat) (stage : Stage) (n : Nat) :
    (s.setStage i stage).issued n = s.issued n := by
  rw [issued, setStage, Array.toList_modify]
  exact filter_map_modify _ i (fun _ => rfl) (fun _ => rfl)

theorem elim_markClosed (s : Service) (name : String) (n : Nat) :
    ((s.markClosed name)[n]?).elim 0 Document.latest = s.latestOf n := by
  rw [latestOf, getElem?_markClosed]
  cases s.documents[n]? with
  | none => rfl
  | some d =>
    rw [Option.map_some, Option.elim_some, Option.elim_some]
    split <;> rfl

theorem Change.numbered (hs : s.Numbered) (hchange : s.Change a after) : after.Numbered := by
  intro n
  cases hchange with
  | idle => exact hs n
  | move => exact (issued_setStage ..).trans (hs n)
  | @install i t d b _ _ hd =>
    have hlatest : latestOf { s.setStage i (.finished true) with
        documents := s.documents.modify t.document fun _ => { d with current := b } } n =
        s.latestOf n := by
      simp only [latestOf, Array.getElem?_modify]
      split
      · next heq => rw [← heq, hd, Option.map_some, Option.elim_some, Option.elim_some]
      · rfl
    rw [hlatest, ← hs n]
    exact issued_setStage ..
  | @edit name m d script _ hd =>
    have hold := hs n
    simp only [issued, latestOf, Array.toList_push, List.filter_append, List.map_append,
      Array.getElem?_modify] at hold ⊢
    rw [hold]
    by_cases hmn : m = n
    · subst hmn
      simp [hd, List.range'_concat, Nat.add_comm]
    · simp [hmn]
  | close name =>
    have hlatest : (s.close name).latestOf n = s.latestOf n := s.elim_markClosed name n
    rw [hlatest]
    exact hs n
  | openDocument name script =>
    have hlatest : (s.openDocument name script).latestOf n = s.latestOf n := by
      simp only [latestOf, Service.openDocument, Array.getElem?_push, size_markClosed]
      split
      · next heq => simp [heq, Document.ofAnalysis, Analysis.build]
      · exact s.elim_markClosed name n
    rw [hlatest]
    exact hs n

theorem Numbered.bounds (hs : s.Numbered) {i : Nat} {t : Task} (ht : s.tasks[i]? = some t) :
    1 ≤ t.sequence ∧ t.sequence ≤ s.latestOf t.document := by
  have hmem : t.sequence ∈ s.issued t.document := by
    refine List.mem_map_of_mem (List.mem_filter.mpr ⟨?_, by simp⟩)
    exact Array.mem_toList_iff.mpr (Array.mem_of_getElem? ht)
  rw [hs, List.mem_range'_1] at hmem
  omega

theorem Numbered.unique (hs : s.Numbered) {i j : Nat} {t u : Task} (ht : s.tasks[i]? = some t)
    (hu : s.tasks[j]? = some u) (hdocument : t.document = u.document)
    (hsequence : t.sequence = u.sequence) : i = j := by
  have hnodup : (s.issued t.document).Pairwise (· ≠ ·) := by
    rw [hs]
    exact List.nodup_range'
  rw [issued, List.pairwise_map, List.pairwise_filter, List.pairwise_iff_getElem] at hnodup
  rw [← Array.getElem?_toList] at ht hu
  obtain ⟨hi, ht⟩ := List.getElem?_eq_some_iff.mp ht
  obtain ⟨hj, hu⟩ := List.getElem?_eq_some_iff.mp hu
  rcases Nat.lt_trichotomy i j with hlt | heq | hgt
  · have hne := hnodup i j hi hj hlt
    simp [ht, hu, hdocument, hsequence] at hne
  · exact heq
  · have hne := hnodup j i hj hi hgt
    simp [ht, hu, hdocument, hsequence] at hne

/-! ## Documents and tasks under one action -/

/-- A task has put its analysis in the place of that of its document. -/
structure Applies (s after : Service) (i : Nat) (t : Task) (d : Document) (b : Analysis) :
    Prop where
  task : s.tasks[i]? = some t
  built : t.stage = .built b
  document : s.documents[t.document]? = some d
  latest : d.isCurrent b.sequence = true
  newer : d.current.sequence < b.sequence
  applied : after.tasks[i]? = some { t with stage := .finished true }
  installed : after.documents[t.document]? = some { d with current := b }

theorem Change.document {n : Nat} {d : Document} (hchange : s.Change a after)
    (hd : s.documents[n]? = some d) :
    ∃ e, after.documents[n]? = some e ∧ (d.isClosed = true → e.isClosed = true) ∧
      (e.current = d.current ∨ ∃ i t, t.document = n ∧ s.Applies after i t d e.current) := by
  cases hchange with
  | idle => exact ⟨d, hd, id, .inl rfl⟩
  | move => exact ⟨d, hd, id, .inl rfl⟩
  | @install i t e b ht hstage he hlatest hnewer =>
    by_cases hn : t.document = n
    · subst hn
      rw [hd] at he
      cases he
      have hinstalled :
          (s.documents.modify t.document fun _ => { d with current := b })[t.document]? =
            some { d with current := b } := by
        rw [Array.getElem?_modify, if_pos rfl, hd, Option.map_some]
      refine ⟨_, hinstalled, id, .inr ⟨i, t, rfl, ht, hstage, hd, hlatest, hnewer, ?_, hinstalled⟩⟩
      exact (getElem?_setStage ..).trans (by rw [if_pos rfl, ht, Option.map_some])
    · refine ⟨d, ?_, id, .inl rfl⟩
      rw [Array.getElem?_modify, if_neg hn, hd]
  | @edit _ m _ _ _ _ =>
    refine ⟨if m = n then { d with latest := d.latest + 1 } else d, ?_, ?_, .inl ?_⟩
    · rw [Array.getElem?_modify, hd]
      split <;> rfl
    · split <;> exact id
    · split <;> rfl
  | close name =>
    refine ⟨_, (getElem?_markClosed s name n).trans (by rw [hd, Option.map_some]), ?_, .inl ?_⟩
    · split
      · exact fun _ => rfl
      · exact id
    · split <;> rfl
  | openDocument name script =>
    have hclosed := (getElem?_markClosed s name n).trans (by rw [hd, Option.map_some])
    refine ⟨_, getElem?_push_of_some hclosed _, ?_, .inl ?_⟩
    · split
      · exact fun _ => rfl
      · exact id
    · split <;> rfl

theorem Change.task {i : Nat} {t : Task} (hchange : s.Change a after)
    (ht : s.tasks[i]? = some t) :
    ∃ u, after.tasks[i]? = some u ∧ u.document = t.document ∧ u.sequence = t.sequence ∧
      (t.isFinished = true → u = t) ∧
      (u.isApplied = true → t.isApplied = true ∨ ∃ d b, s.Applies after i t d b) := by
  cases hchange with
  | idle => exact ⟨t, ht, rfl, rfl, fun _ => rfl, .inl⟩
  | @move _ j u stage _ hu hunfinished hunapplied =>
    by_cases hij : j = i
    · subst hij
      rw [ht] at hu
      cases hu
      refine ⟨{ t with stage := stage }, ?_, rfl, rfl, ?_, ?_⟩
      · rw [getElem?_setStage, if_pos rfl, ht, Option.map_some]
      · intro hfinished
        rw [hunfinished] at hfinished
        cases hfinished
      · intro happlied
        cases stage with
        | finished applied => exact absurd (congrArg Stage.finished happlied) hunapplied
        | _ => cases happlied
    · exact ⟨t, by rw [getElem?_setStage, if_neg hij, ht], rfl, rfl, fun _ => rfl, .inl⟩
  | @install j u d b hu hstage hd hlatest hnewer =>
    by_cases hij : j = i
    · subst hij
      rw [ht] at hu
      cases hu
      have happlied : (s.setStage j (.finished true)).tasks[j]? =
          some { t with stage := .finished true } := by
        rw [getElem?_setStage, if_pos rfl, ht, Option.map_some]
      refine ⟨_, happlied, rfl, rfl, ?_,
        fun _ => .inr ⟨d, b, ht, hstage, hd, hlatest, hnewer, happlied, ?_⟩⟩
      · intro hfinished
        rw [Task.isFinished, hstage] at hfinished
        cases hfinished
      · rw [Array.getElem?_modify, if_pos rfl, hd, Option.map_some]
    · refine ⟨t, ?_, rfl, rfl, fun _ => rfl, .inl⟩
      exact (getElem?_setStage ..).trans (by rw [if_neg hij, ht])
  | edit => exact ⟨t, getElem?_push_of_some ht _, rfl, rfl, fun _ => rfl, .inl⟩
  | close => exact ⟨t, ht, rfl, rfl, fun _ => rfl, .inl⟩
  | openDocument => exact ⟨t, ht, rfl, rfl, fun _ => rfl, .inl⟩

theorem Change.new_task {i : Nat} {u : Task} (hchange : s.Change a after)
    (hu : after.tasks[i]? = some u) (hnew : s.tasks[i]? = none) : u.isApplied = false := by
  cases hchange with
  | move | install =>
    have hold := (getElem?_setStage ..).symm.trans hu
    simp [hnew] at hold
  | edit =>
    rw [Array.getElem?_push, hnew] at hu
    split at hu
    · cases hu
      rfl
    · cases hu
  | _ =>
    have hold := hnew.symm.trans hu
    cases hold

/-! ## Runs -/

variable {config : Config} {actions : List Action}

theorem run_concat (config : Config) (actions : List Action) (a : Action) :
    run config (actions ++ [a]) = (run config actions).act a := by
  rw [run, List.foldl_append]
  rfl

theorem change_run (config : Config) (actions : List Action) (a : Action) :
    (run config actions).Change a (run config (actions ++ [a])) := by
  rw [run_concat, ← History.service_run]
  exact (History.Consistent.run config actions).change a

theorem exists_change (config : Config) (actions : List Action) (k : Nat) :
    ∃ a, (run config (actions.take k)).Change a (run config (actions.take (k + 1))) := by
  by_cases hk : k < actions.length
  · rw [← List.take_append_getElem hk]
    exact ⟨_, change_run config _ _⟩
  · have hall : actions.length ≤ k := Nat.le_of_not_lt hk
    rw [List.take_of_length_le hall, List.take_of_length_le (Nat.le_succ_of_le hall)]
    exact ⟨.advance 0, .idle⟩

theorem numbered_run (config : Config) (actions : List Action) :
    (run config actions).Numbered := by
  induction actions using List.reverseRecOn with
  | nil =>
    intro n
    simp [run, new, issued, latestOf]
  | append_singleton before a ih => exact (change_run config before a).numbered ih

theorem document_later {j k n : Nat} {d : Document} (hjk : j ≤ k)
    (hd : (run config (actions.take j)).documents[n]? = some d) :
    ∃ e, (run config (actions.take k)).documents[n]? = some e ∧
      (d.isClosed = true → e.isClosed = true) ∧ d.current.sequence ≤ e.current.sequence := by
  induction k, hjk using Nat.le_induction with
  | base => exact ⟨d, hd, id, Nat.le_refl _⟩
  | succ k _ ih =>
    obtain ⟨e, he, hclosed, hle⟩ := ih
    obtain ⟨a, hchange⟩ := exists_change config actions k
    obtain ⟨f, hf, hclosed', hcurrent⟩ := hchange.document he
    refine ⟨f, hf, hclosed' ∘ hclosed, ?_⟩
    rcases hcurrent with hsame | ⟨i, t, _, happlies⟩
    · rw [hsame]
      exact hle
    · exact Nat.le_of_lt (Nat.lt_of_le_of_lt hle happlies.newer)

theorem finished_later {j k i : Nat} {t : Task} (hjk : j ≤ k)
    (ht : (run config (actions.take j)).tasks[i]? = some t) (hfinished : t.isFinished = true) :
    (run config (actions.take k)).tasks[i]? = some t := by
  induction k, hjk using Nat.le_induction with
  | base => exact ht
  | succ k _ ih =>
    obtain ⟨a, hchange⟩ := exists_change config actions k
    obtain ⟨u, hu, _, _, hsame, _⟩ := hchange.task ih
    rw [hu, hsame hfinished]

end Service

end ScriptLens
