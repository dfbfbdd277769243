import Mathlib.Data.List.Nodup
import ScriptLens.Proofs.Service.History

/-! # No edit is lost

An open document whose tasks have all come to their end, none of them by a failed build,
has the analysis of its last script. What holds between a service and its history is kept
by each action, in whatever order the tasks take their steps.
-/
namespace ScriptLens

/-- What a stage says about the script that its task is for. -/
def Stage.Fits (config : Config) (sequence : Nat) (script : Script) : Stage → Prop
  | .waiting s => s = script
  | .building s => s = script
  | .built a => a = Analysis.build config sequence script
  | .finished _ => True

/-- An analysis is that of a script of a document, under the number of the script. -/
def History.Analyses (h : History) (config : Config) (n : Nat) (a : Analysis) : Prop :=
  ∃ script, h.script? n a.sequence = some script ∧ a = Analysis.build config a.sequence script

/-- A document has an analysis of its last script, or it is closed, or the task for its last
script is not at its end or came to no analysis. -/
def History.Fresh (h : History) (n : Nat) (d : Document) : Prop :=
  d.current.sequence = d.latest ∨ d.isClosed = true ∨
    ∃ i t, h.service.tasks[i]? = some t ∧ t.document = n ∧ t.sequence = d.latest ∧
      (t.isFinished = false ∨ i ∈ h.failed)

/-- What holds between a service and its history. -/
structure History.Consistent (config : Config) (h : History) : Prop where
  config_eq : h.service.config = config
  size_eq : h.versions.size = h.service.documents.size
  latest_eq : ∀ {n : Nat} {d : Document} {vs : Array Script}, h.service.documents[n]? = some d →
    h.versions[n]? = some vs → vs.size = d.latest + 1
  analyses : ∀ {n : Nat} {d : Document}, h.service.documents[n]? = some d →
    h.Analyses config n d.current
  fresh : ∀ {n : Nat} {d : Document}, h.service.documents[n]? = some d → h.Fresh n d
  task : ∀ {i : Nat} {t : Task}, h.service.tasks[i]? = some t →
    ∃ script, h.script? t.document t.sequence = some script ∧ t.stage.Fits config t.sequence script
  isOpen : ∀ {name : String} {n : Nat}, (name, n) ∈ h.service.registry →
    ∃ d, h.service.documents[n]? = some d ∧ d.isClosed = false
  apart : (h.service.registry.map Prod.snd).Nodup

/-! ## Documents and the scripts they were given -/

namespace Service
variable {s : Service}

theorem getElem?_markClosed (s : Service) (name : String) (m : Nat) :
    (s.markClosed name)[m]? = (s.documents[m]?).map fun d =>
      if s.number? name = some m then { d with isClosed := true } else d := by
  unfold markClosed
  cases hn : s.number? name with
  | none => simp
  | some n =>
    simp only [Array.getElem?_modify, Option.some.injEq]
    split <;> simp

theorem of_getElem?_modify {documents : Array Document} {n m : Nat} {d e : Document}
    {f : Document → Document} (hd : documents[n]? = some d)
    (he : (documents.modify n f)[m]? = some e) :
    m = n ∧ e = f d ∨ m ≠ n ∧ documents[m]? = some e := by
  rw [Array.getElem?_modify] at he
  split at he
  · next heq =>
    subst heq
    rw [hd] at he
    exact .inl ⟨rfl, (Option.some.inj he).symm⟩
  · next hne => exact .inr ⟨Ne.symm hne, he⟩

theorem exists_getElem?_modify {documents : Array Document} {n m : Nat} {d e : Document}
    (f : Document → Document) (hd : documents[n]? = some d) (he : documents[m]? = some e)
    (hf : (f d).isClosed = d.isClosed) :
    ∃ e', (documents.modify n f)[m]? = some e' ∧ e'.isClosed = e.isClosed := by
  by_cases hmn : n = m
  · subst hmn
    rw [hd] at he
    cases he
    exact ⟨f d, by rw [Array.getElem?_modify, if_pos rfl, hd, Option.map_some], hf⟩
  · exact ⟨e, by rw [Array.getElem?_modify, if_neg hmn, he], rfl⟩

theorem getElem?_push_of_some {α : Type} {xs : Array α} {i : Nat} {a : α} (h : xs[i]? = some a)
    (b : α) : (xs.push b)[i]? = some a := by
  have hlt := (Array.getElem?_eq_some_iff.mp h).1
  rw [Array.getElem?_push, if_neg (Nat.ne_of_lt hlt), h]

theorem size_markClosed (s : Service) (name : String) :
    (s.markClosed name).size = s.documents.size := by
  unfold markClosed
  split
  · exact Array.size_modify
  · rfl

theorem mem_unregister {name other : String} {n : Nat} {registry : List (String × Nat)} :
    (other, n) ∈ unregister name registry ↔ (other, n) ∈ registry ∧ other ≠ name := by
  simp [unregister]

theorem getElem?_setStage (s : Service) (i : Nat) (stage : Stage) (j : Nat) :
    (s.setStage i stage).tasks[j]? =
      if i = j then (s.tasks[j]?).map fun t => { t with stage := stage } else s.tasks[j]? :=
  Array.getElem?_modify ..

theorem mem_of_number? {name : String} {n : Nat} (h : s.number? name = some n) :
    (name, n) ∈ s.registry := by
  obtain ⟨before, after, hregistry, _⟩ := List.lookup_eq_some_iff.mp h
  simp [hregistry]

end Service

namespace History.Consistent
variable {config : Config} {h : History}

theorem start (config : Config) : (History.start config).Consistent config := by
  constructor
  · rfl
  · rfl
  all_goals simp [History.start, Service.new]

theorem sequence_le (hc : h.Consistent config) {n : Nat} {d : Document}
    (hd : h.service.documents[n]? = some d) : d.current.sequence ≤ d.latest := by
  obtain ⟨script, hscript, _⟩ := hc.analyses hd
  obtain ⟨vs, hvs, hget⟩ := Option.bind_eq_some_iff.mp hscript
  have hlt := (Array.getElem?_eq_some_iff.mp hget).1
  have hsize := hc.latest_eq hd hvs
  omega

theorem setStage (hc : h.Consistent config) {i : Nat} {t : Task} {stage : Stage}
    (ht : h.service.tasks[i]? = some t)
    (hfits : ∀ script, t.stage.Fits config t.sequence script →
      stage.Fits config t.sequence script)
    (hend : ∀ d, h.service.documents[t.document]? = some d → t.sequence = d.latest →
      Task.isFinished { t with stage := stage } = true →
      i ∈ h.failed ∨ d.current.sequence = d.latest ∨ d.isClosed = true) :
    History.Consistent config { h with service := h.service.setStage i stage } := by
  refine ⟨hc.config_eq, hc.size_eq, hc.latest_eq, hc.analyses, ?_, ?_, hc.isOpen, hc.apart⟩
  · intro n d hd
    rcases hc.fresh hd with hcurrent | hclosed | ⟨j, u, hu, hdoc, hseq, hunfinished⟩
    · exact .inl hcurrent
    · exact .inr (.inl hclosed)
    by_cases hij : i = j
    · subst hij
      rw [ht] at hu
      cases hu
      subst hdoc
      cases hfinished : Task.isFinished { t with stage := stage } with
      | false =>
        refine .inr (.inr ⟨i, { t with stage := stage }, ?_, rfl, hseq, .inl hfinished⟩)
        simp [Service.getElem?_setStage, ht]
      | true =>
        rcases hend d hd hseq hfinished with hfailed | hcurrent | hclosed
        · refine .inr (.inr ⟨i, { t with stage := stage }, ?_, rfl, hseq, .inr hfailed⟩)
          simp [Service.getElem?_setStage, ht]
        · exact .inl hcurrent
        · exact .inr (.inl hclosed)
    · refine .inr (.inr ⟨j, u, ?_, hdoc, hseq, hunfinished⟩)
      simp [Service.getElem?_setStage, hij, hu]
  · intro j u hu
    simp only [Service.getElem?_setStage] at hu
    split at hu
    · next hij =>
      subst hij
      simp only [ht, Option.map_some, Option.some.injEq] at hu
      subst hu
      obtain ⟨script, hscript, hstage⟩ := hc.task ht
      exact ⟨script, hscript, hfits script hstage⟩
    · exact hc.task hu

theorem failed_cons (hc : h.Consistent config) (i : Nat) :
    History.Consistent config { h with failed := i :: h.failed } := by
  refine ⟨hc.config_eq, hc.size_eq, hc.latest_eq, hc.analyses, ?_, hc.task, hc.isOpen, hc.apart⟩
  intro n d hd
  rcases hc.fresh hd with hcurrent | hclosed | ⟨j, u, hu, hdoc, hseq, hunfinished⟩
  · exact .inl hcurrent
  · exact .inr (.inl hclosed)
  · exact .inr (.inr ⟨j, u, hu, hdoc, hseq, hunfinished.imp_right (List.mem_cons_of_mem i)⟩)

theorem install (hc : h.Consistent config) {n : Nat} {d : Document} {a : Analysis}
    (hd : h.service.documents[n]? = some d) (ha : h.Analyses config n a)
    (hlatest : a.sequence = d.latest) :
    History.Consistent config { h with service := { h.service with
      documents := h.service.documents.modify n fun _ => { d with current := a } } } := by
  refine ⟨hc.config_eq, ?_, ?_, ?_, ?_, hc.task, ?_, hc.apart⟩
  · simpa using hc.size_eq
  · intro m e vs he hvs
    rcases Service.of_getElem?_modify hd he with ⟨rfl, rfl⟩ | ⟨_, he⟩
    · have hsize := hc.latest_eq hd hvs
      exact hsize
    · exact hc.latest_eq he hvs
  · intro m e he
    rcases Service.of_getElem?_modify hd he with ⟨rfl, rfl⟩ | ⟨_, he⟩
    · exact ha
    · exact hc.analyses he
  · intro m e he
    rcases Service.of_getElem?_modify hd he with ⟨rfl, rfl⟩ | ⟨_, he⟩
    · exact .inl hlatest
    · exact hc.fresh he
  · intro name m hm
    obtain ⟨e, he, hopen⟩ := hc.isOpen hm
    obtain ⟨e', he', hclosed⟩ :=
      Service.exists_getElem?_modify (fun _ => { d with current := a }) hd he rfl
    exact ⟨e', he', hclosed.trans hopen⟩

theorem taskStep (hc : h.Consistent config) {i : Nat} {after : Service}
    (hstep : h.service.TaskStep i after) :
    History.Consistent config { h with service := after } := by
  cases hstep with
  | idle => exact hc
  | wake ht hstage hd hlatest =>
    refine hc.setStage ht ?_ ?_
    · intro script hfits
      rw [hstage] at hfits
      exact hfits
    · intro _ _ _ hfinished
      cases hfinished
  | @giveUp t d script ht hstage hd hstale =>
    refine hc.setStage ht (fun _ _ => trivial) ?_
    intro e he hseq _
    rw [hd] at he
    cases he
    exact .inr (.inr (by simpa [Document.isCurrent, hseq] using hstale))
  | build ht hstage =>
    refine hc.setStage ht ?_ ?_
    · intro script hfits
      rw [hstage] at hfits
      rw [hc.config_eq, show _ = script from hfits]
      rfl
    · intro _ _ _ hfinished
      cases hfinished
  | @discard t d a ht hstage hd hlate =>
    refine hc.setStage ht (fun _ _ => trivial) ?_
    intro e he hseq _
    rw [hd] at he
    cases he
    obtain ⟨script, hscript, hfits⟩ := hc.task ht
    rw [hstage] at hfits
    have ha : a.sequence = d.latest := by
      rw [show a = _ from hfits]
      exact hseq
    cases hclosed : d.isClosed with
    | true => exact .inr (.inr rfl)
    | false =>
      have hle := hlate (by simp [Document.isCurrent, hclosed, ha])
      have hge := hc.sequence_le hd
      exact .inr (.inl (by omega))
  | @install t d a ht hstage hd hlatest hnewer =>
    obtain ⟨script, hscript, hfits⟩ := hc.task ht
    rw [hstage] at hfits
    have hbuilt : a = Analysis.build config t.sequence script := hfits
    have hseq : a.sequence = t.sequence := by
      rw [hbuilt]
      rfl
    have hlast : a.sequence = d.latest := by
      simp only [Document.isCurrent, Bool.and_eq_true, beq_iff_eq] at hlatest
      exact hlatest.2.symm
    have ha : h.Analyses config t.document a :=
      ⟨script, by rw [hseq, hscript], by rw [hseq]; exact hbuilt⟩
    refine (hc.install hd ha hlast).setStage ht (fun _ _ => trivial) ?_
    intro e he _ _
    rcases Service.of_getElem?_modify hd he with ⟨_, rfl⟩ | ⟨hne, _⟩
    · exact .inr (.inl hlast)
    · exact absurd rfl hne

theorem close (hc : h.Consistent config) (name : String) :
    History.Consistent config { h with service := h.service.close name } := by
  have hget : ∀ (m : Nat) (e : Document), (h.service.markClosed name)[m]? = some e →
      ∃ d, h.service.documents[m]? = some d ∧ e.latest = d.latest ∧ e.current = d.current ∧
        (d.isClosed = true → e.isClosed = true) := by
    intro m e he
    rw [Service.getElem?_markClosed, Option.map_eq_some_iff] at he
    obtain ⟨d, hd, rfl⟩ := he
    refine ⟨d, hd, ?_⟩
    split
    · exact ⟨rfl, rfl, fun _ => rfl⟩
    · exact ⟨rfl, rfl, id⟩
  refine ⟨hc.config_eq, ?_, ?_, ?_, ?_, hc.task, ?_, ?_⟩
  · exact hc.size_eq.trans (Service.size_markClosed _ name).symm
  · intro m e vs he hvs
    obtain ⟨d, hd, hlatest, _⟩ := hget m e he
    rw [hlatest]
    exact hc.latest_eq hd hvs
  · intro m e he
    obtain ⟨d, hd, _, hcurrent, _⟩ := hget m e he
    rw [hcurrent]
    exact hc.analyses hd
  · intro m e he
    obtain ⟨d, hd, hlatest, hcurrent, hclosed⟩ := hget m e he
    have hfresh := hc.fresh hd
    rw [Fresh, ← hlatest, ← hcurrent] at hfresh
    exact hfresh.imp_right (.imp_left hclosed)
  · intro other m hm
    obtain ⟨hmem, hne⟩ := Service.mem_unregister.mp hm
    obtain ⟨d, hd, hopen⟩ := hc.isOpen hmem
    have hnumber : h.service.number? name ≠ some m := by
      intro hn
      have heq := List.inj_on_of_nodup_map hc.apart hmem (Service.mem_of_number? hn) rfl
      exact hne (Prod.mk.inj heq).1
    refine ⟨d, ?_, hopen⟩
    exact (Service.getElem?_markClosed _ name m).trans (by simp [hd, hnumber])
  · exact hc.apart.sublist (List.filter_sublist.map _)

theorem versions_push {n : Nat} {vs : Array Script} (hvs : h.versions[n]? = some vs)
    (script : Script) : ∃ more, (h.versions.push #[script])[n]? = some (vs ++ more) :=
  ⟨#[], by rw [Array.append_empty, Service.getElem?_push_of_some hvs]⟩

theorem versions_modify {n : Nat} {vs : Array Script} (hvs : h.versions[n]? = some vs) (m : Nat)
    (script : Script) :
    ∃ more, (h.versions.modify m (·.push script))[n]? = some (vs ++ more) := by
  rw [Array.getElem?_modify, hvs]
  split
  · exact ⟨#[script], by rw [Option.map_some, Array.push_eq_append]⟩
  · exact ⟨#[], by rw [Array.append_empty]⟩

theorem script?_of_versions {after : History} (hv : ∀ {n : Nat} {vs : Array Script},
      h.versions[n]? = some vs → ∃ more, after.versions[n]? = some (vs ++ more))
    {n k : Nat} {script : Script} (hs : h.script? n k = some script) :
    after.script? n k = some script := by
  obtain ⟨vs, hvs, hk⟩ := Option.bind_eq_some_iff.mp hs
  obtain ⟨more, hmore⟩ := hv hvs
  have hlt := (Array.getElem?_eq_some_iff.mp hk).1
  rw [script?, hmore, Option.bind_some, Array.getElem?_append_left hlt, hk]

theorem push (hc : h.Consistent config) (name : String) (script : Script) :
    History.Consistent config
      { h with
        service := { h.service with
          documents := h.service.documents.push
            (.ofAnalysis (Analysis.build h.service.config 0 script))
          registry := (name, h.service.documents.size) :: h.service.registry }
        versions := h.versions.push #[script] } := by
  refine ⟨hc.config_eq, ?_, ?_, ?_, ?_, ?_, ?_, ?_⟩
  · simpa using hc.size_eq
  · intro n d vs hd hvs
    rw [Array.getElem?_push] at hd hvs
    rw [hc.size_eq] at hvs
    split at hd
    · next hn =>
      rw [if_pos hn] at hvs
      cases hd
      cases hvs
      rfl
    · next hn =>
      rw [if_neg hn] at hvs
      exact hc.latest_eq hd hvs
  · intro n d hd
    rw [Array.getElem?_push] at hd
    split at hd
    · next hn =>
      cases hd
      refine ⟨script, ?_, by rw [hc.config_eq]; rfl⟩
      simp [script?, hn, ← hc.size_eq, Document.ofAnalysis, Analysis.build]
    · obtain ⟨old, hold, hbuild⟩ := hc.analyses hd
      exact ⟨old, script?_of_versions (versions_push · script) hold, hbuild⟩
  · intro n d hd
    rw [Array.getElem?_push] at hd
    split at hd
    · cases hd
      exact .inl rfl
    · exact hc.fresh hd
  · intro i t ht
    obtain ⟨old, hold, hfits⟩ := hc.task ht
    exact ⟨old, script?_of_versions (versions_push · script) hold, hfits⟩
  · intro other n hn
    rcases List.mem_cons.mp hn with heq | hn
    · cases heq
      exact ⟨_, Array.getElem?_push_size, rfl⟩
    · obtain ⟨d, hd, hopen⟩ := hc.isOpen hn
      exact ⟨d, Service.getElem?_push_of_some hd _, hopen⟩
  · refine List.nodup_cons.mpr ⟨?_, hc.apart⟩
    intro hmem
    obtain ⟨⟨other, n⟩, hn, hsize⟩ := List.mem_map.mp hmem
    obtain ⟨d, hd, _⟩ := hc.isOpen hn
    have hlt := (Array.getElem?_eq_some_iff.mp hd).1
    exact absurd hsize (Nat.ne_of_lt hlt)

theorem edit (hc : h.Consistent config) {n : Nat} {d : Document}
    (hd : h.service.documents[n]? = some d) (script : Script) :
    History.Consistent config
      { h with
        service := { h.service with
          documents := h.service.documents.modify n fun d => { d with latest := d.latest + 1 }
          tasks := h.service.tasks.push ⟨n, d.latest + 1, .waiting script⟩ }
        versions := h.versions.modify n (·.push script) } := by
  have hvs : ∃ vs, h.versions[n]? = some vs := by
    have hlt := (Array.getElem?_eq_some_iff.mp hd).1
    exact ⟨_, Array.getElem?_eq_getElem (hc.size_eq ▸ hlt)⟩
  obtain ⟨vs, hvs⟩ := hvs
  have hsize := hc.latest_eq hd hvs
  refine ⟨hc.config_eq, ?_, ?_, ?_, ?_, ?_, ?_, hc.apart⟩
  · simpa using hc.size_eq
  · intro m e us he hus
    rw [Array.getElem?_modify] at hus
    rcases Service.of_getElem?_modify hd he with ⟨rfl, rfl⟩ | ⟨hne, he⟩
    · rw [if_pos rfl, hvs] at hus
      cases hus
      rw [Array.size_push, hsize]
    · rw [if_neg (Ne.symm hne)] at hus
      exact hc.latest_eq he hus
  · intro m e he
    have hold : h.Analyses config m e.current := by
      rcases Service.of_getElem?_modify hd he with ⟨rfl, rfl⟩ | ⟨_, he⟩
      · have ha := hc.analyses hd
        exact ha
      · exact hc.analyses he
    obtain ⟨old, hscript, hbuild⟩ := hold
    exact ⟨old, script?_of_versions (versions_modify · n script) hscript, hbuild⟩
  · intro m e he
    rcases Service.of_getElem?_modify hd he with ⟨rfl, rfl⟩ | ⟨_, he⟩
    · exact .inr (.inr ⟨_, _, Array.getElem?_push_size, rfl, rfl, .inl rfl⟩)
    · rcases hc.fresh he with hcurrent | hclosed | ⟨i, t, ht, hunfinished⟩
      · exact .inl hcurrent
      · exact .inr (.inl hclosed)
      · exact .inr (.inr ⟨i, t, Service.getElem?_push_of_some ht _, hunfinished⟩)
  · intro i t ht
    rw [Array.getElem?_push] at ht
    split at ht
    · cases ht
      refine ⟨script, ?_, rfl⟩
      simp [script?, Array.getElem?_modify, hvs, ← hsize]
    · obtain ⟨old, hscript, hfits⟩ := hc.task ht
      exact ⟨old, script?_of_versions (versions_modify · n script) hscript, hfits⟩
  · intro name m hm
    obtain ⟨e, he, hopen⟩ := hc.isOpen hm
    obtain ⟨e', he', hclosed⟩ := Service.exists_getElem?_modify
      (fun d => { d with latest := d.latest + 1 }) hd he rfl
    exact ⟨e', he', hclosed.trans hopen⟩

theorem act (hc : h.Consistent config) (a : Action) : (h.act a).Consistent config := by
  cases a with
  | openDocument name script =>
    have hpush := (hc.close name).push name script
    have hsize : (h.service.close name).documents.size = h.service.documents.size :=
      Service.size_markClosed _ name
    rw [hsize] at hpush
    exact hpush
  | update name script =>
    simp only [History.act, Service.act, Service.update]
    cases hn : h.service.number? name with
    | none => exact hc
    | some n =>
      obtain ⟨d, hd, _⟩ := hc.isOpen (Service.mem_of_number? hn)
      simp only [hd]
      exact hc.edit hd script
  | close name => exact hc.close name
  | advance i =>
    refine hc.taskStep (Service.taskStep_advance ?_)
    intro t ht
    obtain ⟨script, hscript, _⟩ := hc.task ht
    obtain ⟨vs, hvs, _⟩ := Option.bind_eq_some_iff.mp hscript
    rw [← hc.size_eq]
    exact (Array.getElem?_eq_some_iff.mp hvs).1
  | fail i =>
    simp only [History.act, Service.act, Service.fail]
    cases ht : h.service.tasks[i]? with
    | none => exact hc
    | some t =>
      cases hstage : t.stage with
      | building script =>
        simp only [Option.any_some, Task.isBuilding, hstage, ↓reduceIte]
        refine (hc.failed_cons i).setStage ht (fun _ _ => trivial) ?_
        exact fun _ _ _ _ => .inl List.mem_cons_self
      | _ =>
        simp only [Option.any_some, Task.isBuilding, hstage]
        exact hc

theorem run (config : Config) (actions : List Action) :
    (History.run config actions).Consistent config := by
  have hfold : ∀ h : History, h.Consistent config →
      (actions.foldl History.act h).Consistent config := by
    induction actions with
    | nil => exact fun _ hc => hc
    | cons a rest ih => exact fun h hc => ih (h.act a) (hc.act a)
  exact hfold _ (start config)

end History.Consistent

/-- Whatever the order of calls and steps, a document has the analysis of its last script
unless it is closed or the task for that script is under way or failed. So an open document
whose tasks are all finished, none by a failed build, has the analysis of its last script, with
the number and the text of that script. -/
theorem Service.no_lost_update (config : Config) (actions : List Action) :
    let h := History.run config actions
    let s := run config actions
    h.service = s ∧
    (∀ n d, s.documents[n]? = some d → h.Fresh n d) ∧
    ∀ name n, s.number? name = some n →
      (∀ i t, s.tasks[i]? = some t → t.document = n → t.isFinished = true ∧ i ∉ h.failed) →
      ∃ scripts latest script a, h.versions[n]? = some scripts ∧ scripts.size = latest + 1 ∧
        scripts[latest]? = some script ∧ s.latest? name = some latest ∧
        s.analysis? name = some a ∧ a.sequence = latest ∧ a.source = script.source ∧
        a = Analysis.build config latest script := by
  have hc := History.Consistent.run config actions
  have hservice := History.service_run config actions
  refine ⟨hservice, ?_, ?_⟩
  · intro n d hd
    rw [← hservice] at hd
    exact hc.fresh hd
  · rw [← hservice]
    intro name n hn htasks
    obtain ⟨d, hd, hopen⟩ := hc.isOpen (Service.mem_of_number? hn)
    have hdocument : document? (History.run config actions).service name = some d := by
      rw [document?, hn, Option.bind_some, hd]
    obtain ⟨script, hscript, hbuild⟩ := hc.analyses hd
    obtain ⟨scripts, hscripts, hget⟩ := Option.bind_eq_some_iff.mp hscript
    have hcurrent : d.current.sequence = d.latest := by
      rcases hc.fresh hd with hcurrent | hclosed | ⟨i, t, ht, hdoc, _, hunfinished⟩
      · exact hcurrent
      · rw [hopen] at hclosed
        cases hclosed
      · obtain ⟨hfinished, hgood⟩ := htasks i t ht hdoc
        rcases hunfinished with hunfinished | hfailed
        · rw [hfinished] at hunfinished
          cases hunfinished
        · exact absurd hfailed hgood
    have hsource := Analysis.source_of_eq_build hbuild
    rw [hcurrent] at hget hbuild
    refine ⟨scripts, d.latest, script, d.current, hscripts, hc.latest_eq hd hscripts, hget, ?_, ?_,
      hcurrent, hsource, hbuild⟩
    · rw [latest?, hdocument, Option.map_some]
    · rw [analysis?, hdocument, Option.map_some]

/-- A document is edited twice, and the first edit is overtaken before its task wakes up. -/
def burst (first second third : Script) : List Action :=
  [.openDocument "a" first, .update "a" second, .update "a" third, .advance 1, .advance 0,
    .advance 1, .advance 1]

theorem service_burst (config : Config) (first second third : Script) :
    (Service.run config (burst first second third)).tasks =
      #[⟨0, 1, .finished false⟩, ⟨0, 2, .finished true⟩] ∧
    (Service.run config (burst first second third)).number? "a" = some 0 := by
  simp [Service.run, burst, Service.act, Service.new, Service.openDocument, Service.update,
    Service.advance, Service.number?, Service.markClosed, Service.unregister, Service.setStage,
    Document.isCurrent, Document.ofAnalysis, Document.apply, Analysis.build, Except.toOption]

theorem history_burst (config : Config) (first second third : Script) :
    (History.run config (burst first second third)).versions = #[#[first, second, third]] ∧
    (History.run config (burst first second third)).failed = [] := by
  simp [History.run, burst, History.act, History.start, Service.act, Service.new,
    Service.openDocument, Service.update, Service.number?, Service.markClosed,
    Service.unregister, Except.toOption]

/-- A script that is a name. -/
def Script.ofName (name : String) : Script :=
  let head (kind : String) : CstHead :=
    ⟨kind, none, 0, name.utf8ByteSize, ⟨0, 0⟩, ⟨0, name.utf8ByteSize⟩, true, false, false, false⟩
  ⟨name, .node (head "program") [.node (head "expression_statement")
    [.node (head "identifier") []]]⟩

theorem burst_keeps_last :
    let s := Service.run {} (burst (.ofName "u") (.ofName "v") (.ofName "w"))
    s.number? "a" = some 0 ∧ s.latest? "a" = some 2 ∧
    ∃ a, s.analysis? "a" = some a ∧ a.sequence = 2 ∧ a.source = "w" ∧
      a = Analysis.build {} 2 (.ofName "w") := by
  intro s
  obtain ⟨htasks, hnumber⟩ := service_burst {} (.ofName "u") (.ofName "v") (.ofName "w")
  obtain ⟨hversions, hfailed⟩ := history_burst {} (.ofName "u") (.ofName "v") (.ofName "w")
  obtain ⟨_, _, hlost⟩ :=
    Service.no_lost_update {} (burst (.ofName "u") (.ofName "v") (.ofName "w"))
  obtain ⟨scripts, latest, script, a, hscripts, hsize, hscript, hlatest, hanalysis, hsequence,
      hsource, hbuild⟩ := by
    refine hlost "a" 0 hnumber ?_
    intro i t ht _
    rw [htasks] at ht
    rw [hfailed]
    refine ⟨?_, List.not_mem_nil⟩
    rcases i with _ | _ | i
    · cases ht
      rfl
    · cases ht
      rfl
    · simp at ht
  rw [hversions] at hscripts
  cases hscripts
  have htwo : latest = 2 := by simpa using hsize.symm
  subst htwo
  cases hscript
  exact ⟨hnumber, hlatest, a, hanalysis, hsequence, hsource, hbuild⟩

end ScriptLens
