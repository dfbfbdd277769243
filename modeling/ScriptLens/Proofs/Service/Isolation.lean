import ScriptLens.Proofs.Service.Changes

/-! # Documents do not disturb each other

What a name shows depends on the script it was opened with and on its own edits: a service
that has this document only, and takes only the actions that concern it, comes to the same
document. Tasks of a document that was closed or replaced end without success.
-/
namespace ScriptLens

def Action.replaces (name : String) : Action → Bool
  | .openDocument other _ => other == name
  | .close other => other == name
  | _ => false

namespace Service

/-- The place of a task among those of the document that is open under a name. -/
def place? (s : Service) (name : String) (i : Nat) : Option Nat :=
  (s.tasks[i]?).bind fun t =>
    if s.number? name = some t.document then some (t.sequence - 1) else none

/-- What an action is for a service that has only the document open under a name. -/
def own? (s : Service) (name : String) : Action → Option Action
  | .update other script => if other = name then some (.update name script) else none
  | .advance i => (s.place? name i).map .advance
  | .fail i => (s.place? name i).map .fail
  | _ => none

def share (s : Service) (name : String) : List Action → List Action
  | [] => []
  | a :: rest => (s.own? name a).toList ++ (s.act a).share name rest

/-- An action is a call for a name or a step of a task of the document open under it. -/
def Concerns (s : Service) (name : String) : Action → Prop
  | .openDocument other _ | .update other _ | .close other => other = name
  | .advance i | .fail i => ∃ t, s.tasks[i]? = some t ∧ s.number? name = some t.document

variable {s after : Service} {a : Action} {name : String} {n : Nat}

theorem place?_eq_none {i : Nat} {t : Task} (ht : s.tasks[i]? = some t)
    (hplace : s.place? name i = none) : s.number? name ≠ some t.document := by
  intro hnumber
  simp [place?, ht, hnumber] at hplace

/-! ## Actions that do not concern a document -/

theorem own?_of_not_concerns (ha : ¬ s.Concerns name a) :
    a.replaces name = false ∧ s.own? name a = none := by
  have hplace : ∀ {i : Nat}, (¬ ∃ t, s.tasks[i]? = some t ∧ s.number? name = some t.document) →
      s.place? name i = none := by
    intro i hi
    cases ht : s.tasks[i]? with
    | none => simp [place?, ht]
    | some t =>
      have hn : s.number? name ≠ some t.document := fun hn => hi ⟨t, ht, hn⟩
      simp [place?, ht, hn]
  cases a with
  | openDocument other script => exact ⟨by simpa [Action.replaces, Concerns] using ha, rfl⟩
  | update other script => exact ⟨rfl, if_neg ha⟩
  | close other => exact ⟨by simpa [Action.replaces, Concerns] using ha, rfl⟩
  | advance i => exact ⟨rfl, by rw [own?, hplace ha, Option.map_none]⟩
  | fail i => exact ⟨rfl, by rw [own?, hplace ha, Option.map_none]⟩

theorem lookup_unregister {other : String} (hne : other ≠ name) (registry : List (String × Nat)) :
    (unregister other registry).lookup name = registry.lookup name := by
  induction registry with
  | nil => rfl
  | cons entry rest ih =>
    obtain ⟨key, m⟩ := entry
    by_cases hkey : key = other
    · subst hkey
      have hdrop : unregister key ((key, m) :: rest) = unregister key rest := by
        simp [unregister]
      have hmiss : (name == key) = false := by simpa using Ne.symm hne
      rw [hdrop, ih, List.lookup_cons, hmiss]
    · have hkeep : unregister other ((key, m) :: rest) = (key, m) :: unregister other rest := by
        simp [unregister, hkey]
      rw [hkeep, List.lookup_cons, List.lookup_cons, ih]

theorem Change.config_eq (hchange : s.Change a after) : after.config = s.config := by
  cases hchange <;> rfl

theorem Change.number?_eq (hchange : s.Change a after) (ha : a.replaces name = false) :
    after.number? name = s.number? name := by
  cases hchange with
  | close other => exact lookup_unregister (by simpa [Action.replaces] using ha) _
  | openDocument other script =>
    have hne : other ≠ name := by simpa [Action.replaces] using ha
    have hmiss : (name == other) = false := by simpa using Ne.symm hne
    have hcons : (s.openDocument other script).number? name =
        (unregister other s.registry).lookup name := by
      simp only [number?, Service.openDocument, List.lookup_cons, hmiss]
    rw [hcons]
    exact lookup_unregister hne _
  | _ => rfl

structure Keeps (s after : Service) (n : Nat) : Prop where
  document_eq : after.documents[n]? = s.documents[n]?
  task_eq : ∀ {i : Nat} {t : Task}, after.tasks[i]? = some t → t.document = n →
    s.tasks[i]? = some t

theorem Keeps.setStage {i : Nat} {t : Task} (ht : s.tasks[i]? = some t) (hne : t.document ≠ n)
    (stage : Stage) : s.Keeps (s.setStage i stage) n := by
  refine ⟨rfl, ?_⟩
  intro j u hu hn
  rw [getElem?_setStage] at hu
  split at hu
  · next hij =>
    subst hij
    rw [ht] at hu
    cases hu
    exact absurd hn hne
  · exact hu

theorem Change.keeps (hchange : s.Change a after) (hlt : n < s.documents.size)
    (hapart : ∀ other, s.number? other = some n → other = name)
    (hnumber : s.number? name = some n) (hreplaces : a.replaces name = false)
    (hown : s.own? name a = none) : s.Keeps after n := by
  have hclosed : ∀ other, other ≠ name → (s.markClosed other)[n]? = s.documents[n]? := by
    intro other hne
    have hnumber' : s.number? other ≠ some n := fun hn => hne (hapart other hn)
    simp [getElem?_markClosed, hnumber']
  have hforeign : ∀ {i : Nat} {t : Task}, s.tasks[i]? = some t → s.place? name i = none →
      t.document ≠ n := by
    intro i t ht hplace heq
    exact place?_eq_none ht hplace (heq ▸ hnumber)
  cases hchange with
  | idle => exact ⟨rfl, fun ht _ => ht⟩
  | move haction ht =>
    rcases haction with rfl | rfl
    · exact .setStage ht (hforeign ht (by simpa [own?] using hown)) _
    · exact .setStage ht (hforeign ht (by simpa [own?] using hown)) _
  | @install i t d b ht =>
    have hne := hforeign ht (by simpa [own?] using hown)
    have hkeeps := Keeps.setStage ht hne (.finished true)
    refine ⟨?_, hkeeps.task_eq⟩
    rw [Array.getElem?_modify, if_neg hne]
  | @edit other m d script hm hd =>
    have hne : m ≠ n := by
      rintro rfl
      simp [own?, hapart other hm] at hown
    refine ⟨by rw [Array.getElem?_modify, if_neg hne], ?_⟩
    intro i t ht hn
    rw [Array.getElem?_push] at ht
    split at ht
    · cases ht
      exact absurd hn hne
    · exact ht
  | close other =>
    exact ⟨hclosed other (by simpa [Action.replaces] using hreplaces), fun ht _ => ht⟩
  | openDocument other script =>
    refine ⟨?_, fun ht _ => ht⟩
    have hpush : (s.openDocument other script).documents[n]? = (s.markClosed other)[n]? := by
      rw [Service.openDocument, Array.getElem?_push, if_neg]
      rw [size_markClosed]
      exact Nat.ne_of_lt hlt
    rw [hpush]
    exact hclosed other (by simpa [Action.replaces] using hreplaces)

end Service

namespace History.Consistent
variable {config : Config} {h : History} {a : Action} {name other : String} {n : Nat}

theorem number_lt (hc : h.Consistent config) (hn : h.service.number? name = some n) :
    n < h.service.documents.size := by
  obtain ⟨d, hd, _⟩ := hc.isOpen (Service.mem_of_number? hn)
  exact (Array.getElem?_eq_some_iff.mp hd).1

theorem number_inj (hc : h.Consistent config) (hn : h.service.number? name = some n)
    (hm : h.service.number? other = some n) : other = name := by
  have heq := List.inj_on_of_nodup_map hc.apart (Service.mem_of_number? hm)
    (Service.mem_of_number? hn) rfl
  exact (Prod.mk.inj heq).1

theorem number_ne_of_closed (hc : h.Consistent config) {d : Document}
    (hd : h.service.documents[n]? = some d) (hclosed : d.isClosed = true) (name : String) :
    h.service.number? name ≠ some n := by
  intro hn
  obtain ⟨e, he, hopen⟩ := hc.isOpen (Service.mem_of_number? hn)
  rw [hd] at he
  cases he
  rw [hclosed] at hopen
  cases hopen

theorem keeps (hc : h.Consistent config) (hn : h.service.number? name = some n)
    (hreplaces : a.replaces name = false) (hown : h.service.own? name a = none) :
    h.service.Keeps (h.service.act a) n :=
  (hc.change a).keeps (hc.number_lt hn) (fun _ => hc.number_inj hn) hn hreplaces hown

theorem document?_act (hc : h.Consistent config) (ha : ¬ h.service.Concerns name a) :
    (h.service.act a).document? name = h.service.document? name := by
  obtain ⟨hreplaces, hown⟩ := Service.own?_of_not_concerns ha
  have hnumber := (hc.change a).number?_eq hreplaces
  rw [Service.document?, Service.document?, hnumber]
  cases hn : h.service.number? name with
  | none => rfl
  | some n =>
    rw [Option.bind_some, Option.bind_some]
    exact (hc.keeps hn hreplaces hown).document_eq

end History.Consistent

/-! ## A service for one document -/

/-- What a step of a task makes of its stage and of its document. -/
def Task.next (config : Config) (t : Task) (d : Document) : Stage × Document :=
  match t.stage with
  | .waiting script => (if d.isCurrent t.sequence then .building script else .finished false, d)
  | .building script => (.built (Analysis.build config t.sequence script), d)
  | .built a => (.finished (d.apply a).2, (d.apply a).1)
  | .finished applied => (.finished applied, d)

def Task.failed (t : Task) : Stage :=
  match t.stage with
  | .building _ => .finished false
  | stage => stage

theorem Task.latest_next (config : Config) (t : Task) (d : Document) :
    (t.next config d).2.latest = d.latest := by
  unfold Task.next
  split
  · rfl
  · rfl
  · unfold Document.apply
    split <;> rfl
  · rfl

namespace Service
variable {s u : Service} {name : String} {n i : Nat} {t : Task} {d : Document}

theorem setStage_self (ht : s.tasks[i]? = some t) : s.setStage i t.stage = s := by
  have htasks : (s.tasks.modify i fun t' => { t' with stage := t.stage }) = s.tasks := by
    apply Array.ext_getElem?
    intro j
    rw [Array.getElem?_modify]
    split
    · next heq => rw [← heq, ht, Option.map_some]
    · rfl
  rw [setStage, htasks]

/-- One task with its document after a step of the task. -/
def put (s : Service) (i : Nat) (stage : Stage) (n : Nat) (d : Document) : Service :=
  { s.setStage i stage with documents := s.documents.modify n fun _ => d }

theorem put_document (hd : s.documents[n]? = some d) (stage : Stage) :
    s.put i stage n d = s.setStage i stage := by
  rw [put, modify_self hd]
  rfl

theorem advance_eq (ht : s.tasks[i]? = some t) (hd : s.documents[t.document]? = some d) :
    s.advance i = s.put i (t.next s.config d).1 t.document (t.next s.config d).2 := by
  cases hstage : t.stage with
  | waiting script => simp only [advance, ht, hd, hstage, Task.next, put_document hd]
  | building script => simp only [advance, ht, hd, hstage, Task.next, put_document hd]
  | built a => simp only [advance, ht, hd, hstage, Task.next, put]
  | finished applied =>
    simp only [advance, ht, hstage, Task.next, put_document hd]
    rw [← hstage, setStage_self ht]

theorem fail_eq (ht : s.tasks[i]? = some t) (hd : s.documents[t.document]? = some d) :
    s.fail i = s.put i t.failed t.document d := by
  rw [put_document hd]
  cases hstage : t.stage with
  | building script => simp only [fail, ht, hstage, Task.failed]
  | _ =>
    simp only [fail, ht, hstage, Task.failed]
    rw [← hstage, setStage_self ht]

/-- A service has as its only document what another service has under a name. -/
structure Mirrors (s u : Service) (name : String) (n : Nat) : Prop where
  config_eq : u.config = s.config
  number_eq : s.number? name = some n
  alone_eq : u.number? name = some 0
  document_eq : u.documents[0]? = s.documents[n]?
  size_eq : u.tasks.size = s.latestOf n
  task_eq : ∀ {i : Nat} {t : Task}, s.tasks[i]? = some t → t.document = n →
    u.tasks[t.sequence - 1]? = some { t with document := 0 }

namespace Mirrors

theorem keeps {after : Service} (hm : s.Mirrors u name n) (hconfig : after.config = s.config)
    (hnumber : after.number? name = s.number? name) (hkeeps : s.Keeps after n) :
    after.Mirrors u name n := by
  refine ⟨hm.config_eq.trans hconfig.symm, hnumber.trans hm.number_eq, hm.alone_eq,
    hm.document_eq.trans hkeeps.document_eq.symm, ?_, ?_⟩
  · rw [hm.size_eq, latestOf, latestOf, hkeeps.document_eq]
  · intro i t ht hn
    exact hm.task_eq (hkeeps.task_eq ht hn) hn

theorem put (hm : s.Mirrors u name n) (hs : s.Numbered) (ht : s.tasks[i]? = some t)
    (hn : t.document = n) (hd : s.documents[n]? = some d) (stage : Stage) {e : Document}
    (he : e.latest = d.latest) :
    (s.put i stage n e).Mirrors (u.put (t.sequence - 1) stage 0 e) name n := by
  refine ⟨hm.config_eq, hm.number_eq, hm.alone_eq, ?_, ?_, ?_⟩
  · simp only [Service.put, Array.getElem?_modify, hm.document_eq, hd]
  · have hsize := hm.size_eq
    simp only [latestOf, hd, Option.elim_some] at hsize
    simp [Service.put, Service.setStage, latestOf, Array.getElem?_modify, hsize, hd, he]
  · intro j v hv hvn
    have hv' : (s.setStage i stage).tasks[j]? = some v := hv
    rw [getElem?_setStage] at hv'
    have hgoal : (u.put (t.sequence - 1) stage 0 e).tasks[v.sequence - 1]? =
        if t.sequence - 1 = v.sequence - 1 then
          (u.tasks[v.sequence - 1]?).map fun t => { t with stage := stage }
        else u.tasks[v.sequence - 1]? := getElem?_setStage ..
    rw [hgoal]
    split at hv'
    · next hij =>
      subst hij
      rw [ht] at hv'
      cases hv'
      rw [if_pos rfl, hm.task_eq ht hn]
      rfl
    · next hij =>
      have hne : t.sequence - 1 ≠ v.sequence - 1 := by
        intro heq
        have hbound := hs.bounds ht
        have hbound' := hs.bounds hv'
        exact hij (hs.unique ht hv' (hn.trans hvn.symm) (by omega))
      rw [if_neg hne, hm.task_eq hv' hvn]

theorem edit (hm : s.Mirrors u name n) (hd : s.documents[n]? = some d) (script : Script) :
    (s.act (.update name script)).Mirrors (u.act (.update name script)) name n := by
  have hlatest : u.tasks.size = d.latest := by rw [hm.size_eq, latestOf, hd, Option.elim_some]
  have hu : u.documents[0]? = some d := hm.document_eq.trans hd
  simp only [act, update, hm.number_eq, hm.alone_eq, hd, hu]
  refine ⟨hm.config_eq, hm.number_eq, hm.alone_eq, ?_, ?_, ?_⟩
  · simp [Except.toOption, Array.getElem?_modify, hd, hu]
  · simp [Except.toOption, Array.getElem?_modify, latestOf, hd, hlatest]
  · intro i t ht hn
    simp only [Except.toOption, Option.getD_some, Array.getElem?_push] at ht ⊢
    split at ht
    · cases ht
      simp [hlatest]
    · have hold := hm.task_eq ht hn
      have hlt := (Array.getElem?_eq_some_iff.mp hold).1
      rw [if_neg (Nat.ne_of_lt hlt), hold]

theorem own (hm : s.Mirrors u name n) (hs : s.Numbered) (hd : s.documents[n]? = some d)
    {a b : Action} (hown : s.own? name a = some b) : (s.act a).Mirrors (u.act b) name n := by
  have hplace : ∀ {i j : Nat}, s.place? name i = some j → ∃ t, s.tasks[i]? = some t ∧
      t.document = n ∧ j = t.sequence - 1 := by
    intro i j hij
    obtain ⟨t, ht, hj⟩ := Option.bind_eq_some_iff.mp hij
    split at hj
    · next hnumber =>
      rw [hm.number_eq] at hnumber
      cases hnumber
      cases hj
      exact ⟨t, ht, rfl, rfl⟩
    · cases hj
  have hu : u.documents[0]? = some d := hm.document_eq.trans hd
  cases a with
  | update other script =>
    simp only [own?] at hown
    split at hown
    · next heq =>
      subst heq
      cases hown
      exact hm.edit hd script
    · cases hown
  | advance i =>
    obtain ⟨j, hij, rfl⟩ := Option.map_eq_some_iff.mp hown
    obtain ⟨t, ht, rfl, rfl⟩ := hplace hij
    have hstep := hm.put hs ht rfl hd (t.next s.config d).1 (t.latest_next s.config d)
    rw [← advance_eq ht hd] at hstep
    have halone := advance_eq (hm.task_eq ht rfl) hu
    rw [hm.config_eq] at halone
    simp only [act]
    rw [halone]
    exact hstep
  | fail i =>
    obtain ⟨j, hij, rfl⟩ := Option.map_eq_some_iff.mp hown
    obtain ⟨t, ht, rfl, rfl⟩ := hplace hij
    have hstep := hm.put hs ht rfl hd t.failed rfl
    rw [← fail_eq ht hd] at hstep
    simp only [act]
    rw [fail_eq (hm.task_eq ht rfl) hu]
    exact hstep
  | openDocument | close => cases hown

theorem act {config : Config} {h : History} (hc : h.Consistent config)
    (hs : h.service.Numbered) (hm : h.service.Mirrors u name n) {a : Action}
    (ha : a.replaces name = false) :
    (h.service.act a).Mirrors ((h.service.own? name a).toList.foldl Service.act u) name n := by
  cases hown : h.service.own? name a with
  | none =>
    have hchange := hc.change a
    exact hm.keeps hchange.config_eq (hchange.number?_eq ha) (hc.keeps hm.number_eq ha hown)
  | some b =>
    obtain ⟨d, hd, _⟩ := hc.isOpen (mem_of_number? hm.number_eq)
    exact hm.own hs hd hown

theorem openDocument {config : Config} {h : History} (hc : h.Consistent config) (name : String)
    (script : Script) :
    (h.service.openDocument name script).Mirrors ((new config).openDocument name script) name
      h.service.documents.size := by
  have hsize : (h.service.markClosed name).size = h.service.documents.size := size_markClosed ..
  have hd : (h.service.openDocument name script).documents[h.service.documents.size]? =
      some (.ofAnalysis (Analysis.build config 0 script)) := by
    rw [Service.openDocument, hc.config_eq, ← hsize, Array.getElem?_push_size]
  refine ⟨hc.config_eq.symm, ?_, ?_, ?_, ?_, ?_⟩
  · simp [number?, Service.openDocument]
  · simp [number?, Service.openDocument, new]
  · rw [hd]
    rfl
  · rw [latestOf, hd]
    rfl
  · intro i t ht hn
    have hlt := hc.document_lt ht
    exact absurd hn (Nat.ne_of_lt hlt)

theorem run {config : Config} {before after : List Action}
    (hm : (run config before).Mirrors u name n)
    (hafter : ∀ a ∈ after, a.replaces name = false) :
    (Service.run config (before ++ after)).Mirrors
      (((Service.run config before).share name after).foldl Service.act u) name n := by
  induction after generalizing before u with
  | nil => simpa [share] using hm
  | cons a rest ih =>
    have hc := History.Consistent.run config before
    have hservice := History.service_run config before
    have hs := numbered_run config before
    rw [← hservice] at hm hs
    have hstep := act hc hs hm (hafter a List.mem_cons_self)
    rw [hservice, ← run_concat] at hstep
    have hrest := ih hstep fun b hb => hafter b (List.mem_cons_of_mem a hb)
    rw [share, List.foldl_append, ← run_concat]
    simpa using hrest

end Mirrors

/-! ## Tasks of a closed document -/

variable {config : Config} {actions : List Action}

theorem unapplied_later {j k n i : Nat} {d : Document} {t : Task} (hjk : j ≤ k)
    (hd : (run config (actions.take j)).documents[n]? = some d) (hclosed : d.isClosed = true)
    (ht : (run config (actions.take j)).tasks[i]? = some t) (hn : t.document = n)
    (hunapplied : t.isApplied = false) :
    ∃ u, (run config (actions.take k)).tasks[i]? = some u ∧ u.document = n ∧
      u.isApplied = false := by
  induction k, hjk using Nat.le_induction with
  | base => exact ⟨t, ht, hn, hunapplied⟩
  | succ k hjk ih =>
    obtain ⟨u, hu, hun, huapplied⟩ := ih
    obtain ⟨e, he, heclosed, _⟩ := document_later hjk hd
    obtain ⟨a, hchange⟩ := exists_change config actions k
    obtain ⟨v, hv, hvn, _, _, happlied⟩ := hchange.task hu
    refine ⟨v, hv, hvn.trans hun, ?_⟩
    cases hcase : v.isApplied with
    | false => rfl
    | true =>
      rcases happlied hcase with hbefore | ⟨f, b, happlies⟩
      · rw [huapplied] at hbefore
        cases hbefore
      · have hf := happlies.document
        rw [hun, he] at hf
        cases hf
        have hlatest := happlies.latest
        simp [Document.isCurrent, heclosed hclosed] at hlatest

theorem advance_closed {s : Service} {i : Nat} {t : Task} {d : Document} {b : Analysis}
    (ht : s.tasks[i]? = some t) (hstage : t.stage = .built b)
    (hd : s.documents[t.document]? = some d) (hclosed : d.isClosed = true) :
    s.advance i = s.setStage i (.finished false) := by
  have happly : d.apply b = (d, false) := by simp [Document.apply, Document.isCurrent, hclosed]
  simp only [advance_eq ht hd, Task.next, hstage, happly, put_document hd]

theorem closed_act {config : Config} {h : History} (hc : h.Consistent config) {name : String}
    {n : Nat} (hn : h.service.number? name = some n) {a : Action} (ha : a.replaces name = true) :
    ∃ d, (h.service.act a).documents[n]? = some d ∧ d.isClosed = true ∧
      (h.service.act a).tasks = h.service.tasks := by
  obtain ⟨d, hd, _⟩ := hc.isOpen (mem_of_number? hn)
  have hclosed : (h.service.markClosed name)[n]? = some { d with isClosed := true } := by
    rw [getElem?_markClosed, hd, Option.map_some, if_pos hn]
  cases a with
  | openDocument other script =>
    have heq : other = name := by simpa [Action.replaces] using ha
    subst heq
    exact ⟨_, getElem?_push_of_some hclosed _, rfl, rfl⟩
  | close other =>
    have heq : other = name := by simpa [Action.replaces] using ha
    subst heq
    exact ⟨_, hclosed, rfl, rfl⟩
  | _ => cases ha

theorem not_concerns_of_number {s : Service} {name : String} {i : Nat} {t : Task}
    (ht : s.tasks[i]? = some t) (hn : s.number? name ≠ some t.document) :
    ¬ s.Concerns name (.advance i) ∧ ¬ s.Concerns name (.fail i) := by
  simp [Concerns, ht, hn]

end Service

/-- What keeps the documents of a service apart. -/
structure Isolation (config : Config) : Prop where
  /-- Until it is opened anew or closed, a name shows what its own edits make of its script. -/
  determined : ∀ (before after : List Action) (name : String) (script : Script),
    (∀ a ∈ after, a.replaces name = false) →
    let opened := Service.run config (before ++ [.openDocument name script])
    let s := Service.run config (before ++ .openDocument name script :: after)
    let alone := Service.run config (.openDocument name script :: opened.share name after)
    s.isOpen name = true ∧ s.analysis? name = alone.analysis? name ∧
      s.latest? name = alone.latest? name
  undisturbed : ∀ (actions : List Action) (name : String) (a : Action),
    let s := Service.run config actions
    ¬ s.Concerns name a →
      (s.act a).analysis? name = s.analysis? name ∧ (s.act a).latest? name = s.latest? name
  /-- Tasks of closed documents and of other names are of no concern to a name. -/
  foreign : ∀ (actions : List Action) (name : String) (i : Nat) (t : Task) (d : Document),
    let s := Service.run config actions
    s.tasks[i]? = some t → s.documents[t.document]? = some d →
    (d.isClosed = true ∨ ∃ other, other ≠ name ∧ s.number? other = some t.document) →
      ¬ s.Concerns name (.advance i) ∧ ¬ s.Concerns name (.fail i)
  /-- A document that is closed or replaced stays closed, and none of its tasks is applied. -/
  closed : ∀ (before after : List Action) (a : Action) (name : String) (n : Nat),
    let s := Service.run config (before ++ a :: after)
    (Service.run config before).number? name = some n → a.replaces name = true →
      (∃ d, s.documents[n]? = some d ∧ d.isClosed = true) ∧
      (∀ other, s.number? other ≠ some n) ∧
      ∀ (i : Nat) (t : Task), (Service.run config before).tasks[i]? = some t → t.document = n →
        t.isApplied = false → ∃ u, s.tasks[i]? = some u ∧ u.isApplied = false
  late : ∀ (actions : List Action) (i : Nat) (t : Task) (d : Document) (b : Analysis),
    let s := Service.run config actions
    s.tasks[i]? = some t → t.stage = .built b → s.documents[t.document]? = some d →
    d.isClosed = true → s.act (.advance i) = s.setStage i (.finished false)

namespace Service
variable {config : Config}

theorem Mirrors.document?_eq {s u : Service} {name : String} {n : Nat}
    (hm : s.Mirrors u name n) : s.document? name = u.document? name := by
  rw [document?, document?, hm.number_eq, hm.alone_eq, Option.bind_some, Option.bind_some,
    hm.document_eq]

theorem mirrors_run (config : Config) {before after : List Action} {name : String}
    (script : Script) (hafter : ∀ a ∈ after, a.replaces name = false) :
    (run config (before ++ .openDocument name script :: after)).Mirrors
      (run config (.openDocument name script ::
        (run config (before ++ [.openDocument name script])).share name after)) name
      (run config before).documents.size := by
  have hopen := Mirrors.openDocument (History.Consistent.run config before) name script
  have hopened : (run config before).openDocument name script =
      run config (before ++ [.openDocument name script]) := by
    rw [run_concat]
    rfl
  rw [History.service_run, hopened] at hopen
  have hrun := hopen.run hafter
  rw [List.append_assoc, List.singleton_append] at hrun
  exact hrun

theorem closed_run {before : List Action} {a : Action} {name : String} {n : Nat}
    (hn : (run config before).number? name = some n) (ha : a.replaces name = true)
    (after : List Action) :
    (∃ d, (run config (before ++ a :: after)).documents[n]? = some d ∧ d.isClosed = true) ∧
    ∀ (i : Nat) (t : Task), (run config before).tasks[i]? = some t → t.document = n →
      t.isApplied = false →
      ∃ u, (run config (before ++ a :: after)).tasks[i]? = some u ∧ u.isApplied = false := by
  have hc := History.Consistent.run config before
  rw [← History.service_run] at hn
  obtain ⟨d, hd, hclosed, htasks⟩ := closed_act hc hn ha
  rw [History.service_run, ← run_concat] at hd htasks
  have htake : (before ++ a :: after).take (before.length + 1) = before ++ [a] := by
    rw [← List.singleton_append, ← List.append_assoc]
    exact List.take_left' (by simp)
  have hall : (before ++ a :: after).take (before ++ a :: after).length = before ++ a :: after :=
    List.take_length
  have hle : before.length + 1 ≤ (before ++ a :: after).length := by simp
  rw [← htake] at hd htasks
  refine ⟨?_, ?_⟩
  · obtain ⟨e, he, heclosed, _⟩ := document_later hle hd
    rw [hall] at he
    exact ⟨e, he, heclosed hclosed⟩
  · intro i t ht htn hunapplied
    rw [← htasks] at ht
    obtain ⟨u, hu, _, huapplied⟩ := unapplied_later hle hd hclosed ht htn hunapplied
    rw [hall] at hu
    exact ⟨u, hu, huapplied⟩

theorem isolation (config : Config) : Isolation config := by
  constructor
  · intro before after name script hafter opened s alone
    have hm : s.Mirrors alone name _ := mirrors_run config script hafter
    have hdocument := hm.document?_eq
    refine ⟨by rw [isOpen, hm.number_eq]; rfl, ?_, ?_⟩
    · rw [analysis?, analysis?, hdocument]
    · rw [latest?, latest?, hdocument]
  · intro actions name a s ha
    have hs : s = (History.run config actions).service := (History.service_run ..).symm
    have hdocument : (s.act a).document? name = s.document? name := by
      rw [hs] at ha ⊢
      exact (History.Consistent.run config actions).document?_act ha
    rw [analysis?, latest?, hdocument]
    exact ⟨rfl, rfl⟩
  · intro actions name i t d s ht hd hforeign
    have hs : s = (History.run config actions).service := (History.service_run ..).symm
    have hc := History.Consistent.run config actions
    refine not_concerns_of_number ht ?_
    intro hn
    rw [hs] at hd hn hforeign
    rcases hforeign with hclosed | ⟨other, hne, hother⟩
    · exact hc.number_ne_of_closed hd hclosed name hn
    · exact hne (hc.number_inj hn hother)
  · intro before after a name n s hn ha
    have hs : s = (History.run config (before ++ a :: after)).service :=
      (History.service_run ..).symm
    have hc := History.Consistent.run config (before ++ a :: after)
    obtain ⟨⟨d, hd, hclosed⟩, htasks⟩ := closed_run hn ha after
    refine ⟨⟨d, hd, hclosed⟩, ?_, htasks⟩
    have hd' : s.documents[n]? = some d := hd
    rw [hs] at hd' ⊢
    exact hc.number_ne_of_closed hd' hclosed
  · intro actions i t d b s ht hstage hd hclosed
    exact advance_closed ht hstage hd hclosed

end Service

/-- A document is opened anew while the task of an edit is under way, and the next edit gets
the number of that edit. -/
theorem reopened_isolated :
    let script : Script :=
      ⟨"v", .node ⟨"program", none, 0, 1, ⟨0, 0⟩, ⟨0, 1⟩, true, false, false, false⟩ []⟩
    let last : Script :=
      ⟨"", .node ⟨"program", none, 0, 0, ⟨0, 0⟩, ⟨0, 0⟩, true, false, false, false⟩ []⟩
    let before : List Action := [.openDocument "a" last, .update "a" script]
    let after : List Action := [.advance 0, .update "a" script, .openDocument "b" last,
      .advance 1, .advance 1, .close "b", .advance 1]
    (∀ a ∈ after, a.replaces "a" = false) ∧
    (Service.run {} (before ++ [.openDocument "a" last])).share "a" after =
      [.update "a" script, .advance 0, .advance 0, .advance 0] ∧
    (Service.run {} (before ++ .openDocument "a" last :: after)).analysis? "a" =
      some (Analysis.build {} 1 script) := by
  intro script last before after
  have hkept : ∀ a ∈ after, a.replaces "a" = false := by simp [after, Action.replaces]
  have hshare : (Service.run {} (before ++ [.openDocument "a" last])).share "a" after =
      [.update "a" script, .advance 0, .advance 0, .advance 0] := by
    simp [before, after, Service.share, Service.own?, Service.place?, Service.run, Service.act,
      Service.new, Service.openDocument, Service.update, Service.advance, Service.close,
      Service.number?, Service.markClosed, Service.unregister, Service.setStage,
      List.lookup_cons, Document.isCurrent, Document.ofAnalysis, Analysis.build, Except.toOption]
  obtain ⟨_, hanalysis, _⟩ := (Service.isolation {}).determined before after "a" last hkept
  rw [hshare] at hanalysis
  refine ⟨hkept, hshare, hanalysis.trans ?_⟩
  simp [Service.run, Service.act, Service.new, Service.openDocument, Service.update,
    Service.advance, Service.number?, Service.markClosed, Service.unregister, Service.setStage,
    Service.analysis?, Service.document?, Document.isCurrent, Document.ofAnalysis, Document.apply,
    Analysis.build, Except.toOption]

end ScriptLens
