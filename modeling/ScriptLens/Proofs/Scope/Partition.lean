import Mathlib.Data.List.Pairwise
import ScriptLens.Proofs.Scope.Nodes

/-! # Every identifier is one of three things

An identifier with a record names a property, has a binding of its own name, or is without
a binding, and it is only one of these. This takes identifiers that can be told apart by
their spans, since a record is found by kind and span.
-/
namespace ScriptLens

/-- Identifiers that have a place have a name, and no two of them have the same place. -/
structure Program.DistinctIdents (p : Program) : Prop where
  named : ∀ id ∈ p.idents, id.isPlaced = true → id.name ≠ ""
  distinct : ((p.idents.filter Ident.isPlaced).map Ident.span).Nodup

inductive IdentBucket where
  | property | bound | free

/-- The node with a number is that of a property name, has a binding, or has none. -/
def Program.InBucket (p : Program) (x : Index) (r : Resolution) (n : Nat) : IdentBucket → Prop
  | .property => ∃ id, Occurrence.property id ∈ p.occurrences ∧ x.find? .identifier id.span = some n
  | .bound => n ∈ r.nodeBinding
  | .free => n ∈ r.unresolved

abbrev Program.index (p : Program) (source : String) : Index := Index.ofTree p.toTree source

namespace Program
variable {p : Program} {source : String}

theorem mem_idents {o : Occurrence} (h : o ∈ p.occurrences) : o.ident ∈ p.idents :=
  List.mem_map_of_mem h

theorem exists_ident_of_entry {n : Nat} {e : TreeHead × Span} (he : p.toTree.entries[n]? = some e)
    (hkind : e.1.kind = .identifier) : ∃ id ∈ p.idents, id.isPlaced = true ∧ id.entry = e := by
  have hmem : e ∈ p.toTree.identEntries :=
    List.mem_filter.mpr ⟨List.mem_of_getElem? he, by simpa using hkind⟩
  rw [p.identEntries_toTree] at hmem
  obtain ⟨id, hid, hentry⟩ := List.mem_map.mp hmem
  exact ⟨id, (List.mem_filter.mp hid).1, (List.mem_filter.mp hid).2, hentry⟩

theorem entry_of_identNode? {id : Ident} {n : Nat}
    (h : (p.index source).identNode? id = some n) :
    id.isPlaced = true ∧ ∃ e, p.toTree.entries[n]? = some e ∧ e.1.kind = .identifier ∧
      e.2 = id.span := by
  unfold Index.identNode? at h
  split at h
  · cases h
  · next hplace =>
    rw [Index.ofTree_find?] at h
    obtain ⟨hlt, he, _⟩ := List.findIdx?_eq_some_iff_getElem.mp h
    simp only [Bool.and_eq_true, beq_iff_eq] at he
    refine ⟨?_, _, List.getElem?_eq_getElem hlt, he⟩
    simp only [Bool.or_eq_true, not_or, Bool.not_eq_true] at hplace
    simp [Ident.isPlaced, hplace.2]

namespace DistinctIdents

theorem pairwise_entries (h : p.DistinctIdents) :
    p.toTree.entries.Pairwise fun e f =>
      e.1.kind = .identifier → f.1.kind = .identifier → e.2 ≠ f.2 := by
  have hspans : (p.toTree.identEntries.map Prod.snd).Nodup := by
    rw [p.identEntries_toTree, List.map_map]
    exact h.distinct
  have hpair := List.pairwise_filter.mp (List.pairwise_map.mp hspans)
  refine hpair.imp ?_
  intro e f hef he hf
  exact hef (by simpa using he) (by simpa using hf)

theorem entry_unique (h : p.DistinctIdents) {i j : Nat} {e f : TreeHead × Span}
    (hi : p.toTree.entries[i]? = some e) (hj : p.toTree.entries[j]? = some f)
    (he : e.1.kind = .identifier) (hf : f.1.kind = .identifier) (hspan : e.2 = f.2) : i = j := by
  obtain ⟨hilt, hie⟩ := List.getElem?_eq_some_iff.mp hi
  obtain ⟨hjlt, hje⟩ := List.getElem?_eq_some_iff.mp hj
  have hpair := List.pairwise_iff_getElem.mp h.pairwise_entries
  rcases Nat.lt_trichotomy i j with hlt | heq | hgt
  · have hne := hpair i j hilt hjlt hlt
    rw [hie, hje] at hne
    exact absurd hspan (hne he hf)
  · exact heq
  · have hne := hpair j i hjlt hilt hgt
    rw [hie, hje] at hne
    exact absurd hspan.symm (hne hf he)

theorem identNode?_eq_find? (h : p.DistinctIdents) {id : Ident} (hid : id ∈ p.idents) :
    (p.index source).identNode? id =
      (p.index source).find? .identifier id.span := by
  unfold Index.identNode?
  cases hplace : id.span.isNowhere with
  | false =>
    have hname := h.named id hid (by simp [Ident.isPlaced, hplace])
    simp [hname]
  | true =>
    rw [Index.ofTree_find?, eq_comm]
    simp only [Bool.or_true, ↓reduceIte, List.findIdx?_eq_none_iff, Bool.and_eq_false_imp,
      beq_iff_eq]
    intro e he hkind
    obtain ⟨n, hn⟩ := List.getElem?_of_mem he
    obtain ⟨other, _, hother, hentry⟩ := exists_ident_of_entry hn hkind
    have hne : e.2 ≠ id.span := by
      rw [← hentry]
      intro heq
      have hsame : other.span = id.span := heq
      simp [Ident.isPlaced, hsame, hplace] at hother
    simpa using hne

theorem identNode?_entry (h : p.DistinctIdents) {id : Ident} (hid : id ∈ p.idents) {n : Nat}
    (hn : p.toTree.entries[n]? = some id.entry) :
    (p.index source).identNode? id = some n := by
  rw [h.identNode?_eq_find? hid, Index.ofTree_find?]
  have hsome : (p.toTree.entries.findIdx? fun e =>
      e.1.kind == .identifier && e.2 == id.span).isSome := by
    rw [List.findIdx?_isSome, List.any_eq_true]
    refine ⟨id.entry, List.mem_of_getElem? hn, ?_⟩
    simp [Ident.entry, Ident.toTree, Tree.leaf, Tree.head]
  obtain ⟨m, hm⟩ := Option.isSome_iff_exists.mp hsome
  obtain ⟨hlt, he, _⟩ := List.findIdx?_eq_some_iff_getElem.mp hm
  simp only [Bool.and_eq_true, beq_iff_eq] at he
  rw [hm, h.entry_unique (List.getElem?_eq_getElem hlt) hn he.1 rfl he.2]

theorem entry_of_node (h : p.DistinctIdents) {id : Ident} (hid : id ∈ p.idents) {n : Nat}
    (hn : (p.index source).identNode? id = some n) :
    p.toTree.entries[n]? = some id.entry := by
  obtain ⟨hplaced, e, he, hkind, hspan⟩ := entry_of_identNode? hn
  have hmem : id.entry ∈ p.toTree.identEntries := by
    rw [p.identEntries_toTree]
    exact List.mem_map_of_mem (List.mem_filter.mpr ⟨hid, hplaced⟩)
  obtain ⟨m, hm⟩ := List.getElem?_of_mem (List.mem_filter.mp hmem).1
  rw [h.entry_unique he hm hkind rfl hspan, hm]

end DistinctIdents

end Program

namespace Event

def node? (x : Index) (e : Event) : Option Nat := e.occurrence?.bind fun o => x.identNode? o.ident

theorem node?_eq {x : Index} {e : Event} {o : Occurrence} (h : e.occurrence? = some o) :
    e.node? x = x.identNode? o.ident := by
  rw [node?, h, Option.bind_some]

/-- An identifier in scope is acted on in one of the passes. -/
theorem inScope_iff {e : Event} {id : Ident} :
    e.occurrence? = some (.inScope id) ↔ ∃ pass, e.acting? pass = some id := by
  constructor
  · intro h
    cases e with
    | enter | leave => cases h
    | property => cases h
    | declare | refer | nameSelf =>
      cases h
      first | exact ⟨.declare, rfl⟩ | exact ⟨.resolve, rfl⟩
  · rintro ⟨pass, h⟩
    cases pass <;> cases e <;> cases h <;> rfl

theorem acting?_pass {e : Event} {pass other : Pass} {id id' : Ident}
    (h : e.acting? pass = some id) (h' : e.acting? other = some id') : pass = other := by
  cases pass <;> cases other <;> first
    | rfl
    | cases e <;> simp [acting?] at h h'

theorem touched?_iff {x : Index} {pass : Pass} {e : Event} {n : Nat} :
    e.touched? x pass = some n ↔ ∃ id, e.acting? pass = some id ∧ x.identNode? id = some n :=
  Option.bind_eq_some_iff

theorem node?_of_touched? {x : Index} {pass : Pass} {e : Event} {n : Nat}
    (h : e.touched? x pass = some n) : e.node? x = some n := by
  obtain ⟨id, hact, hn⟩ := touched?_iff.mp h
  exact (node?_eq (inScope_iff.mpr ⟨pass, hact⟩)).trans hn

def Apart (x : Index) (e f : Event) : Prop := ∀ n, e.node? x = some n → f.node? x ≠ some n

instance (x : Index) : Std.Symm (Apart x) where
  symm _ _ h n hf he := h n he hf

end Event

/-- The nodes that a pass over a program records something about. -/
def Program.touched (p : Program) (x : Index) (pass : Pass) : List Nat :=
  p.events.filterMap (Event.touched? x pass)

namespace Program
variable {p : Program} {source : String}

theorem exists_event_of_occurrence {o : Occurrence} (ho : o ∈ p.occurrences) :
    ∃ e ∈ p.events, e.occurrence? = some o := by
  rw [← p.occurrences_events] at ho
  exact List.mem_filterMap.mp ho

theorem occurrence_of_event {e : Event} (he : e ∈ p.events) {o : Occurrence}
    (ho : e.occurrence? = some o) : o ∈ p.occurrences := by
  rw [← p.occurrences_events]
  exact List.mem_filterMap.mpr ⟨e, he, ho⟩

theorem exists_touched_iff {x : Index} {n : Nat} :
    (∃ pass, n ∈ p.touched x pass) ↔
      ∃ id, Occurrence.inScope id ∈ p.occurrences ∧ x.identNode? id = some n := by
  constructor
  · rintro ⟨pass, hn⟩
    obtain ⟨e, he, hen⟩ := List.mem_filterMap.mp hn
    obtain ⟨id, hact, hid⟩ := Event.touched?_iff.mp hen
    exact ⟨id, occurrence_of_event he (Event.inScope_iff.mpr ⟨pass, hact⟩), hid⟩
  · rintro ⟨id, ho, hid⟩
    obtain ⟨e, he, heo⟩ := exists_event_of_occurrence ho
    obtain ⟨pass, hact⟩ := Event.inScope_iff.mp heo
    exact ⟨pass, List.mem_filterMap.mpr ⟨e, he, Event.touched?_eq_some hact hid⟩⟩

namespace DistinctIdents

theorem pairwise_events (h : p.DistinctIdents) (source : String) :
    p.events.Pairwise (Event.Apart (p.index source)) := by
  have hspans := List.pairwise_filter.mp (List.pairwise_map.mp h.distinct)
  rw [idents, ← p.occurrences_events, Event.occurrences, List.pairwise_map,
    List.pairwise_filterMap] at hspans
  refine hspans.imp ?_
  intro e f hef n he hf
  obtain ⟨o, ho, hon⟩ := Option.bind_eq_some_iff.mp he
  obtain ⟨q, hq, hqn⟩ := Option.bind_eq_some_iff.mp hf
  obtain ⟨hoplaced, _, hoe, _, hospan⟩ := entry_of_identNode? hon
  obtain ⟨hqplaced, _, hqe, _, hqspan⟩ := entry_of_identNode? hqn
  rw [hoe] at hqe
  cases hqe
  exact hef o ho q hq hoplaced hqplaced (hospan.symm.trans hqspan)

theorem event_unique (h : p.DistinctIdents) {e f : Event} (he : e ∈ p.events) (hf : f ∈ p.events)
    {n : Nat} (hen : e.node? (p.index source) = some n)
    (hfn : f.node? (p.index source) = some n) : e = f := by
  by_contra hne
  exact (h.pairwise_events source).forall he hf hne n hen hfn

theorem touched_nodup (h : p.DistinctIdents) (source : String) (pass : Pass) :
    (p.touched (p.index source) pass).Nodup := by
  refine List.pairwise_filterMap.mpr ((h.pairwise_events source).imp ?_)
  rintro e f hef n hn m hm rfl
  exact hef n (Event.node?_of_touched? hn) (Event.node?_of_touched? hm)

theorem touched_apart (h : p.DistinctIdents) {n : Nat} {pass other : Pass}
    (hn : n ∈ p.touched (p.index source) pass)
    (hm : n ∈ p.touched (p.index source) other) : pass = other := by
  obtain ⟨e, he, hen⟩ := List.mem_filterMap.mp hn
  obtain ⟨f, hf, hfn⟩ := List.mem_filterMap.mp hm
  have hef := h.event_unique he hf (Event.node?_of_touched? hen) (Event.node?_of_touched? hfn)
  subst hef
  obtain ⟨id, hact, _⟩ := Event.touched?_iff.mp hen
  obtain ⟨id', hact', _⟩ := Event.touched?_iff.mp hfn
  exact Event.acting?_pass hact hact'

end DistinctIdents

/-! ## The two passes together -/

theorem declared_knows_iff (p : Program) (x : Index) (n : Nat) :
    (p.declared x).Knows n ↔ n ∈ p.touched x .declare := by
  have hnone : ¬ (Resolver.start p.span).Knows n := by
    simp [Resolver.Knows, Resolver.start]
  have hrun := Resolver.run_knows_iff (Resolver.start_sound p.span) (by simp [Resolver.start]) x
    .declare p.events n
  exact hrun.trans (or_iff_right hnone)

theorem declared_declares (p : Program) (x : Index) :
    ∀ n ∈ (p.declared x).declarations, n ∈ (p.declared x).nodeBinding :=
  Resolver.run_declares (Resolver.start_sound p.span) (by simp [Resolver.start]) x .declare p.events

theorem idents_of_acting {e : Event} (he : e ∈ p.events) {pass : Pass} {id : Ident}
    (h : e.acting? pass = some id) : id ∈ p.idents :=
  mem_idents (occurrence_of_event he (Event.inScope_iff.mpr ⟨pass, h⟩))

theorem resolved_labelled (p : Program) (x : Index) :
    (p.resolved x).Labelled x (· ∈ p.idents) := by
  have hstart : (Resolver.start p.span).Labelled x (· ∈ p.idents) := by
    intro n b hb
    simp [Resolver.start] at hb
  have hdeclared : (p.declared x).Labelled x (· ∈ p.idents) :=
    Resolver.run_labelled (Resolver.start_sound p.span) hstart fun _ he _ => idents_of_acting he
  exact Resolver.run_labelled (p.declared_sound x) hdeclared fun _ he _ => idents_of_acting he

/-- Something is recorded about exactly the identifiers in scope. -/
theorem resolved_knows_iff (p : Program) (x : Index) (n : Nat) :
    (p.resolved x).Knows n ↔
      ∃ id, Occurrence.inScope id ∈ p.occurrences ∧ x.identNode? id = some n := by
  rw [resolved, resolving, Resolver.run_knows_iff (p.declared_sound x) (p.declared_declares x),
    declared_knows_iff, ← exists_touched_iff]
  constructor
  · rintro (hn | hn)
    · exact ⟨.declare, hn⟩
    · exact ⟨.resolve, hn⟩
  · rintro ⟨pass, hn⟩
    cases pass with
    | declare => exact .inl hn
    | resolve => exact .inr hn

theorem DistinctIdents.resolved_sorted (h : p.DistinctIdents) (source : String) :
    (p.resolved (p.index source)).Sorted := by
  have hstart : (Resolver.start p.span).Sorted := by
    refine ⟨?_, List.nodup_nil, ?_⟩ <;> simp [Resolver.start]
  have hnone : ∀ n ∈ p.touched (p.index source) .declare,
      ¬ (Resolver.start p.span).Knows n := by
    simp [Resolver.Knows, Resolver.start]
  have hdeclare := Resolver.run_sorted (Resolver.start_sound p.span) hstart
    (h.touched_nodup source .declare) hnone
  have hdeclared : (p.declared (p.index source)).Sorted :=
    ⟨hdeclare.apart, hdeclare.nodup, hdeclare.declares⟩
  refine Resolver.run_sorted (p.declared_sound _) hdeclared (h.touched_nodup source .resolve) ?_
  intro n hn hknows
  cases h.touched_apart hn ((p.declared_knows_iff _ n).mp hknows)

theorem DistinctIdents.exists_occurrence (h : p.DistinctIdents) {n : Nat} {record : NodeRecord}
    (hrecord : (p.index source).node? n = some record) (hkind : record.kind = .identifier) :
    ∃ o ∈ p.occurrences, (p.index source).identNode? o.ident = some n := by
  obtain ⟨e, he, hekind, _⟩ := Index.ofTree_node? hrecord
  obtain ⟨id, hid, _, hentry⟩ := exists_ident_of_entry he (hekind ▸ hkind)
  obtain ⟨o, ho, rfl⟩ := List.mem_map.mp hid
  exact ⟨o, ho, h.identNode?_entry hid (hentry ▸ he)⟩

theorem exists_record {id : Ident} {n : Nat}
    (hn : (p.index source).identNode? id = some n) :
    ∃ record, (p.index source).node? n = some record ∧ record.kind = .identifier := by
  obtain ⟨_, e, he, hekind, _⟩ := entry_of_identNode? hn
  have hlt : n < (p.index source).size := by
    rw [Index.ofTree_size]
    exact (List.getElem?_eq_some_iff.mp he).1
  have hrecord := Array.getElem?_eq_getElem hlt
  obtain ⟨f, hf, hkind, _⟩ := Index.ofTree_node? hrecord
  rw [he] at hf
  cases hf
  exact ⟨_, hrecord, hkind.trans hekind⟩

theorem DistinctIdents.not_inScope_of_property (h : p.DistinctIdents) {id other : Ident} {n : Nat}
    (hid : Occurrence.property id ∈ p.occurrences)
    (hn : (p.index source).identNode? id = some n)
    (hother : Occurrence.inScope other ∈ p.occurrences) :
    (p.index source).identNode? other ≠ some n := by
  intro hm
  obtain ⟨e, he, heo⟩ := exists_event_of_occurrence hid
  obtain ⟨f, hf, hfo⟩ := exists_event_of_occurrence hother
  have hef := h.event_unique he hf ((Event.node?_eq heo).trans hn) ((Event.node?_eq hfo).trans hm)
  rw [hef, hfo] at heo
  cases heo

end Program

/-- The identifier records of an index, divided by what the resolution has for them. -/
structure IdentPartition (p : Program) (x : Index) (r : Resolution) : Prop where
  one_bucket : ∀ n record, x.node? n = some record → record.kind = .identifier →
    ∃! bucket, p.InBucket x r n bucket
  same_name : ∀ n record b, x.node? n = some record → r.nodeBinding[n]? = some b →
    ∃ β, r.bindings[b]? = some β ∧ record.name = some β.name
  free_once : ∀ n ∈ r.unresolved, r.unresolved.toList.count n = 1
  /-- Nothing is said about any other node. -/
  only_idents : ∀ n, n ∈ r.nodeBinding ∨ n ∈ r.declarations ∨ n ∈ r.unresolved →
    (∃ record, x.node? n = some record ∧ record.kind = .identifier) ∧
      (p.InBucket x r n .bound ∨ p.InBucket x r n .free)

namespace Program.DistinctIdents
variable {p : Program} {source : String}

theorem existsUnique_bucket (h : p.DistinctIdents) {n : Nat} {record : NodeRecord}
    (hrecord : (p.index source).node? n = some record) (hkind : record.kind = .identifier) :
    ∃! bucket, p.InBucket (p.index source) (p.resolve (p.index source)) n bucket := by
  rw [p.resolve_eq_finish]
  have hknows := p.resolved_knows_iff (p.index source) n
  have hsorted := h.resolved_sorted source
  obtain ⟨o, ho, hn⟩ := h.exists_occurrence hrecord hkind
  cases o with
  | property id =>
    have hnone : ¬ (p.resolved (p.index source)).Knows n := by
      rw [hknows]
      rintro ⟨other, hother, hm⟩
      exact h.not_inScope_of_property ho hn hother hm
    refine ⟨.property, ⟨id, ho, (h.identNode?_eq_find? (mem_idents ho)).symm.trans hn⟩, ?_⟩
    rintro (_ | _ | _) hin
    · rfl
    · exact absurd (.inl hin) hnone
    · exact absurd (.inr hin) hnone
  | inScope id =>
    have hproperty :
        ¬ p.InBucket (p.index source) (p.resolved (p.index source)).finish n .property := by
      rintro ⟨other, hother, hm⟩
      have hfound := (h.identNode?_eq_find? (mem_idents hother)).trans hm
      exact h.not_inScope_of_property hother hfound ho hn
    rcases hknows.mpr ⟨id, ho, hn⟩ with hbound | hfree
    · refine ⟨.bound, hbound, ?_⟩
      rintro (_ | _ | _) hin
      · exact absurd hin hproperty
      · rfl
      · exact absurd hin (hsorted.apart n hbound)
    · refine ⟨.free, hfree, ?_⟩
      rintro (_ | _ | _) hin
      · exact absurd hin hproperty
      · exact absurd hfree (hsorted.apart n hin)
      · rfl

end Program.DistinctIdents

/-- Every identifier record of a program is in one bucket, and in the right one. -/
theorem Program.resolve_partition (p : Program) (source : String) (h : p.DistinctIdents) :
    IdentPartition p (p.index source) (p.resolve (p.index source)) := by
  have hsorted := h.resolved_sorted source
  have hbucket := @DistinctIdents.existsUnique_bucket p source h
  rw [p.resolve_eq_finish] at hbucket ⊢
  constructor
  · intro n record hrecord hkind
    exact hbucket hrecord hkind
  · intro n record b hrecord hb
    obtain ⟨id, β, hid, hn, hβ, hname⟩ := p.resolved_labelled _ n b hb
    obtain ⟨e, he, _, hename⟩ := Index.ofTree_node? hrecord
    rw [h.entry_of_node hid hn] at he
    cases he
    exact ⟨β, hβ, by rw [hename, hname]; rfl⟩
  · intro n hn
    exact List.count_eq_one_of_mem hsorted.nodup (Array.mem_toList_iff.mpr hn)
  · intro n hn
    have hknows : (p.resolved (p.index source)).Knows n :=
      hn.elim .inl fun hn => hn.imp (hsorted.declares n) id
    obtain ⟨id, _, hid⟩ := (p.resolved_knows_iff _ n).mp hknows
    exact ⟨exists_record hid, hknows⟩

def hoistedText : String := "let f = function g() { g.k; }; v; w; var v;"

def hoistedProgram : Program where
  span := ⟨1, 44⟩
  body := .ofList
    [.varStmt (.declarationOf ⟨1, 31⟩ .letDecl (.ofList
      [.declaratorOf ⟨5, 30⟩ (.target ⟨⟨5, 6⟩, "f"⟩)
        (.present (.function ⟨⟨9, 30⟩, false, false⟩ (some ⟨⟨18, 19⟩, "g"⟩) .nil ⟨22, 30⟩ (.ofList
          [.exprStmt ⟨24, 28⟩ (.get ⟨24, 27⟩ false (.ident ⟨⟨24, 25⟩, "g"⟩)
            (.named ⟨⟨26, 27⟩, "k"⟩))])))])),
     .exprStmt ⟨32, 34⟩ (.ident ⟨⟨32, 33⟩, "v"⟩),
     .exprStmt ⟨35, 37⟩ (.ident ⟨⟨35, 36⟩, "w"⟩),
     .varStmt (.declarationOf ⟨38, 44⟩ .varDecl (.ofList
      [.declaratorOf ⟨42, 43⟩ (.target ⟨⟨42, 43⟩, "v"⟩) .absent]))]

theorem hoistedProgram_distinctIdents : hoistedProgram.DistinctIdents := ⟨by decide, by decide⟩

theorem hoistedProgram_partition :
    hoistedProgram.DistinctIdents ∧ hoistedProgram.idents.length = 7 ∧
      IdentPartition hoistedProgram (hoistedProgram.index hoistedText)
        (hoistedProgram.resolve (hoistedProgram.index hoistedText)) :=
  ⟨hoistedProgram_distinctIdents, by decide,
    hoistedProgram.resolve_partition _ hoistedProgram_distinctIdents⟩

end ScriptLens
