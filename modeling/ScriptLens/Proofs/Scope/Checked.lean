import ScriptLens.Proofs.Scope.Run

/-! # Resolving with every access checked

The same resolver once more, with `none` in place of a result wherever a record is asked
for that does not exist, and wherever a walk along scopes would go on without coming
nearer to its end. On a sound graph neither happens: the checked resolver and the checked
walks give what the plain ones give. So no access is out of range, and all walks end by
themselves and not by the tests that bound them.
-/
namespace ScriptLens

namespace Checked

def modify {α : Type} (xs : Array α) (i : Nat) (f : α → α) : Option (Array α) :=
  if i < xs.size then some (xs.modify i f) else none

def hoistTarget (scopes : Array ScopeRecord) (scope : Nat) : Option Nat :=
  match scopes[scope]? with
  | none => none
  | some s =>
    if s.kind.isHoistTarget then some scope
    else
      match s.parent with
      | none => some scope
      | some p => if p < scope then hoistTarget scopes p else none
termination_by scope

def lookup (scopes : Array ScopeRecord) (scope : Nat) (name : String) : Option (Option Nat) :=
  match scopes[scope]? with
  | none => none
  | some s =>
    match s.binding? name with
    | some b => some (some b)
    | none =>
      match s.parent with
      | none => some none
      | some p => if p < scope then lookup scopes p name else none
termination_by scope

/-- The descent takes the first child that holds the offset, whatever its number. -/
def descend (r : Resolution) (offset id : Nat) : Option Nat :=
  match (r.scopes[id]?).bind fun s =>
      s.children.find? fun c => (r.scopes[c]?).any (·.contains offset) with
  | none => some id
  | some c => if id < c ∧ c < r.scopes.size then descend r offset c else none
termination_by r.scopes.size - id

def create (r : Resolver) (kind : ScopeKind) (span : Span) : Option Resolver := do
  let around ← r.scopes[r.current]?
  let id := r.scopes.size
  let extent := if span.isNowhere then around.span else span
  let scopes ← modify r.scopes r.current fun s => { s with children := s.children.push id }
  return { r with scopes := scopes.push ⟨id, some r.current, kind, extent, #[], #[]⟩ }

def enter (pass : Pass) (r : Resolver) (kind : ScopeKind) (span : Span) : Option Resolver :=
  let id := r.scopes.size
  match pass with
  | .declare => do
    let r := (← create r kind span).moveTo id
    return { r with order := r.order.push id }
  | .resolve =>
    let next := r.order[r.replay]?
    let r := { r with replay := r.replay + 1 }
    match next with
    | some scope => some (r.moveTo scope)
    | none => return (← create r kind span).moveTo id

def bind (r : Resolver) (scope node : Nat) (name : String) (kind : BindingKind) :
    Option Resolver := do
  let s ← r.scopes[scope]?
  match s.binding? name with
  | some existing =>
    return { r with
      bindings := ← modify r.bindings existing (Resolver.redeclare kind node)
      nodeBinding := r.nodeBinding.insert node existing
      declarations := r.declarations.insert node }
  | none =>
    let id := r.bindings.size
    return { r with
      bindings := r.bindings.push ⟨id, name, kind, node, scope, #[]⟩
      scopes := ← modify r.scopes scope fun s => { s with names := s.names.push (name, id) }
      nodeBinding := r.nodeBinding.insert node id
      declarations := r.declarations.insert node }

def declare (x : Index) (r : Resolver) (kind : BindingKind) (id : Ident) : Option Resolver :=
  match x.identNode? id with
  | none => some r
  | some node => do
    let scope ← if kind.isHoisted then hoistTarget r.scopes r.current else some r.current
    bind r scope node id.name kind

def addReference (r : Resolver) (node binding : Nat) : Option Resolver := do
  let bindings ← modify r.bindings binding fun b => { b with references := b.references.push node }
  return { r with bindings := bindings, nodeBinding := r.nodeBinding.insert node binding }

def refer (x : Index) (r : Resolver) (id : Ident) : Option Resolver :=
  match x.identNode? id with
  | none => some r
  | some node =>
    if r.declarations.contains node || r.nodeBinding.contains node then some r
    else do
      match ← lookup r.scopes r.current id.name with
      | some binding => addReference r node binding
      | none => return { r with unresolved := r.unresolved.push node }

def lookupAround (scopes : Array ScopeRecord) (s : ScopeRecord) (name : String) :
    Option (Option Nat) :=
  match s.parent with
  | none => some none
  | some p => lookup scopes p name

def nameSelf (x : Index) (r : Resolver) (id : Ident) : Option Resolver :=
  match x.identNode? id with
  | none => some r
  | some node => do
    let s ← r.scopes[r.current]?
    let around ← lookupAround r.scopes s id.name
    match around.or (s.binding? id.name) with
    | some binding => addReference r node binding
    | none => bind r r.current node id.name .functionDecl

def step (x : Index) (pass : Pass) (r : Resolver) (e : Event) : Option Resolver :=
  match pass, e with
  | _, .enter kind span => enter pass r kind span
  | _, .leave => some r.leave
  | .declare, .declare kind id => declare x r kind id
  | .resolve, .refer id => refer x r id
  | .resolve, .nameSelf id => nameSelf x r id
  | _, _ => some r

def run (x : Index) (pass : Pass) (r : Resolver) (events : List Event) : Option Resolver :=
  events.foldlM (step x pass) r

def resolve (x : Index) (p : Program) : Option Resolution := do
  let declared ← run x .declare (Resolver.start p.span) p.events
  return (← run x .resolve declared.rewind p.events).finish

end Checked

namespace ScopeTree
variable {scopes : Array ScopeRecord}

theorem checked_hoistTarget (h : ScopeTree scopes) {scope : Nat} (hs : scope < scopes.size) :
    Checked.hoistTarget scopes scope = some (hoistTarget scopes scope) := by
  fun_induction hoistTarget scopes scope with
  | case1 scope hnone => simp [hs] at hnone
  | case2 scope s hsome hkind => simp [Checked.hoistTarget, hsome, hkind]
  | case3 scope s hsome hkind hp => simp [Checked.hoistTarget, hsome, hkind, hp]
  | case4 scope s hsome hkind p hp hlt ih =>
    rw [Checked.hoistTarget]
    simp [hsome, hkind, hp, hlt, ih (Nat.lt_trans hlt hs)]
  | case5 scope s hsome hkind p hp hge =>
    exact absurd (h.parentOf?_lt (parentOf?_eq_some.mpr ⟨s, hsome, hp⟩)) hge

theorem checked_lookup (h : ScopeTree scopes) {scope : Nat} (hs : scope < scopes.size)
    (name : String) : Checked.lookup scopes scope name = some (lookupFrom? scopes scope name) := by
  fun_induction lookupFrom? scopes scope name with
  | case1 scope hnone => simp [hs] at hnone
  | case2 scope s hsome b hb => simp [Checked.lookup, hsome, hb]
  | case3 scope s hsome hb hp => simp [Checked.lookup, hsome, hb, hp]
  | case4 scope s hsome hb p hp hlt ih =>
    rw [Checked.lookup]
    simp [hsome, hb, hp, hlt, ih (Nat.lt_trans hlt hs)]
  | case5 scope s hsome hb p hp hge =>
    exact absurd (h.parentOf?_lt (parentOf?_eq_some.mpr ⟨s, hsome, hp⟩)) hge

/-- Children have greater numbers and exist, so the descent passes none of them over. -/
theorem inner?_eq {r : Resolution} (h : ScopeTree r.scopes) (offset id : Nat) :
    r.inner? offset id = (r.scopes[id]?).bind fun s =>
      s.children.find? fun c => (r.scopes[c]?).any (·.contains offset) := by
  unfold Resolution.inner?
  cases hs : r.scopes[id]? with
  | none => rfl
  | some s =>
    simp only [Option.bind_some]
    rw [← Array.find?_toList, ← Array.find?_toList, ← List.head?_filter, ← List.head?_filter]
    apply congrArg List.head?
    apply List.filter_congr
    intro c hc
    have hp := (h.mem_children_iff hs).mp (Array.mem_toList_iff.mp hc)
    obtain ⟨t, ht, _⟩ := parentOf?_eq_some.mp hp
    have hsize := (Array.getElem?_eq_some_iff.mp ht).1
    simp [h.parentOf?_lt hp, hsize]

theorem checked_descend {r : Resolution} (h : ScopeTree r.scopes) (offset id : Nat) :
    Checked.descend r offset id = some (r.descend offset id) := by
  fun_induction Resolution.descend r offset id with
  | case1 id hnone =>
    rw [Checked.descend, ← h.inner?_eq, hnone]
  | case2 id c hc ih =>
    have hlt := Resolution.inner?_bounds hc
    rw [Checked.descend, ← h.inner?_eq, hc]
    simp only [hlt, and_self, ↓reduceIte]
    exact ih

theorem descend_lt {r : Resolution} {id : Nat} (hid : id < r.scopes.size) (offset : Nat) :
    r.descend offset id < r.scopes.size := by
  fun_induction Resolution.descend r offset id with
  | case1 id hnone => exact hid
  | case2 id c hc ih => exact ih (Resolution.inner?_bounds hc).2

end ScopeTree

namespace Checked

theorem modify_eq {α : Type} {xs : Array α} {i : Nat} (hi : i < xs.size) (f : α → α) :
    modify xs i f = some (xs.modify i f) := if_pos hi

variable {r : Resolver}

theorem create_eq (hc : r.current < r.scopes.size) (kind : ScopeKind) (span : Span) :
    create r kind span = some (r.create kind span) := by
  simp [create, Resolver.create, modify_eq hc, Array.getElem?_eq_getElem hc]

theorem enter_eq (h : r.Sound) (pass : Pass) (kind : ScopeKind) (span : Span) :
    enter pass r kind span = some (r.enter pass kind span) := by
  cases pass with
  | declare => simp [enter, Resolver.enter, create_eq h.current_lt]
  | resolve =>
    simp only [enter, Resolver.enter]
    cases r.order[r.replay]? with
    | some scope => rfl
    | none => rw [create_eq (by exact h.current_lt)]; rfl

theorem boundIn?_lt (h : r.Sound) {i b : Nat} {name : String}
    (hb : boundIn? r.scopes i name = some b) : b < r.bindings.size := by
  obtain ⟨β, hβ, _⟩ := (h.graph.bound_iff i name b).mp hb
  exact (Array.getElem?_eq_some_iff.mp hβ).1

theorem lookupFrom?_lt (h : r.Sound) {scope b : Nat} {name : String}
    (hb : lookupFrom? r.scopes scope name = some b) : b < r.bindings.size := by
  obtain ⟨i, _, hi⟩ := exists_boundIn?_of_lookupFrom? hb
  exact boundIn?_lt h hi

theorem bind_eq (h : r.Sound) {scope : Nat} (hs : scope < r.scopes.size) (node : Nat)
    (name : String) (kind : BindingKind) :
    bind r scope node name kind = some (r.bind scope node name kind) := by
  have hsome := Array.getElem?_eq_getElem hs
  cases hb : r.scopes[scope].binding? name with
  | some existing =>
    have hlt : existing < r.bindings.size := 
      boundIn?_lt h (boundIn?_eq_some.mpr ⟨_, hsome, hb⟩)
    simp [bind, Resolver.bind, hsome, hb, modify_eq hlt]
  | none => simp [bind, Resolver.bind, hsome, hb, modify_eq hs]

theorem declare_eq (h : r.Sound) (x : Index) (kind : BindingKind) (id : Ident) :
    declare x r kind id = some (r.declare x kind id) := by
  unfold declare Resolver.declare
  cases x.identNode? id with
  | none => rfl
  | some node =>
    have htarget := h.graph.toScopeTree.checked_hoistTarget h.current_lt
    by_cases hk : kind.isHoisted
    · simp [hk, htarget, bind_eq h (hoistTarget_lt _ h.current_lt)]
    · simp [hk, bind_eq h h.current_lt]

theorem addReference_eq {binding : Nat} (hb : binding < r.bindings.size) (node : Nat) :
    addReference r node binding = some (r.addReference node binding) := by
  simp [addReference, Resolver.addReference, modify_eq hb]

theorem refer_eq (h : r.Sound) (x : Index) (id : Ident) : refer x r id = some (r.refer x id) := by
  unfold refer Resolver.refer
  cases x.identNode? id with
  | none => rfl
  | some node =>
    have hl := h.graph.toScopeTree.checked_lookup h.current_lt id.name
    simp only
    split
    · rfl
    · cases hb : lookupFrom? r.scopes r.current id.name with
      | some b => simp [hl, hb, addReference_eq (lookupFrom?_lt h hb)]
      | none => simp [hl, hb]

theorem lookupAround_eq (h : r.Sound) {i : Nat} {s : ScopeRecord} (hs : r.scopes[i]? = some s)
    (name : String) :
    lookupAround r.scopes s name = some (s.parent.bind fun p => lookupFrom? r.scopes p name) := by
  cases hp : s.parent with
  | none => simp [lookupAround, hp]
  | some p =>
    have hlt := h.graph.parentOf?_lt_size (parentOf?_eq_some.mpr ⟨s, hs, hp⟩)
    simp [lookupAround, hp, h.graph.toScopeTree.checked_lookup hlt]

theorem nameSelf_eq (h : r.Sound) (x : Index) (id : Ident) :
    nameSelf x r id = some (r.nameSelf x id) := by
  unfold nameSelf Resolver.nameSelf
  cases x.identNode? id with
  | none => rfl
  | some node =>
    obtain ⟨s, hs⟩ : ∃ s, r.scopes[r.current]? = some s :=
      ⟨_, Array.getElem?_eq_getElem h.current_lt⟩
    have haround := lookupAround_eq h hs id.name
    have hfound : ∀ b, (s.parent.bind fun p => lookupFrom? r.scopes p id.name).or
        (s.binding? id.name) = some b → b < r.bindings.size := by
      intro b hb
      rcases Option.or_eq_some_iff.mp hb with hb | ⟨_, hb⟩
      · obtain ⟨p, _, hp⟩ := Option.bind_eq_some_iff.mp hb
        exact lookupFrom?_lt h hp
      · exact boundIn?_lt h (boundIn?_eq_some.mpr ⟨s, hs, hb⟩)
    simp only [hs, Option.bind_eq_bind, Option.bind_some, haround]
    cases hb : (s.parent.bind fun p => lookupFrom? r.scopes p id.name).or (s.binding? id.name) with
    | some b => exact addReference_eq (hfound b hb) node
    | none => exact bind_eq h h.current_lt node id.name .functionDecl

theorem step_eq (h : r.Sound) (x : Index) (pass : Pass) (e : Event) :
    step x pass r e = some (r.step x pass e) := by
  cases e with
  | enter kind span => exact enter_eq h pass kind span
  | leave => cases pass <;> rfl
  | declare kind id =>
    cases pass with
    | declare => exact declare_eq h x kind id
    | resolve => rfl
  | refer id =>
    cases pass with
    | declare => rfl
    | resolve => exact refer_eq h x id
  | nameSelf id =>
    cases pass with
    | declare => rfl
    | resolve => exact nameSelf_eq h x id
  | property id => cases pass <;> rfl

theorem run_eq (h : r.Sound) (x : Index) (pass : Pass) (events : List Event) :
    run x pass r events = some (r.run x pass events) := by
  induction events generalizing r with
  | nil => rfl
  | cons e rest ih =>
    have hrest := ih (h.step x pass e)
    rw [run, List.foldlM_cons, step_eq h]
    exact hrest

theorem resolve_eq (p : Program) (x : Index) : resolve x p = some (p.resolve x) := by
  have hstart := Resolver.start_sound p.span
  have hagain := run_eq (p.declared_sound x) x .resolve p.events
  simp only [Program.declared] at hagain
  simp only [resolve, run_eq hstart, Option.bind_eq_bind, Option.bind_some, hagain]
  rw [p.resolve_eq_run]
  rfl

end Checked

/-- The outcome of resolving is a sound graph whose scopes hang together from the root.
Nothing outside its tables is asked for on the way, and all walks over it end by
themselves. -/
theorem Program.resolve_wellFormed (p : Program) (x : Index) :
    (p.resolve x).root = 0 ∧
    ScopeGraph (p.resolve x).scopes (p.resolve x).bindings ∧
    (∀ i < (p.resolve x).scopes.size, ∃! way, Reaches (p.resolve x).scopes way i) ∧
    Checked.resolve x p = some (p.resolve x) ∧
    (∀ scope < (p.resolve x).scopes.size,
      Checked.hoistTarget (p.resolve x).scopes scope =
        some (hoistTarget (p.resolve x).scopes scope)) ∧
    (∀ scope name, if scope < (p.resolve x).scopes.size then
        Checked.lookup (p.resolve x).scopes scope name =
          some (lookupFrom? (p.resolve x).scopes scope name)
      else (p.resolve x).lookup? scope name = none) ∧
    ∀ offset, (∀ id, Checked.descend (p.resolve x) offset id =
        some ((p.resolve x).descend offset id)) ∧
      ((p.resolve x).scopeAt? offset).isSome := by
  have hg := p.resolve_graph x
  have ht := hg.toScopeTree
  refine ⟨rfl, hg, fun i hi => ht.existsUnique_reaches hi, Checked.resolve_eq p x,
    fun scope hs => ht.checked_hoistTarget hs, ?_, ?_⟩
  · intro scope name
    split
    · next hs => exact ht.checked_lookup hs name
    · next hs =>
      have hnone : (p.resolve x).scopes[scope]? = none := by simpa using hs
      rw [Resolution.lookup?, lookupFrom?, hnone]
      rfl
  · intro offset
    refine ⟨fun id => ht.checked_descend offset id, ?_⟩
    have hlt : (p.resolve x).descend offset (p.resolve x).root < (p.resolve x).scopes.size :=
      ScopeTree.descend_lt ht.size_pos offset
    rw [Resolution.scopeAt?, Resolution.scope?, Array.getElem?_eq_getElem hlt, Option.isSome_some]

end ScriptLens
