import LogSetup.Proofs.Loader.Openings
import LogSetup.Proofs.Resolving.Answers

/-!
# The lookups of probing

Probing looks up conventional names in passes. Everything that it asks of the loader and of
factories is known in advance from what the loader holds and what factories make of it: in a pass
the names are looked up in order through the first that loads, whose factory is then handed the
resource, and passes follow one another through the first that yields a configuration.

## Main definitions

- `accessesOf` : the lookups and the handed sources among events
- `Resolution.passes`, `Resolution.namesOf` : the passes and their names
- `Resolution.passTrace`, `Resolution.passAnswer` : what happens in a pass and what it yields

## Main statements

- `Resolution.probe_trace` : all accesses of probing, and its result
-/

namespace LogSetup

/-- Questions to loaders, and sources handed to factories. -/
def Event.isAccess : Event → Bool
  | .lookup _ _ | .parsed _ _ => true
  | _ => false

/-- The lookups and the handed sources among events, in order. -/
def accessesOf (es : List Event) : List Event := es.filter Event.isAccess

@[simp] theorem accessesOf_append (es fs : List Event) :
    accessesOf (es ++ fs) = accessesOf es ++ accessesOf fs :=
  List.filter_append _ _

theorem accessesOf_flatMap {α : Type} (as : List α) (f : α → List Event) :
    accessesOf (as.flatMap f) = as.flatMap fun a => accessesOf (f a) := by
  induction as with
  | nil => rfl
  | cons a rest ih => simp [List.flatMap_cons, ih]

/-- Opening a resource is one lookup, whatever comes of it. -/
theorem Locator.accessesOf_openResource (l : Locator) (name : String) :
    accessesOf (l.openResource name).events = [.lookup l.context.loader (.resource name)] := by
  rw [openResource, loadResource]
  simp only [Traced.events_bind, Traced.value_bind, Traced.events_emit, Traced.settle,
    accessesOf_append]
  cases l.loader.loadResource name <;> rfl

namespace Resolution

/-! ### Passes -/

/-- The passes: a beginning of names, and the name that is put behind it. -/
def passes : Option String → List (String × Option String)
  | some name =>
    [(testStem, some name), (testStem, none), (mainStem, some name), (mainStem, none)]
  | none => [(testStem, none), (mainStem, none)]

/-- The conventional names of a pass: those of the active factories in order, of each factory in
the order of its endings. -/
def namesOf (ds : List Descriptor) (pass : String × Option String) : List (Descriptor × String) :=
  (ds.filter fun d => d.isActive).flatMap fun d =>
    (d.types.filter fun t => t != anyType).map fun t => (d, pass.1 ++ pass.2.getD "" ++ t)

/-- The first name that loads: its factory and its resource. -/
def firstLoaded (l : Locator) (names : List (Descriptor × String)) : Option (Descriptor × Source) :=
  names.findSome? fun n => (l.resource? n.2).map fun s => (n.1, s)

/-- What a pass yields. -/
def passAnswer (l : Locator) (names : List (Descriptor × String)) : Option Configuration :=
  (firstLoaded l names).bind fun p => p.1.result p.2

/-- What happens in a pass: the names are looked up through the first that loads, whose factory is
handed the resource. -/
def passTrace (l : Locator) (names : List (Descriptor × String)) : List Event :=
  (upTo (fun n => (l.resource? n.2).isSome) names).map
      (fun n => .lookup l.context.loader (.resource n.2)) ++
    (firstLoaded l names).toList.map fun p => .parsed p.1.factory.id p.2

theorem isActive_of_mem_namesOf {ds : List Descriptor} {pass : String × Option String}
    {n : Descriptor × String} (h : n ∈ namesOf ds pass) : n.1.isActive = true := by
  obtain ⟨d, hd, hn⟩ := List.mem_flatMap.mp h
  obtain ⟨t, _, rfl⟩ := List.mem_map.mp hn
  exact (List.mem_filter.mp hd).2

theorem value_probePass (l : Locator) (names : List (Descriptor × String)) :
    (probePass l names).value = passAnswer l names := by
  induction names with
  | nil => rfl
  | cons n rest ih =>
    rw [probePass, Traced.value_bind, l.value_openResource]
    rw [passAnswer, firstLoaded, List.findSome?_cons]
    cases l.resource? n.2 with
    | none => exact ih
    | some s => exact value_parseWith s n.1

/-- A pass makes its lookups and its one call of a factory, and no others. -/
theorem accessesOf_probePass (l : Locator) (names : List (Descriptor × String))
    (hactive : ∀ n ∈ names, n.1.isActive = true) :
    accessesOf (probePass l names).events = passTrace l names := by
  induction names with
  | nil => rfl
  | cons n rest ih =>
    have hrest : ∀ m ∈ rest, m.1.isActive = true :=
      fun m hm => hactive m (List.mem_cons_of_mem n hm)
    have hparse : ∀ s, accessesOf (parseWith s n.1).events = [.parsed n.1.factory.id s] := by
      intro s
      rw [events_parseWith, if_pos (hactive n List.mem_cons_self)]
      cases n.1.factory.parse s <;> rfl
    -- a name that does not load costs its lookup only, and the first that loads ends the pass
    rw [probePass, Traced.events_bind, accessesOf_append, l.accessesOf_openResource,
      l.value_openResource, passTrace, firstLoaded, List.findSome?_cons, upTo]
    cases l.resource? n.2 with
    | none =>
      have := ih hrest
      rw [passTrace, firstLoaded] at this
      simp [this]
    | some s =>
      simp only [Traced.events_bind, Traced.events_report, accessesOf_append, hparse,
        Option.isSome_some, if_true, Option.map_some, List.map_cons, List.map_nil]
      rfl

/-! ### All passes -/

theorem stems_eq_map_passes (name : Option String) :
    stems name = (passes name).map fun pass => pass.1 ++ pass.2.getD "" := by
  cases name <;> simp [stems, passes]

/-- Probing is determined from beginning to end. The passes follow one another through the first
that yields a configuration, which is the result; there is none exactly when no pass yields any. -/
theorem probe_trace (ds : List Descriptor) (l : Locator) (name : Option String) :
    accessesOf (probe ds l name).events =
        ((upTo (fun pass => (passAnswer l (namesOf ds pass)).isSome) (passes name)).flatMap
          fun pass => passTrace l (namesOf ds pass)) ∧
      (probe ds l name).value =
        ((passes name).findSome? fun pass => passAnswer l (namesOf ds pass)) ∧
      ((probe ds l name).value = none ↔
        ∀ pass ∈ passes name, passAnswer l (namesOf ds pass) = none) := by
  have hnames : ∀ pass : String × Option String,
      conventional ds (pass.1 ++ pass.2.getD "") = namesOf ds pass := fun _ => rfl
  have hvalue : (probe ds l name).value =
      (passes name).findSome? fun pass => passAnswer l (namesOf ds pass) := by
    rw [probe, Traced.value_firstSome, stems_eq_map_passes, List.findSome?_map]
    simp only [Function.comp_def, hnames, value_probePass]
  refine ⟨?_, hvalue, ?_⟩
  · rw [probe, Traced.events_firstSome, stems_eq_map_passes, upTo_map, List.flatMap_map,
      accessesOf_flatMap]
    simp only [hnames, value_probePass]
    congr 1
    funext pass
    exact accessesOf_probePass l _ fun n hn => isActive_of_mem_namesOf hn
  · rw [hvalue, List.findSome?_eq_none_iff]

end Resolution

end LogSetup
