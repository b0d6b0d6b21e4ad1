import LogSetup.Factories.Canned
import LogSetup.Loader.Table
import LogSetup.Proofs.Resolving.Inactive

/-!
# Factories that are consulted about a location

A location in the settings is opened as it is written. What it opens to is handed to the active
factories that declare to take the location, one after another, until one of them makes a
configuration of it. A list may hold one factory twice, so the factories are told apart by their
places, in the run by places.

## Main definitions

- `Descriptor.Declares` : a factory declares to take a location
- `Resolution.takers` : the active factories that do, with their places
- `Resolution.Consults` : the factory at a place is consulted

## Main statements

- `Resolution.single_consults` : who is consulted about a location, and what comes of it
-/

namespace LogSetup

/-- A factory declares to take a location: all of them, or those with an ending that it has. -/
def Descriptor.Declares (d : Descriptor) (location : String) : Prop :=
  ∃ t ∈ d.types, t = anyType ∨ t.toList <:+ location.toList

theorem Descriptor.eligible_iff {d : Descriptor} {location : String} :
    d.eligible location = true ↔ d.Declares location := by
  simp only [eligible, Declares, Text.endsWith, List.any_eq_true, Bool.or_eq_true, beq_iff_eq,
    List.isSuffixOf_iff_suffix]

namespace Resolution

variable {ds : List Descriptor} {s : Source} {location : String} {place : Nat} {d : Descriptor}

/-! ### Who takes a location -/

/-- The active factories that take a location, each with its place. -/
def takers (ds : List Descriptor) (location : String) : List (Descriptor × Nat) :=
  ds.zipIdx.filter fun p => p.1.isActive && p.1.eligible location

theorem mem_takers_iff :
    (d, place) ∈ takers ds location ↔
      ds[place]? = some d ∧ d.isActive = true ∧ d.Declares location := by
  rw [takers, List.mem_filter, List.mk_mem_zipIdx_iff_getElem?, Bool.and_eq_true,
    Descriptor.eligible_iff]

theorem pairwise_takers (ds : List Descriptor) (location : String) :
    (takers ds location).Pairwise fun p q => p.2 < q.2 :=
  (List.pairwise_map.mp (pairwise_atPlaces ds)).filter _

/-- Whatever numbers the factories have, the search goes through those that take the location. -/
theorem firstAccepting_eq_takers (number : Descriptor × Nat → Nat) (ds : List Descriptor)
    (s : Source) (location : String) :
    firstAccepting (ds.zipIdx.map fun p => p.1.withId (number p)) s location =
      Traced.firstSome (fun p => parseWith s (p.1.withId (number p))) (takers ds location) := by
  rw [← firstAccepting_actives, firstAccepting, actives, List.filter_filter, List.filter_map,
    Traced.firstSome_map, takers]
  congr 2
  funext p
  exact Bool.and_comm _ _

/-! ### Who is consulted -/

/-- The factory at a place is consulted about what a location opens to: it is active and declares
to take the location, and no such factory before it makes a configuration of the source. -/
structure Consults (ds : List Descriptor) (s : Source) (location : String) (place : Nat)
    (d : Descriptor) : Prop where
  listed : ds[place]? = some d
  active : d.isActive = true
  declares : d.Declares location
  unanswered : ∀ (i : Nat) (e : Descriptor), i < place → ds[i]? = some e → e.isActive = true →
    e.Declares location → e.result s = none

/-- The factories that are consulted, in order. -/
def consulted (ds : List Descriptor) (s : Source) (location : String) : List (Descriptor × Nat) :=
  upTo (fun p => (p.1.result s).isSome) (takers ds location)

theorem mem_consulted_iff :
    (d, place) ∈ consulted ds s location ↔ Consults ds s location place d := by
  rw [consulted, mem_upTo_iff (fun _ _ h => Nat.lt_asymm h) (pairwise_takers ds location),
    mem_takers_iff]
  constructor
  · rintro ⟨⟨hlisted, hactive, hdeclares⟩, hbefore⟩
    refine ⟨hlisted, hactive, hdeclares, fun i e hi he hea hed => ?_⟩
    simpa using hbefore (e, i) (mem_takers_iff.mpr ⟨he, hea, hed⟩) hi
  · intro h
    refine ⟨⟨h.listed, h.active, h.declares⟩, fun ⟨e, i⟩ he hi => ?_⟩
    obtain ⟨he, hea, hed⟩ := mem_takers_iff.mp he
    simpa using h.unanswered i e hi he hea hed

theorem pairwise_consulted (ds : List Descriptor) (s : Source) (location : String) :
    (consulted ds s location).Pairwise fun p q => p.2 < q.2 :=
  (pairwise_takers ds location).sublist (upTo_sublist _ _)

/-- Each factory that is consulted is handed the source once, and an error of it is noted. -/
theorem events_firstAccepting_consulted (number : Descriptor × Nat → Nat) (ds : List Descriptor)
    (s : Source) (location : String) :
    (firstAccepting (ds.zipIdx.map fun p => p.1.withId (number p)) s location).events =
      (consulted ds s location).flatMap fun p =>
        .parsed (number p) s :: complaint (p.1.factory.parse s) := by
  rw [firstAccepting_eq_takers, Traced.events_firstSome]
  simp only [value_parseWith]
  refine List.flatMap_congr fun p hp => ?_
  have hactive : (p.1.withId (number p)).isActive = true := (mem_consulted_iff.mp hp).active
  rw [events_parseWith, if_pos hactive]
  rfl

/-- The answer is that of the factory which was consulted and has one. -/
theorem value_firstAccepting_eq_some_iff {c : Configuration} :
    (firstAccepting ds s location).value = some c ↔
      ∃ place d, Consults ds s location place d ∧ d.factory.parse s = .ok (some c) := by
  have hnumbered := firstAccepting_eq_takers (fun p => p.1.factory.id) ds s location
  have hsame : (ds.zipIdx.map fun p => p.1.withId p.1.factory.id) = ds := List.zipIdx_map_fst 0 ds
  rw [hsame] at hnumbered
  rw [hnumbered, Traced.value_firstSome, findSome?_eq_some_iff_upTo]
  simp only [value_parseWith]
  constructor
  · rintro ⟨⟨d, place⟩, hp, hc⟩
    exact ⟨place, d, mem_consulted_iff.mp hp, Descriptor.parse_of_result hc⟩
  · rintro ⟨place, d, hconsults, hparse⟩
    refine ⟨(d, place), mem_consulted_iff.mpr hconsults, ?_⟩
    show d.result s = some c
    rw [Descriptor.result, if_pos hconsults.active, hparse]
    rfl

/-! ### A location in the settings -/

theorem single_of_openText {l : Locator} (h : (l.openText location).value = some s) :
    single ds l location = (l.openText location >>= fun _ => firstAccepting ds s location) := by
  ext1 <;> simp [single, h]

theorem single_eq_rename (ds : List Descriptor) {l : Locator}
    (h : (l.openText location).value = some s) :
    single ds l location = (single (atPlaces ds) l location).rename (idAt ds) := by
  rw [single_of_openText h, single_of_openText h, Traced.rename_bind,
    Traced.rename_of_only _ (l.only_openText location), ← firstAccepting_rename,
    map_rename_atPlaces]

/-- The source that a location of the settings opens to is handed to the factories at certain
places, once at each and in the order of the list: those of the active factories that declare to
take the location before which no such factory makes a configuration of it. An error of a factory is
told once and does not end the search, and the configuration that one of them makes is the answer.
The run by places tells the places apart. -/
theorem single_consults (ds : List Descriptor) (l : Locator) (location : String) (s : Source)
    (h : (l.openText location).value = some s) :
    single ds l location = (single (atPlaces ds) l location).rename (idAt ds) ∧
    ∃ consulted : List (Descriptor × Nat),
      consulted.Pairwise (fun p q => p.2 < q.2) ∧
      (∀ d place, (d, place) ∈ consulted ↔ Consults ds s location place d) ∧
      handed (single (atPlaces ds) l location).events = consulted.map (fun p => (p.2, s)) ∧
      (single ds l location).events = (l.openText location).events ++ consulted.flatMap (fun p =>
        .parsed p.1.factory.id s :: complaint (p.1.factory.parse s)) ∧
      ∀ c, (single ds l location).value = some c ↔
        ∃ place d, Consults ds s location place d ∧ d.factory.parse s = .ok (some c) := by
  refine ⟨single_eq_rename ds h, consulted ds s location, pairwise_consulted ds s location,
    fun d place => mem_consulted_iff, ?_, ?_, fun c => ?_⟩
  · have hopening : handed (l.openText location).events = [] :=
      (l.only_openText location).handed_eq_nil fun _ _ => id
    rw [single_of_openText h, Traced.events_bind, handed_append, hopening, List.nil_append,
      atPlaces, events_firstAccepting_consulted, handed_flatMap, List.map_eq_flatMap]
    refine List.flatMap_congr fun p _ => ?_
    show (p.2, s) :: handed (complaint _) = _
    rw [handed_complaint]
  · have hids : ds.zipIdx.map (fun p => p.1.withId p.1.factory.id) = ds := List.zipIdx_map_fst 0 ds
    rw [single_of_openText h, Traced.events_bind, ← events_firstAccepting_consulted, hids]
  · rw [single_of_openText h, Traced.value_bind]
    exact value_firstAccepting_eq_some_iff

/-- Factories of every kind: one that declines, listed twice; an inactive one; one with the empty
ending, which fails; one for other locations; one that takes any; and one after it. -/
def mixed : List Descriptor :=
  let declining := Canned.factory ⟨0, "a", [".json", ".xml"], .decline, true, none⟩
  [.ofFactory "a" 0 declining,
    .ofFactory "b" 0 (Canned.factory ⟨1, "b", [".xml"], .accept, false, none⟩),
    .ofFactory "a" 0 declining,
    .ofFactory "c" 0 (Canned.factory ⟨2, "c", [""], .fail "broken", true, none⟩),
    .ofFactory "d" 0 (Canned.factory ⟨3, "d", [".json"], .accept, true, none⟩),
    .ofFactory "e" 0 (Canned.factory ⟨4, "e", [anyType], .accept, true, none⟩),
    .ofFactory "f" 0 (Canned.factory ⟨5, "f", [".xml"], .accept, true, none⟩)]

/-- A locator that finds `app.xml`. -/
def shelf : Locator := ⟨⟨"main", 0⟩, (TableLoader.mk [("app.xml", .data [])]).loader (.empty [])⟩

theorem mixed_consulted :
    (shelf.openText "app.xml").value = some (.ofBytes []) ∧
    (∃ consulted : List (Descriptor × Nat),
      handed (single (atPlaces mixed) shelf "app.xml").events =
        consulted.map (fun p => (p.2, .ofBytes [])) ∧
      consulted.map Prod.snd = [0, 2, 3, 5]) ∧
    ¬ ∃ d, Consults mixed (.ofBytes []) "app.xml" 6 d := by
  have h : (shelf.openText "app.xml").value = some (.ofBytes []) := rfl
  obtain ⟨-, consulted, -, hmem, hhanded, -, -⟩ := single_consults mixed shelf "app.xml" _ h
  have hplaces : consulted.map Prod.snd = [0, 2, 3, 5] := by
    have := congrArg (List.map Prod.fst) hhanded
    rw [List.map_map] at this
    exact this.symm
  refine ⟨h, ⟨consulted, hhanded, hplaces⟩, fun ⟨d, hd⟩ => ?_⟩
  have hplace : 6 ∈ consulted.map Prod.snd := List.mem_map.mpr ⟨_, (hmem d 6).mpr hd, rfl⟩
  rw [hplaces] at hplace
  simp at hplace

end Resolution

end LogSetup
