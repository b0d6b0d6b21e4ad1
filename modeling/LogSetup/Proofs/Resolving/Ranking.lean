import LogSetup.Factories.Canned
import LogSetup.Loader.Table
import LogSetup.Proofs.Resolving.Places

/-!
# Ranks at an explicit location

Factories come by rank, and a location should be offered to the eligible ones in that order. A
location that is opened as such is. A location that names a resource of the loading context is first
dispatched by the origin of the resource instead of the location as it is written, and to one
factory only. Where the two differ, a later factory may answer unseen by an earlier one: the order
of ranks holds exactly when this does not happen.

## Main definitions

- `Resolution.RankPriority` : the order of ranks at a location
- `Resolution.Overlooks` : a later factory answers by the origin of the resource

## Main statements

- `Resolution.rankPriority_iff_not_overlooks` : the order of ranks, exactly
- `Resolution.not_rankPriority_unknown_origin` : a resource of unknown origin upsets it
-/

namespace LogSetup

/-! ### Lists by places -/

theorem getElem?_atPlaces (ds : List Descriptor) (i : Nat) :
    (atPlaces ds)[i]? = ds[i]?.map fun d => d.withId i := by
  rw [atPlaces, List.getElem?_map, List.getElem?_zipIdx, Option.map_map]
  simp [Function.comp_def]

/-- Of a list in ascending order, whatever is below an element stands before it. -/
theorem mem_before_of_id_lt {before after : List Descriptor} {a e : Descriptor}
    (hsorted : (before ++ a :: after).Pairwise fun x y => x.factory.id < y.factory.id)
    (he : e ∈ before ++ a :: after) (hlt : e.factory.id < a.factory.id) : e ∈ before := by
  rcases List.mem_append.mp he with he | he
  · exact he
  · have hafter := (List.pairwise_cons.mp (List.pairwise_append.mp hsorted).2.1).1
    rcases List.mem_cons.mp he with rfl | he
    · omega
    · have := hafter e he
      omega

namespace Resolution

variable {ds : List Descriptor} {l : Locator} {location : Location}

/-! ### The two ways to read a location -/

theorem value_fromResource (ds : List Descriptor) (l : Locator) (location : Location) :
    (fromResource ds l location).value =
      (l.openAsResource location).value.bind fun s => (dispatch ds s).value := by
  rw [fromResource, Traced.value_bind]
  cases (l.openAsResource location).value <;> rfl

theorem handed_fromResource (ds : List Descriptor) (l : Locator) (location : Location) :
    handed (fromResource ds l location).events =
      (l.openAsResource location).value.toList.flatMap fun s => handed (dispatch ds s).events := by
  have hopening : handed (l.openAsResource location).events = [] :=
    (l.only_openAsResource location).handed_eq_nil fun _ _ => id
  rw [fromResource, Traced.events_bind, handed_append, hopening, List.nil_append]
  cases (l.openAsResource location).value with
  | none => exact handed_nil
  | some s => exact (List.flatMap_singleton ..).symm

theorem value_fromLocation (ds : List Descriptor) (l : Locator) (location : Location) :
    (fromLocation ds l location).value =
      (l.openLocation location).value.bind fun s =>
        (firstAccepting ds s location.display).value := by
  rw [fromLocation, Traced.value_bind]
  cases (l.openLocation location).value <;> rfl

theorem handed_fromLocation (ds : List Descriptor) (l : Locator) (location : Location) :
    handed (fromLocation ds l location).events =
      (l.openLocation location).value.toList.flatMap fun s =>
        handed (firstAccepting ds s location.display).events := by
  have hopening : handed (l.openLocation location).events = [] :=
    (l.only_openLocation location).handed_eq_nil fun _ _ => id
  rw [fromLocation, Traced.events_bind, handed_append, hopening, List.nil_append]
  cases (l.openLocation location).value with
  | none => exact handed_nil
  | some s => exact (List.flatMap_singleton ..).symm

/-- The resource counts before the location. -/
theorem value_explicit (ds : List Descriptor) (l : Locator) (location : Location) :
    (explicit ds l location).value =
      (fromResource ds l location).value.or (fromLocation ds l location).value := by
  rw [explicit, Traced.value_firstSome]
  simp only [List.findSome?_cons, List.findSome?_nil]
  cases (fromResource ds l location).value <;> cases (fromLocation ds l location).value <;> rfl

/-- After an answer from the resource the location is left alone. -/
theorem handed_explicit (ds : List Descriptor) (l : Locator) (location : Location) :
    handed (explicit ds l location).events =
      handed (fromResource ds l location).events ++
        if (fromResource ds l location).value.isSome then []
        else handed (fromLocation ds l location).events := by
  rw [explicit, Traced.events_firstSome, handed_flatMap]
  by_cases hr : (fromResource ds l location).value.isSome = true
  · simp [upTo, hr]
  · simp [upTo, hr]

/-! ### The order of ranks -/

/-- A factory at a place is the first of the list that is eligible for a source by its origin. -/
def IsFirstFor (s : Source) (ds : List Descriptor) (place : Nat) (d : Descriptor) : Prop :=
  ds[place]? = some d ∧ eligibleFor s d = true ∧
    ∀ (i : Nat) (e : Descriptor), i < place → ds[i]? = some e → eligibleFor s e = false

/-- The order of ranks at a location. When the location is answered, the last factory that was
handed a source gave the answer. Every active factory before it that is eligible for the location as
it is written was handed the same source before and made nothing of it. -/
def RankPriority (ds : List Descriptor) (l : Locator) (location : Location) : Prop :=
  ∀ (c : Configuration) (before : List (Nat × Source)) (place : Nat) (s : Source),
    (explicit (atPlaces ds) l location).value = some c →
    handed (explicit (atPlaces ds) l location).events = before ++ [(place, s)] →
    ∀ (i : Nat) (e : Descriptor), i < place → ds[i]? = some e → e.isActive = true →
      e.eligible location.display = true → (i, s) ∈ before ∧ e.result s = none

/-- The first factory that is eligible by the origin of the resource answers, although an active one
before it is eligible for the location as it is written. -/
def Overlooks (ds : List Descriptor) (l : Locator) (location : Location) : Prop :=
  ∃ (s : Source) (place : Nat) (d : Descriptor),
    (l.openAsResource location).value = some s ∧ IsFirstFor s ds place d ∧
    (d.result s).isSome = true ∧
    ∃ (i : Nat) (e : Descriptor), i < place ∧ ds[i]? = some e ∧ e.isActive = true ∧
      e.eligible location.display = true

theorem find?_atPlaces_iff {s : Source} {f : Descriptor} :
    (atPlaces ds).find? (eligibleFor s) = some f ↔
      ∃ (place : Nat) (d : Descriptor), IsFirstFor s ds place d ∧ f = d.withId place := by
  rw [List.find?_eq_some_iff_getElem]
  constructor
  · rintro ⟨hf, place, hlt, rfl, hbefore⟩
    obtain ⟨d, hd, hplaced⟩ : ∃ d, ds[place]? = some d ∧ (atPlaces ds)[place] = d.withId place := by
      have h := getElem?_atPlaces ds place
      rw [List.getElem?_eq_getElem hlt] at h
      obtain ⟨d, hd, hplaced⟩ := Option.map_eq_some_iff.mp h.symm
      exact ⟨d, hd, hplaced.symm⟩
    refine ⟨place, d, ⟨hd, ?_, ?_⟩, hplaced⟩
    · rw [hplaced] at hf
      exact hf
    · intro i e hi he
      have h := hbefore i hi
      have hplace : (atPlaces ds)[i]? = some (e.withId i) := by rw [getElem?_atPlaces, he]; rfl
      rw [List.getElem?_eq_getElem (Nat.lt_trans hi hlt), Option.some.injEq] at hplace
      rw [hplace] at h
      simpa using h
  · rintro ⟨place, d, ⟨hd, hf, hbefore⟩, rfl⟩
    have hplace : (atPlaces ds)[place]? = some (d.withId place) := by
      rw [getElem?_atPlaces, hd]
      rfl
    obtain ⟨hlt, hplaced⟩ := List.getElem?_eq_some_iff.mp hplace
    refine ⟨hf, place, hlt, hplaced, fun i hi => ?_⟩
    obtain ⟨e, he⟩ : ∃ e, (atPlaces ds)[i]? = some e :=
      ⟨_, List.getElem?_eq_getElem (Nat.lt_trans hi hlt)⟩
    have h := he
    rw [getElem?_atPlaces] at h
    obtain ⟨e', he', rfl⟩ := Option.map_eq_some_iff.mp h
    rw [List.getElem?_eq_getElem (Nat.lt_trans hi hlt), Option.some.injEq] at he
    rw [he, Descriptor.eligibleFor_withId, hbefore i e' hi he']
    rfl

/-- An answer from the resource comes from the first factory for it, which alone was handed a
source. -/
theorem answered_fromResource {c : Configuration}
    (h : (fromResource (atPlaces ds) l location).value = some c) :
    ∃ (s : Source) (place : Nat) (d : Descriptor),
      (l.openAsResource location).value = some s ∧ IsFirstFor s ds place d ∧
      d.result s = some c ∧
      handed (explicit (atPlaces ds) l location).events = [(place, s)] := by
  have hr := h
  rw [value_fromResource, Option.bind_eq_some_iff] at hr
  obtain ⟨s, hs, hr⟩ := hr
  rw [value_dispatch, Option.bind_eq_some_iff] at hr
  obtain ⟨f, hf, hc⟩ := hr
  obtain ⟨place, d, hfirst, rfl⟩ := find?_atPlaces_iff.mp hf
  have hactive : (d.withId place).isActive = true := Descriptor.isActive_of_result hc
  refine ⟨s, place, d, hs, hfirst, hc, ?_⟩
  rw [handed_explicit, handed_fromResource, hs, h]
  simp [handed_dispatch, hf, hactive]

/-- The first factory for the resource answers if it makes a configuration of it. -/
theorem fromResource_of_isFirstFor {s : Source} {place : Nat} {d : Descriptor} {c : Configuration}
    (hs : (l.openAsResource location).value = some s) (hfirst : IsFirstFor s ds place d)
    (hc : d.result s = some c) : (fromResource (atPlaces ds) l location).value = some c := by
  have hf := find?_atPlaces_iff.mpr ⟨place, d, hfirst, rfl⟩
  rw [value_fromResource, hs, Option.bind_some, value_dispatch, hf]
  exact hc

/-- An answer from the location comes after all eligible factories of lower places. -/
theorem answered_fromLocation {c : Configuration}
    (hr : (fromResource (atPlaces ds) l location).value = none)
    (h : (fromLocation (atPlaces ds) l location).value = some c) :
    ∃ (before : List (Nat × Source)) (place : Nat) (s : Source) (d : Descriptor),
      handed (explicit (atPlaces ds) l location).events = before ++ [(place, s)] ∧
      ds[place]? = some d ∧ d.result s = some c ∧
      ∀ (i : Nat) (e : Descriptor), i < place → ds[i]? = some e → e.isActive = true →
        e.eligible location.display = true → (i, s) ∈ before ∧ e.result s = none := by
  rw [value_fromLocation, Option.bind_eq_some_iff] at h
  obtain ⟨s, hs, h⟩ := h
  rw [value_firstAccepting, List.findSome?_eq_some_iff] at h
  obtain ⟨front, f, back, hsplit, hc, hfront⟩ := h
  have hsorted : (front ++ f :: back).Pairwise fun x y => x.factory.id < y.factory.id :=
    hsplit ▸ (pairwise_atPlaces ds).filter _
  have hf : f ∈ atPlaces ds := (List.mem_filter.mp (hsplit ▸ List.mem_append_right front
    List.mem_cons_self)).1
  obtain ⟨place, d, hd, rfl⟩ := mem_atPlaces.mp hf
  have hactive : (d.withId place).isActive = true := Descriptor.isActive_of_result hc
  -- those of the front have no result, so the search goes on to `d`
  have hupTo : upTo (fun e => (e.result s).isSome) (front ++ d.withId place :: back) =
      front ++ [d.withId place] :=
    upTo_append_cons (fun e he => by rw [hfront e he]; rfl) (by rw [hc]; rfl)
  have hhanded : handed (explicit (atPlaces ds) l location).events =
      handed (fromResource (atPlaces ds) l location).events ++
        (front.flatMap fun e => if e.isActive then [(e.factory.id, s)] else []) ++
        [(place, s)] := by
    rw [handed_explicit, hr, handed_fromLocation, hs]
    simp [handed_firstAccepting, hsplit, hupTo, hactive]
  refine ⟨_, place, s, d, hhanded, hd, hc, fun i e hi he hea hel => ?_⟩
  have hmem : e.withId i ∈ front := by
    refine mem_before_of_id_lt hsorted ?_ hi
    rw [← hsplit, List.mem_filter]
    exact ⟨mem_atPlaces.mpr ⟨i, e, he, rfl⟩, hel⟩
  refine ⟨?_, hfront (e.withId i) hmem⟩
  refine List.mem_append_right _ (List.mem_flatMap.mpr ⟨e.withId i, hmem, ?_⟩)
  rw [Descriptor.isActive_withId, if_pos hea]
  exact List.mem_singleton_self _

/-- Whoever answers a location is the last one that was handed a source, and made the answer of
it. -/
theorem answered_explicit {c : Configuration} (h : (explicit ds l location).value = some c) :
    ∃ (before : List (Nat × Source)) (place : Nat) (s : Source) (d : Descriptor),
      handed (explicit (atPlaces ds) l location).events = before ++ [(place, s)] ∧
      ds[place]? = some d ∧ d.result s = some c := by
  rw [explicit_eq_rename, Traced.value_rename, value_explicit] at h
  cases hr : (fromResource (atPlaces ds) l location).value with
  | some c' =>
    rw [hr, Option.some_or, Option.some.injEq] at h
    subst h
    obtain ⟨s, place, d, _, hfirst, hc, hhanded⟩ := answered_fromResource hr
    exact ⟨[], place, s, d, hhanded, hfirst.1, hc⟩
  | none =>
    rw [hr, Option.none_or] at h
    obtain ⟨before, place, s, d, hhanded, hd, hc, _⟩ := answered_fromLocation hr h
    exact ⟨before, place, s, d, hhanded, hd, hc⟩

theorem not_rankPriority_of_overlooks (h : Overlooks ds l location) :
    ¬ RankPriority ds l location := by
  obtain ⟨s, place, d, hs, hfirst, hc, i, e, hi, he, hea, hel⟩ := h
  obtain ⟨c, hc⟩ := Option.isSome_iff_exists.mp hc
  have hr := fromResource_of_isFirstFor hs hfirst hc
  obtain ⟨s', place', d', hs', hfirst', hc', hhanded⟩ := answered_fromResource hr
  have hplace : (place', s') = (place, s) := by
    have hsame : s' = s := Option.some.inj (hs'.symm.trans hs)
    subst hsame
    have hf := find?_atPlaces_iff.mpr ⟨place, d, hfirst, rfl⟩
    have hf' := find?_atPlaces_iff.mpr ⟨place', d', hfirst', rfl⟩
    have := congrArg (fun f => f.factory.id) (Option.some.inj (hf'.symm.trans hf))
    exact congrArg (·, s') this
  intro hrank
  have hvalue : (explicit (atPlaces ds) l location).value = some c := by
    rw [value_explicit, hr, Option.some_or]
  have hmem := (hrank c [] place s hvalue (by rw [hhanded, hplace]; rfl) i e hi he hea hel).1
  cases hmem

theorem rankPriority_of_not_overlooks (h : ¬ Overlooks ds l location) :
    RankPriority ds l location := by
  intro c before place s hvalue hhanded i e hi he hea hel
  rw [value_explicit] at hvalue
  cases hr : (fromResource (atPlaces ds) l location).value with
  | some c' =>
    -- a factory before the one that answers would be overlooked
    obtain ⟨s', place', d, hs, hfirst, hc, hhanded'⟩ := answered_fromResource hr
    rw [hhanded', ← List.nil_append [(place', s')]] at hhanded
    obtain ⟨hplace, hsame⟩ : place' = place ∧ s' = s := by
      simpa using (List.append_inj' hhanded rfl).2
    subst hplace hsame
    exact absurd ⟨s', place', d, hs, hfirst, by rw [hc]; rfl, i, e, hi, he, hea, hel⟩ h
  | none =>
    rw [hr, Option.none_or] at hvalue
    obtain ⟨before', place', s', d, hhanded', _, _, hearlier⟩ := answered_fromLocation hr hvalue
    rw [hhanded'] at hhanded
    obtain ⟨hbefore, hlast⟩ := List.append_inj' hhanded rfl
    obtain ⟨hplace, hsame⟩ : place' = place ∧ s' = s := by simpa using hlast
    subst hplace hsame hbefore
    exact hearlier i e hi he hea hel

/-- At an explicit location the order of ranks holds exactly when no factory that is eligible by the
origin of the resource overlooks one that is eligible for the location. The run by places tells the
place that answers: it is the last that was handed a source. -/
theorem rankPriority_iff_not_overlooks (ds : List Descriptor) (l : Locator) (location : Location) :
    explicit ds l location = (explicit (atPlaces ds) l location).rename (idAt ds) ∧
    (∀ c, (explicit ds l location).value = some c →
      ∃ (before : List (Nat × Source)) (place : Nat) (s : Source) (d : Descriptor),
        handed (explicit (atPlaces ds) l location).events = before ++ [(place, s)] ∧
        ds[place]? = some d ∧ d.result s = some c) ∧
    (RankPriority ds l location ↔ ¬ Overlooks ds l location) := by
  refine ⟨explicit_eq_rename ds l location, fun c hc => answered_explicit hc, ?_, ?_⟩
  · intro hrank hoverlooks
    exact not_rankPriority_of_overlooks hoverlooks hrank
  · exact rankPriority_of_not_overlooks

/-- A loader that gives its resources no origin upsets the order of ranks: the factory for `.xml`
does not see `app.xml`, which the factory for all locations takes. -/
theorem not_rankPriority_unknown_origin :
    ¬ RankPriority
      [.ofFactory "f1" 10 (Canned.factory ⟨0, "f1", [".xml"], .accept, true, none⟩),
        .ofFactory "f2" 20 (Canned.factory ⟨1, "f2", [anyType], .accept, true, none⟩)]
      ⟨⟨"main", 0⟩, (TableLoader.mk [("app.xml", .data [])]).loader (.empty [])⟩
      (.path "app.xml") := by
  refine not_rankPriority_of_overlooks
    ⟨Source.ofBytes [], 1, _, rfl, ⟨rfl, rfl, ?_⟩, rfl, 0, _, by decide, rfl, rfl, rfl⟩
  intro i e hi he
  have hzero : i = 0 := by omega
  subst hzero
  cases he
  rfl

end Resolution

end LogSetup
