import LogSetup.Proofs.Loader.Openings
import LogSetup.Proofs.Resolving.Answers

/-!
# Factories by their places

A list may hold one factory twice, so the events of a run do not always tell which place of the list
was reached. Resolution never looks at the number of a factory. It may therefore be run on the list
in which each factory is numbered by its place, and the run on the list as it is has the same answer
and the same events once places are read as factories.

## Main definitions

- `atPlaces` : the list in which each factory is numbered by its place
- `Traced.rename` : a call with its factories renumbered

## Main statements

- `Resolution.explicit_eq_rename` : the run on a list from the run by places
-/

namespace LogSetup

/-! ### Renumbering -/

/-- Renumber the factories in an event. -/
def Event.rename (ρ : Nat → Nat) : Event → Event
  | .parsed f s => .parsed (ρ f) s
  | .asked f => .asked (ρ f)
  | e => e

namespace Traced

variable {α β : Type} (ρ : Nat → Nat)

/-- The same call with its factories renumbered. -/
def rename (x : Traced α) : Traced α := ⟨x.value, x.events.map (Event.rename ρ)⟩

@[simp] theorem value_rename (x : Traced α) : (x.rename ρ).value = x.value := rfl

@[simp] theorem rename_bind (x : Traced α) (f : α → Traced β) :
    (x >>= f).rename ρ = x.rename ρ >>= fun a => (f a).rename ρ := by
  ext1
  · rfl
  · exact List.map_append

/-- A call that reaches no factory is unchanged. -/
theorem rename_of_only {x : Traced α} (hx : x.Only Event.IsOpening) : x.rename ρ = x := by
  ext1
  · rfl
  · refine (List.map_congr_left fun e he => ?_).trans (List.map_id _)
    have hk := hx e he
    cases e with
    | parsed f s => exact hk.elim
    | asked f => exact hk.elim
    | status _ | lookup _ _ | built _ | failed _ => rfl

theorem rename_firstSome (call : α → Traced (Option β)) (as : List α) :
    (firstSome call as).rename ρ = firstSome (fun a => (call a).rename ρ) as := by
  induction as with
  | nil => rfl
  | cons a rest ih =>
    simp only [firstSome, rename_bind]
    congr 1
    funext answer
    cases answer with
    | none => exact ih
    | some b => rfl

theorem firstSome_map {γ : Type} (call : β → Traced (Option γ)) (f : α → β) (as : List α) :
    firstSome call (as.map f) = firstSome (fun a => call (f a)) as := by
  induction as with
  | nil => rfl
  | cons a rest ih => simp only [List.map_cons, firstSome, ih]

end Traced

namespace Descriptor

/-- The same factory under another number. -/
def withId (d : Descriptor) (n : Nat) : Descriptor :=
  { d with factory := { d.factory with id := n } }

@[simp] theorem id_withId (d : Descriptor) (n : Nat) : (d.withId n).factory.id = n := rfl

theorem isActive_withId (d : Descriptor) (n : Nat) : (d.withId n).isActive = d.isActive := rfl

@[simp] theorem eligibleFor_withId (d : Descriptor) (n : Nat) (s : Source) :
    Resolution.eligibleFor s (d.withId n) = Resolution.eligibleFor s d := rfl

/-- The same factory, renumbered. -/
def rename (ρ : Nat → Nat) (d : Descriptor) : Descriptor := d.withId (ρ d.factory.id)

end Descriptor

namespace Resolution

variable (ρ : Nat → Nat)

theorem parseWith_rename (s : Source) (d : Descriptor) :
    parseWith s (d.rename ρ) = (parseWith s d).rename ρ := by
  ext1
  · rw [Traced.value_rename, value_parseWith, value_parseWith]
    rfl
  · have hcomplaint : ∀ a, (complaint a).map (Event.rename ρ) = complaint a := by
      intro a
      cases a <;> rfl
    rw [Traced.rename, events_parseWith, events_parseWith]
    by_cases hd : d.isActive = true
    · have hd' : (d.rename ρ).isActive = true := hd
      rw [if_pos hd, if_pos hd', List.map_cons, hcomplaint]
      rfl
    · have hd' : ¬ (d.rename ρ).isActive = true := hd
      rw [if_neg hd, if_neg hd', List.map_nil]

theorem firstAccepting_rename (ds : List Descriptor) (s : Source) (location : String) :
    firstAccepting (ds.map (Descriptor.rename ρ)) s location =
      (firstAccepting ds s location).rename ρ := by
  rw [firstAccepting, firstAccepting, Traced.rename_firstSome, List.filter_map,
    Traced.firstSome_map]
  simp only [parseWith_rename]
  rfl

theorem dispatch_rename (ds : List Descriptor) (s : Source) :
    dispatch (ds.map (Descriptor.rename ρ)) s = (dispatch ds s).rename ρ := by
  have hfind : (ds.map (Descriptor.rename ρ)).find? (eligibleFor s) =
      (ds.find? (eligibleFor s)).map (Descriptor.rename ρ) := List.find?_map
  rw [dispatch, dispatch, hfind]
  cases ds.find? (eligibleFor s) with
  | none => rfl
  | some d =>
    simp only [Option.map_some, Traced.rename_bind, parseWith_rename]
    congr 1
    funext answer
    cases answer <;> rfl

/-- Resolution does not look at the numbers of factories: renumbering the list renumbers the
events, and nothing else. -/
theorem explicit_rename (ds : List Descriptor) (l : Locator) (location : Location) :
    explicit (ds.map (Descriptor.rename ρ)) l location = (explicit ds l location).rename ρ := by
  rw [explicit, explicit, Traced.rename_firstSome]
  simp only [Traced.firstSome]
  -- opening reaches no factory, so that only what follows it is renumbered
  have hresource : fromResource (ds.map (Descriptor.rename ρ)) l location =
      (fromResource ds l location).rename ρ := by
    rw [fromResource, fromResource, Traced.rename_bind,
      Traced.rename_of_only ρ (l.only_openAsResource location)]
    congr 1
    funext source
    cases source with
    | none => rfl
    | some s => exact dispatch_rename ρ ds s
  have hlocation : fromLocation (ds.map (Descriptor.rename ρ)) l location =
      (fromLocation ds l location).rename ρ := by
    rw [fromLocation, fromLocation, Traced.rename_bind,
      Traced.rename_of_only ρ (l.only_openLocation location)]
    congr 1
    funext source
    cases source with
    | none => rfl
    | some s => exact firstAccepting_rename ρ ds s location.display
  rw [hresource, hlocation]

end Resolution

/-! ### Places -/

/-- The factories of a list, each numbered by its place. -/
def atPlaces (ds : List Descriptor) : List Descriptor := ds.zipIdx.map fun p => p.1.withId p.2

/-- The number of the factory at a place. -/
def idAt (ds : List Descriptor) (place : Nat) : Nat := (ds[place]?.map (·.factory.id)).getD 0

theorem mem_atPlaces {ds : List Descriptor} {e : Descriptor} :
    e ∈ atPlaces ds ↔ ∃ (i : Nat) (d : Descriptor), ds[i]? = some d ∧ d.withId i = e := by
  constructor
  · intro he
    obtain ⟨⟨d, i⟩, hd, rfl⟩ := List.mem_map.mp he
    exact ⟨i, d, List.mk_mem_zipIdx_iff_getElem?.mp hd, rfl⟩
  · rintro ⟨i, d, hd, rfl⟩
    exact List.mem_map.mpr ⟨(d, i), List.mk_mem_zipIdx_iff_getElem?.mpr hd, rfl⟩

/-- Numbers ascend along the list. -/
theorem pairwise_atPlaces (ds : List Descriptor) :
    (atPlaces ds).Pairwise fun a b => a.factory.id < b.factory.id := by
  have hsnd : (ds.zipIdx.map Prod.snd).Pairwise (· < ·) := by
    rw [List.zipIdx_map_snd]
    exact List.pairwise_lt_range'
  rw [List.pairwise_map] at hsnd
  exact List.pairwise_map.mpr hsnd

/-- Reading places as factories gives the list back. -/
theorem map_rename_atPlaces (ds : List Descriptor) :
    (atPlaces ds).map (Descriptor.rename (idAt ds)) = ds := by
  rw [atPlaces, List.map_map]
  refine (List.map_congr_left fun p hp => ?_).trans (List.zipIdx_map_fst 0 ds)
  have hd : ds[p.2]? = some p.1 := List.mem_zipIdx_iff_getElem?.mp hp
  simp only [Function.comp_apply, Descriptor.rename, Descriptor.id_withId, idAt, hd]
  rfl

/-- The run on a list is the run by places, with places read as factories. -/
theorem Resolution.explicit_eq_rename (ds : List Descriptor) (l : Locator) (location : Location) :
    explicit ds l location = (explicit (atPlaces ds) l location).rename (idAt ds) := by
  rw [← explicit_rename, map_rename_atPlaces]

end LogSetup
