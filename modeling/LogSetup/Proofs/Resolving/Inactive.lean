import LogSetup.Proofs.Resolving.Override
import LogSetup.Proofs.Resolving.Ranking

/-!
# Inactive factories

An inactive factory is handed nothing and answers nothing, so every stage that tries the factories
one after another goes on as if it were not listed. A source whose place names its factory is handed
to the first eligible factory only: there an inactive factory refuses on behalf of all that come
after it.

## Main definitions

- `Traced.Alike` : calls with the same answer that hand the same sources to the same factories
- `Resolution.actives` : the active factories of a list
- `Resolution.IsBarred` : a source that an inactive factory keeps from the active ones
- `Request.IsBarred` : a request whose resource is barred

## Main statements

- `Resolution.resolve_actives` : without a barred resource, inactive factories do not matter
- `Resolution.resolve_of_isBarred` : a barred resource does not count
-/

namespace LogSetup

namespace Traced

variable {α β : Type}

/-- Calls with the same answer that hand the same sources to the same factories, in order. -/
structure Alike (x y : Traced α) : Prop where
  value : x.value = y.value
  handed : handed x.events = handed y.events

namespace Alike

variable {x y : Traced α}

theorem refl (x : Traced α) : x.Alike x := ⟨rfl, rfl⟩

theorem of_eq (h : x = y) : x.Alike y := h ▸ refl x

theorem bind {f g : α → Traced β} (h : x.Alike y) (hfg : (f x.value).Alike (g x.value)) :
    (x >>= f).Alike (y >>= g) := by
  constructor
  · rw [value_bind, value_bind, ← h.value]
    exact hfg.value
  · rw [events_bind, events_bind, handed_append, handed_append, ← h.value, h.handed, hfg.handed]

/-- Searches whose calls are alike are alike. -/
theorem firstSome {call call' : α → Traced (Option β)} {as bs : List α}
    (h : List.Forall₂ (fun a b => (call a).Alike (call' b)) as bs) :
    (firstSome call as).Alike (firstSome call' bs) := by
  induction h with
  | nil => exact refl _
  | cons hab _ ih =>
    refine hab.bind ?_
    split
    · exact refl _
    · exact ih

end Alike

/-- A search may leave out calls that do nothing. -/
theorem firstSome_filter {call : α → Traced (Option β)} {p : α → Bool}
    (h : ∀ a, p a = false → call a = pure none) (as : List α) :
    firstSome call (as.filter p) = firstSome call as := by
  induction as with
  | nil => rfl
  | cons a rest ih =>
    cases ha : p a with
    | true => rw [List.filter_cons_of_pos ha, firstSome, firstSome, ih]
    | false =>
      rw [List.filter_cons_of_neg (by simp [ha]), ih, firstSome, h a ha]
      rfl

end Traced

namespace Resolution

open Traced

variable {ds : List Descriptor} {s : Source} {d : Descriptor} {r : Request}

/-- The active factories of a list, in order. -/
def actives (ds : List Descriptor) : List Descriptor := ds.filter Descriptor.isActive

theorem filter_actives (ds : List Descriptor) (p : Descriptor → Bool) :
    (actives ds).filter p = (ds.filter p).filter Descriptor.isActive := by
  rw [actives, List.filter_filter, List.filter_filter]
  apply List.filter_congr
  intro d _
  exact Bool.and_comm _ _

/-! ### Stages that try the factories one after another -/

theorem parseWith_of_inactive (s : Source) (h : d.isActive = false) : parseWith s d = pure none := by
  rw [parseWith, Descriptor.parse, h]
  rfl

theorem firstAccepting_actives (ds : List Descriptor) (s : Source) (location : String) :
    firstAccepting (actives ds) s location = firstAccepting ds s location := by
  rw [firstAccepting, firstAccepting, filter_actives]
  apply firstSome_filter
  intro d hd
  exact parseWith_of_inactive s hd

theorem fromLocation_actives (ds : List Descriptor) (l : Locator) (location : Location) :
    fromLocation (actives ds) l location = fromLocation ds l location := by
  simp only [fromLocation, firstAccepting_actives]

theorem single_actives (ds : List Descriptor) (l : Locator) (location : String) :
    single (actives ds) l location = single ds l location := by
  simp only [single, firstAccepting_actives]

theorem all_actives (ds : List Descriptor) (l : Locator) (locations : List String) :
    all (actives ds) l locations = all ds l locations := by
  induction locations with
  | nil => rfl
  | cons location rest ih => simp only [all, single_actives, ih]

/-- An override does not see inactive factories. -/
theorem override_actives (ds : List Descriptor) (l : Locator) (raw : String) :
    override (actives ds) l raw = override ds l raw := by
  simp only [override, only, single_actives, all_actives]

/-- Inactive factories are not asked directly. -/
theorem askWildcards_actives (ds : List Descriptor) (r : Request) :
    askWildcards (actives ds) r = askWildcards ds r := by
  rw [askWildcards, askWildcards, filter_actives]
  apply firstSome_filter
  intro d hd
  rw [Descriptor.configurationFor, hd]
  rfl

/-- No name is probed for an inactive factory. -/
theorem probe_actives (ds : List Descriptor) (l : Locator) (name : Option String) :
    probe (actives ds) l name = probe ds l name := by
  have hconventional : ∀ stem, conventional (actives ds) stem = conventional ds stem := by
    intro stem
    rw [conventional, actives, List.filter_filter]
    simp only [Bool.and_self]
    rfl
  simp only [probe, hconventional]

/-! ### The one factory that comes first for a source -/

/-- The first factory that is eligible for a source is inactive, and an active one is eligible
too. -/
def IsBarred (ds : List Descriptor) (s : Source) : Prop :=
  ∃ d, ds.find? (eligibleFor s) = some d ∧ d.isActive = false ∧
    ∃ e ∈ actives ds, eligibleFor s e = true

theorem find?_actives_of_active (h : ds.find? (eligibleFor s) = some d) (hd : d.isActive = true) :
    (actives ds).find? (eligibleFor s) = some d := by
  obtain ⟨heligible, before, after, rfl, hbefore⟩ := List.find?_eq_some_iff_append.mp h
  have hfilter : actives (before ++ d :: after) = actives before ++ d :: actives after := by
    rw [actives, List.filter_append, List.filter_cons_of_pos hd]
    rfl
  rw [hfilter]
  refine List.find?_eq_some_iff_append.mpr ⟨heligible, _, _, rfl, fun a ha => ?_⟩
  exact hbefore a (List.mem_filter.mp ha).1

/-- The factory that a source goes to among the active ones, unless the source is barred. -/
theorem find?_actives (h : ¬ IsBarred ds s) :
    (actives ds).find? (eligibleFor s) =
      (ds.find? (eligibleFor s)).filter Descriptor.isActive := by
  cases hfind : ds.find? (eligibleFor s) with
  | none =>
    refine List.find?_eq_none.mpr fun d hd => ?_
    exact List.find?_eq_none.mp hfind d (List.mem_filter.mp hd).1
  | some d =>
    cases hd : d.isActive with
    | true =>
      rw [find?_actives_of_active hfind hd]
      simp [Option.filter, hd]
    | false =>
      have hnone : (actives ds).find? (eligibleFor s) = none := by
        refine List.find?_eq_none.mpr fun e he heligible => ?_
        exact h ⟨d, hfind, hd, e, he, heligible⟩
      rw [hnone]
      simp [Option.filter, hd]

/-- A source that is not barred goes to the same factory with or without the inactive ones. -/
theorem dispatch_actives (h : ¬ IsBarred ds s) : (dispatch ds s).Alike (dispatch (actives ds) s) := by
  have hfind := find?_actives h
  constructor
  · rw [value_dispatch, value_dispatch, hfind]
    cases ds.find? (eligibleFor s) with
    | none => rfl
    | some d =>
      cases hd : d.isActive with
      | true => simp [Option.filter, hd]
      | false => simp [Option.filter, hd, Descriptor.result]
  · rw [handed_dispatch, handed_dispatch, hfind]
    cases ds.find? (eligibleFor s) with
    | none => rfl
    | some d =>
      cases hd : d.isActive with
      | true => simp [Option.filter, hd]
      | false => simp [Option.filter, hd]

/-- A barred source is handed to nobody. -/
theorem dispatch_of_isBarred (h : IsBarred ds s) :
    (dispatch ds s).value = none ∧ handed (dispatch ds s).events = [] := by
  obtain ⟨d, hfind, hd, -⟩ := h
  constructor
  · rw [value_dispatch, hfind, Option.bind_some, Descriptor.result, hd]
    rfl
  · rw [handed_dispatch, hfind]
    simp [hd]

end Resolution

/-! ### Requests -/

/-- The location of a request names a resource that is barred. -/
def Request.IsBarred (r : Request) (ds : List Descriptor) : Prop :=
  ∃ location s, r.location = some location ∧ (r.locator.openAsResource location).value = some s ∧
    Resolution.IsBarred ds s

namespace Resolution

open Traced

variable {ds : List Descriptor} {s : Source} {d : Descriptor} {r : Request} {l : Locator}
  {location : Location}

theorem fromResource_actives
    (h : ∀ s, (l.openAsResource location).value = some s → ¬ IsBarred ds s) :
    (fromResource ds l location).Alike (fromResource (actives ds) l location) := by
  refine (Alike.refl (l.openAsResource location)).bind ?_
  cases hs : (l.openAsResource location).value with
  | none => exact Alike.refl _
  | some s => exact dispatch_actives (h s hs)

theorem explicit_actives
    (h : ∀ s, (l.openAsResource location).value = some s → ¬ IsBarred ds s) :
    (explicit ds l location).Alike (explicit (actives ds) l location) := by
  have hresource := fromResource_actives h
  constructor
  · rw [value_explicit, value_explicit, hresource.value, fromLocation_actives]
  · rw [handed_explicit, handed_explicit, hresource.value, hresource.handed, fromLocation_actives]

/-- A location whose resource is barred is only opened as it is written. -/
theorem explicit_of_isBarred (hs : (l.openAsResource location).value = some s)
    (h : IsBarred ds s) : (explicit ds l location).Alike (fromLocation (actives ds) l location) := by
  obtain ⟨hvalue, hhanded⟩ := dispatch_of_isBarred h
  have hnone : (fromResource ds l location).value = none := by
    rw [value_fromResource, hs, Option.bind_some, hvalue]
  have hnobody : handed (fromResource ds l location).events = [] := by
    rw [handed_fromResource, hs]
    simp [hhanded]
  constructor
  · rw [value_explicit, hnone, Option.none_or, fromLocation_actives]
  · rw [handed_explicit, hnone, hnobody, fromLocation_actives]
    rfl

theorem orFallback_congr {stages stages' : List (Traced (Option Configuration))}
    (h : List.Forall₂ Alike stages stages') : (orFallback stages).Alike (orFallback stages') := by
  refine (Alike.firstSome h).bind ?_
  exact Alike.refl _

/-- Unless the resource of a request is barred, inactive factories do not matter. -/
theorem resolve_actives (settings : Settings) (h : ¬ r.IsBarred ds) :
    (resolve ds settings r).Alike (resolve (actives ds) settings r) := by
  have hprobe : (probe ds r.locator (probeName r)).Alike
      (probe (actives ds) r.locator (probeName r)) :=
    .of_eq (probe_actives ds r.locator (probeName r)).symm
  rw [resolve, resolve]
  cases hlocation : r.location with
  | some location =>
    have hopen : ∀ s, (r.locator.openAsResource location).value = some s → ¬ IsBarred ds s := by
      intro s hs hbarred
      exact h ⟨location, s, hlocation, hs, hbarred⟩
    exact orFallback_congr (.cons (explicit_actives hopen) (.cons hprobe .nil))
  | none =>
    cases settings.get? fileSetting with
    | some raw => exact .of_eq (override_actives ds r.locator raw).symm
    | none =>
      have hask : (askWildcards ds r).Alike (askWildcards (actives ds) r) :=
        .of_eq (askWildcards_actives ds r).symm
      exact orFallback_congr (.cons hask (.cons hprobe .nil))

/-- A request whose resource is barred is answered from its location as it is written, or else by
probing, as if the resource were not there. -/
theorem resolve_of_isBarred (settings : Settings) (hlocation : r.location = some location)
    (hs : (r.locator.openAsResource location).value = some s) (h : IsBarred ds s) :
    (resolve ds settings r).Alike
      (orFallback [fromLocation (actives ds) r.locator location,
        probe (actives ds) r.locator (probeName r)]) := by
  have hprobe : (probe ds r.locator (probeName r)).Alike
      (probe (actives ds) r.locator (probeName r)) :=
    .of_eq (probe_actives ds r.locator (probeName r)).symm
  rw [resolve, hlocation]
  exact orFallback_congr (.cons (explicit_of_isBarred hs h) (.cons hprobe .nil))

end Resolution

end LogSetup
