import LogSetup.Proofs.Loader.Openings
import LogSetup.Proofs.Resolving.Composite

/-!
# What an override can do

A run over the locations in the settings opens these locations, hands what it finds to factories,
and does nothing else. Hence it asks no factory for a configuration, and its answer is what factories
made of sources, or an error about one of the locations.

## Main definitions

- `Resolution.locationsOf` : the locations in the settings
- `Resolution.MadeBy` : a listed factory made a configuration of a source

## Main statements

- `Resolution.only_override` : the events of the run
- `Resolution.madeBy_of_override`, `Resolution.error_of_override` : its answers
-/

namespace LogSetup

/-- No factory is asked for a configuration. -/
def Event.IsUnasked : Event → Prop
  | .asked _ => False
  | _ => True

theorem Event.IsOpening.isUnasked {e : Event} (h : e.IsOpening) : e.IsUnasked := by
  cases e <;> trivial

theorem Event.IsParsing.isUnasked {e : Event} (h : e.IsParsing) : e.IsUnasked := by
  cases e <;> trivial

namespace Resolution

open Traced

variable {ds : List Descriptor} {l : Locator} {raw : String} {kind : Event → Prop}

/-- The locations in a text. A text that holds none is taken for one as it stands. -/
def locationsOf (raw : String) : List String :=
  if segments raw = [] then [raw] else segments raw

theorem locationsOf_of_two_le (h : 2 ≤ (segments raw).length) : locationsOf raw = segments raw := by
  refine if_neg fun hnone => ?_
  rw [hnone] at h
  exact absurd h (Nat.not_succ_le_zero 1)

/-- Unless there are several locations, the only one is run. -/
theorem override_eq_only_of_lt_two (h : ¬ 2 ≤ (segments raw).length) :
    ∃ seg, locationsOf raw = [seg] ∧ override ds l raw = only ds l seg := by
  rw [locationsOf]
  cases hsegs : segments raw with
  | nil => exact ⟨raw, if_pos rfl, by rw [override, hsegs]⟩
  | cons seg rest =>
    cases rest with
    | nil => exact ⟨seg, if_neg (List.cons_ne_nil _ _), override_of_segments_eq hsegs⟩
    | cons next others =>
      refine absurd ?_ h
      rw [hsegs]
      exact Nat.le_add_left 2 others.length

/-! ### Events -/

/-- A location alone is opened, and what it opens to is handed to factories. -/
theorem only_single {seg : String} (hopening : ∀ e ∈ (l.openText seg).events, kind e)
    (hparsing : ∀ e : Event, e.IsParsing → kind e) : (single ds l seg).Only kind := by
  refine Only.bind hopening ?_
  cases (l.openText seg).value with
  | none => exact only_pure _
  | some s => exact (only_firstAccepting ds s seg).imp hparsing

theorem only_all {segs : List String} (h : ∀ seg ∈ segs, (single ds l seg).Only kind)
    (hstatus : ∀ m, kind (.status m)) : (all ds l segs).Only kind := by
  induction segs with
  | nil => exact only_pure _
  | cons seg rest ih =>
    have hrest := ih fun s hs => h s (List.mem_cons_of_mem seg hs)
    refine (h seg List.mem_cons_self).bind ?_
    cases (single ds l seg).value with
    | none => exact (only_report hstatus).bind (only_pure _)
    | some c =>
      refine hrest.bind ?_
      cases (all ds l rest).value with
      | ok cs => exact only_pure _
      | error e => exact only_pure _

/-- A run over locations does what runs over single ones do, and reports. -/
theorem only_override (h : ∀ seg ∈ locationsOf raw, (single ds l seg).Only kind)
    (hstatus : ∀ m, kind (.status m)) : (override ds l raw).Only kind := by
  have honly : ∀ seg ∈ locationsOf raw, (only ds l seg).Only kind := by
    intro seg hseg e he
    rw [events_only] at he
    exact h seg hseg e he
  by_cases htwo : 2 ≤ (segments raw).length
  · rw [locationsOf_of_two_le htwo] at h
    rw [override_of_two_le htwo]
    refine (only_all h hstatus).bind ?_
    cases (all ds l (segments raw)).value with
    | ok cs => exact only_pure _
    | error e => exact only_pure _
  · obtain ⟨seg, hone, hrun⟩ := override_eq_only_of_lt_two htwo
    rw [hrun]
    exact honly seg (hone ▸ List.mem_cons_self)

/-- An override asks no factory for a configuration. -/
theorem asksOf_override (ds : List Descriptor) (l : Locator) (raw : String) :
    asksOf (override ds l raw).events = [] := by
  have hkind : (override ds l raw).Only Event.IsUnasked := by
    refine only_override (fun seg _ => only_single ?_ ?_) fun _ => trivial
    · exact fun e he => (l.only_openText seg e he).isUnasked
    · exact fun e he => he.isUnasked
  exact hkind.asksOf_eq_nil fun _ => id

/-- Every lookup of an override is made to open one of the locations. -/
theorem lookup_mem_override {loader : Nat} {q : Lookup}
    (h : .lookup loader q ∈ (override ds l raw).events) :
    ∃ seg ∈ locationsOf raw, .lookup loader q ∈ (l.openText seg).events := by
  -- the kind of events that the run may have: lookups are those of an opening
  have hkind : (override ds l raw).Only fun e => e = .lookup loader q →
      ∃ seg ∈ locationsOf raw, e ∈ (l.openText seg).events := by
    refine only_override (fun seg hseg => only_single ?_ ?_) ?_
    · intro e he _
      exact ⟨seg, hseg, he⟩
    · rintro e he rfl
      exact he.elim
    · intro m hm
      cases hm
  exact hkind _ h rfl

/-! ### Answers -/

/-- A configuration is what an active listed factory made of a source. -/
def MadeBy (ds : List Descriptor) (c : Configuration) : Prop :=
  ∃ d ∈ ds, d.isActive = true ∧ ∃ s, d.factory.parse s = .ok (some c)

theorem madeBy_of_configurationAt {seg : String} {c : Configuration}
    (h : configurationAt ds l seg = some c) : MadeBy ds c := by
  obtain ⟨s, -, hs⟩ := Option.bind_eq_some_iff.mp h
  obtain ⟨d, hd, hresult⟩ := List.exists_of_findSome?_eq_some hs
  exact ⟨d, (List.mem_filter.mp hd).1, Descriptor.isActive_of_result hresult, s,
    Descriptor.parse_of_result hresult⟩

theorem madeBy_of_only {seg : String} {c : Configuration} (h : (only ds l seg).value = .ok c) :
    MadeBy ds c := by
  have hsingle := value_only_eq_ok_iff.mp h
  rw [value_single] at hsingle
  exact madeBy_of_configurationAt hsingle

theorem madeBy_of_all {segs : List String} {cs : List Configuration}
    (h : (all ds l segs).value = .ok cs) : ∀ c ∈ cs, MadeBy ds c := by
  have hcs := all_eq_ok_iff.mp h
  clear h
  induction hcs with
  | nil => exact fun _ hc => absurd hc List.not_mem_nil
  | cons hc _ ih =>
    intro c' hc'
    rcases List.mem_cons.mp hc' with rfl | hc'
    · exact madeBy_of_only hc
    · exact ih c' hc'

/-- A configuration from the settings was made by a factory, or is a composite of such. -/
theorem madeBy_of_override {c : Configuration} (h : (override ds l raw).value = .ok c) :
    MadeBy ds c ∨ ∃ cs, c = .composite cs ∧ ∀ child ∈ cs, MadeBy ds child := by
  by_cases htwo : 2 ≤ (segments raw).length
  · obtain ⟨cs, hcs, rfl⟩ := (override_eq_ok_iff htwo).mp h
    exact .inr ⟨cs, rfl, madeBy_of_all hcs⟩
  · refine .inl ?_
    obtain ⟨seg, -, hseg⟩ := override_eq_only_of_lt_two htwo
    rw [hseg] at h
    exact madeBy_of_only h

theorem error_of_all {segs : List String} {e : ResolveError}
    (h : (all ds l segs).value = .error e) :
    ∃ seg ∈ segs, e = .compositeAborted seg := by
  induction segs with
  | nil => cases h
  | cons seg rest ih =>
    rw [all, Traced.value_bind] at h
    cases hseg : (single ds l seg).value with
    | none =>
      rw [hseg] at h
      cases h
      exact ⟨seg, List.mem_cons_self, rfl⟩
    | some c =>
      rw [hseg, Traced.value_bind] at h
      cases hrest : (all ds l rest).value with
      | ok cs => rw [hrest] at h; cases h
      | error e' =>
        rw [hrest] at h
        cases h
        obtain ⟨s, hs, he⟩ := ih hrest
        exact ⟨s, List.mem_cons_of_mem seg hs, he⟩

/-- An override that fails names the location to blame. -/
theorem error_of_override {e : ResolveError} (h : (override ds l raw).value = .error e) :
    ∃ seg ∈ locationsOf raw, e = .compositeAborted seg ∨ e = .overrideUnresolved seg := by
  by_cases htwo : 2 ≤ (segments raw).length
  · rw [override_of_two_le htwo, Traced.value_bind] at h
    rw [locationsOf_of_two_le htwo]
    cases hall : (all ds l (segments raw)).value with
    | ok cs => rw [hall] at h; cases h
    | error e' =>
      rw [hall] at h
      cases h
      obtain ⟨seg, hseg, he⟩ := error_of_all hall
      exact ⟨seg, hseg, .inl he⟩
  · obtain ⟨seg, hone, hseg⟩ := override_eq_only_of_lt_two htwo
    rw [hseg, value_only] at h
    refine ⟨seg, hone ▸ List.mem_cons_self, .inr ?_⟩
    cases hc : configurationAt ds l seg with
    | some c => rw [hc] at h; cases h
    | none => rw [hc] at h; cases h; rfl

end Resolution

end LogSetup
