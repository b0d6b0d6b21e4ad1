import LogSetup.Proofs.Events.Runs
import LogSetup.Proofs.Providers.Replacing
import LogSetup.Proofs.Text.Pieces

/-!
# Which providers are admitted

Every way into the list leads through the reading of a manifest, which checks the version.

## Main definitions

- `Provider.IsAdmitted` : the version of a provider is compatible
- `Provider.valid?` : the provider that a candidate of discovery announces
- `ProviderRegistry.System.Admits` : all providers in the list or on their way there are admitted

## Main statements

- `Provider.value_announceAll` : discovery finds what the valid candidates announce, in their order
- `ProviderRegistry.System.admits_of_run` : only admitted providers come into the list
-/

namespace LogSetup

namespace Provider

variable {p : Provider} {source : Source} {context : LoadingContext}

/-- The version is trimmed, is not empty, and starts with a compatible one. -/
structure IsAdmitted (p : Provider) : Prop where
  trimmed : Text.trim p.version = p.version
  nonempty : p.version ≠ ""
  compatible : isCompatibleVersion p.version = true

/-- The provider that a candidate of discovery announces, if it can be opened and is valid. -/
def valid? (context : LoadingContext) : Except LoadError Source → Option Provider
  | .ok source => (ofSource source context).toOption
  | .error _ => none

theorem isAdmitted_of_ofManifest {origin : Origin} {m : Manifest}
    (h : ofManifest origin context m = .ok p) : p.IsAdmitted := by
  rw [ofManifest] at h
  cases hversion : version? m with
  | none => simp [hversion] at h
  | some version =>
    simp only [hversion] at h
    split at h
    · rename_i hcompatible
      cases hpriority : priorityOf m with
      | error text => simp [hpriority] at h
      | ok priority =>
        simp only [hpriority] at h
        cases h
        obtain ⟨value, -, hvalue⟩ := Option.bind_eq_some_iff.mp hversion
        rw [Text.nonBlank?] at hvalue
        split at hvalue
        · cases hvalue
        · cases hvalue
          exact ⟨Text.trim_trim _, ‹_›, hcompatible⟩
    · cases h

theorem isAdmitted_of_ofSource (h : ofSource source context = .ok p) : p.IsAdmitted := by
  rw [ofSource] at h
  split at h
  · cases h
  · exact isAdmitted_of_ofManifest h

theorem value_announce (source : Source) (context : LoadingContext) :
    (announce source context).value = (ofSource source context).toOption := by
  rw [announce]
  cases ofSource source context <;> rfl

/-- Discovery finds what the valid candidates announce, in their order. -/
theorem value_announceAll (context : LoadingContext) (offer : List (Except LoadError Source)) :
    (announceAll context offer).value = offer.filterMap (valid? context) := by
  induction offer with
  | nil => rfl
  | cons candidate rest ih =>
    cases candidate with
    | error e => exact ih
    | ok source =>
      rw [announceAll, Traced.value_bind, Traced.value_bind, Traced.value_pure, ih, value_announce]
      cases hsource : ofSource source context <;> simp [valid?, hsource, Except.toOption]

theorem isAdmitted_of_valid {candidate : Except LoadError Source}
    (h : valid? context candidate = some p) : p.IsAdmitted := by
  cases candidate with
  | error e => cases h
  | ok source =>
    cases hsource : ofSource source context with
    | error e => simp [valid?, hsource, Except.toOption] at h
    | ok q =>
      have hq : q = p := by simpa [valid?, hsource, Except.toOption] using h
      exact isAdmitted_of_ofSource (hq ▸ hsource)

end Provider

namespace ProviderRegistry

namespace System

variable {s s' start : System} {l : Label} {ls : List Label} {p : Provider}

/-- All providers in the list, or about to be put there, are admitted. -/
structure Admits (s : System) : Prop where
  list : ∀ p ∈ s.registry.providers, p.IsAdmitted
  pending : ∀ t stage new, s.stage t = some stage → stage.addition = some new →
    ∀ p ∈ new.providers, p.IsAdmitted

theorem Admits.of_step (h : s.Admits) (current : s.Current) (hstep : Step s l s') :
    s'.Admits := by
  constructor
  · intro p hp
    rw [providers_of_step hstep current] at hp
    split at hp
    · cases hp
    · rcases List.mem_append.mp hp with hp | hp
      · exact h.list p hp
      · cases hnew : l.addition with
        | none =>
          rw [Label.added, hnew] at hp
          cases hp
        | some new =>
          rw [Label.added, hnew] at hp
          obtain ⟨t, stage, ht, hstage⟩ := stage_of_addition hstep hnew
          exact h.pending t stage new ht hstage p hp
  · intro t stage new ht hnew p hp
    -- discovery and hosts get providers from manifests only
    rcases addition_of_step hstep ht hnew with
      ⟨before, hs, hbefore⟩ | ⟨offer, events, aim, providers, rfl, rfl, -⟩ |
        ⟨source, context, q, rfl, hq⟩
    · exact h.pending t before new hs hbefore p hp
    · have hfound : p ∈ offer.filterMap (Provider.valid? s.context) := by
        rw [← Provider.value_announceAll]
        exact hp
      obtain ⟨candidate, -, hcandidate⟩ := List.mem_filterMap.mp hfound
      exact Provider.isAdmitted_of_valid hcandidate
    · obtain rfl := List.mem_singleton.mp hp
      rw [Provider.value_announce] at hq
      have hvalid : Provider.valid? context (.ok source) = some p := hq
      exact Provider.isAdmitted_of_valid hvalid

theorem IsFresh.admits (h : start.IsFresh) : start.Admits := by
  constructor
  · intro p hp
    rw [h.registry] at hp
    cases hp
  · intro t stage new ht
    rw [h.stage t] at ht
    cases ht

/-- Only admitted providers come into the list. -/
theorem admits_of_run (fresh : start.IsFresh) (h : Run Step start ls s) : s.Admits := by
  have hall : s.Current ∧ s.Admits :=
    h.preserves (I := fun x => x.Current ∧ x.Admits) ⟨fresh.current, fresh.admits⟩
      fun _ _ _ _ hstep hx => ⟨hx.1.of_step hstep, hx.2.of_step hx.1 hstep⟩
  exact hall.2

end System

end ProviderRegistry

end LogSetup
