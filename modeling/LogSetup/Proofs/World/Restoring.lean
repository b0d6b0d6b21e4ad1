import LogSetup.Proofs.World.Choice

/-!
# Setting the active factory to itself

The stages of resolution are reached in two ways: directly where no factory was set, and as a
factory where they were set themselves. A factory cannot pass on why an override failed, so it
reports that and refuses. Otherwise the two ways agree, and a factory that is asked for and set again
gives the answers that it gave before.

## Main definitions

- `World.restored` : the state after the active factory was asked for and set again
- `World.Restores` : how the answers before and after that are related

## Main statements

- `World.getConfiguration_restored` : the answers before and after, in every state
- `World.not_forall_restored_alike` : an override that fails is refused afterwards
-/

namespace LogSetup

namespace Resolution

variable {ds : List Descriptor} {settings : Settings} {r : Request} {e : ResolveError}

/-- Only an override fails. -/
theorem error_of_resolve (h : (resolve ds settings r).value = .error e) :
    ∃ text, settings.get? fileSetting = some text ∧
      (override ds r.locator text).value = .error e := by
  rw [resolve] at h
  cases hlocation : r.location with
  | some location =>
    simp only [hlocation, value_orFallback] at h
    cases h
  | none =>
    cases htext : settings.get? fileSetting with
    | some text =>
      simp only [hlocation, htext] at h
      exact ⟨text, rfl, h⟩
    | none =>
      simp only [hlocation, htext, value_orFallback] at h
      cases h

end Resolution

namespace World

open Resolution

variable {w : World} {name : Option String} {location : Option Location} {c : LoadingContext}

/-- The state after the active factory was asked for and set again. -/
def restored (w : World) : World := w.activeFactory.value.2.setActive w.activeFactory.value.1

theorem active_restored (w : World) : w.restored.active = some w.currentActive := rfl

/-- The list that was made when the factory was asked for is the one that would be made later. -/
theorem listed_restored (w : World) : w.restored.listed = w.listed := by
  have hcatalog : ∀ (k : Catalog) (d d' : Traced (List Descriptor)),
      ((k.factories d).value.2.factories d').value.1 = (k.factories d).value.1 := by
    rintro ⟨holder, initialized, list⟩ d d'
    cases initialized <;> rfl
  exact hcatalog w.catalog w.discovery w.restored.discovery

/-- What the stages of resolution answer as a factory. -/
def asFactory : Except ResolveError Configuration → Except ResolveError Configuration
  | .error (.compositeAborted _) | .error (.overrideUnresolved _) | .error (.declined _) =>
    .error (.declined ActiveFactory.resolvingName)
  | answer => answer

theorem value_getConfigurationIn_of_none (hactive : w.active = none) :
    (w.getConfigurationIn name location c).value.1 =
      (Resolution.resolve w.listed w.settings (w.request name location c)).value := by
  rw [getConfigurationIn, hactive]
  rfl

theorem value_getConfigurationIn_of_resolving (hactive : w.active = some .resolving) :
    (w.getConfigurationIn name location c).value.1 =
      asFactory (Resolution.resolve w.listed w.settings (w.request name location c)).value := by
  rw [getConfigurationIn, hactive]
  simp only [configurationFor, resolveAsFactory, Traced.value_bind]
  have hresolve : (w.resolve (w.request name location c)).value.1 =
      (Resolution.resolve w.listed w.settings (w.request name location c)).value := rfl
  rw [hresolve]
  cases (Resolution.resolve w.listed w.settings (w.request name location c)).value with
  | ok configuration => rfl
  | error e => cases e <;> rfl

theorem value_getConfigurationIn_of_custom {f : Factory} (hactive : w.active = some (.custom f)) :
    (w.getConfigurationIn name location c).value.1 =
      match (f.configurationFor (w.request name location c)).value with
      | .ok (some configuration) => .ok configuration
      | .ok none => .error (.declined f.name)
      | .error e => .error (.factory e) := by
  rw [getConfigurationIn, hactive]
  simp only [configurationFor, Traced.value_bind, Traced.value_pure]
  cases (f.configurationFor (w.request name location c)).value with
  | ok answer => cases answer <;> rfl
  | error e => rfl

/-- How the answer after the active factory was asked for and set again is related to the answer
before: they agree, unless no factory was set and the answer is the error of an override, which is
then a refusal. -/
structure Restores (w : World) (before after : Except ResolveError Configuration) : Prop where
  alike_iff : after = before ↔ (w.active = none → ∃ configuration, before = .ok configuration)
  refused : w.active = none → ∀ e, before = .error e →
    after = .error (.declined ActiveFactory.resolvingName) ∧
      ∃ text, w.settings.get? fileSetting = some text ∧
        ∃ seg ∈ locationsOf text, e = .compositeAborted seg ∨ e = .overrideUnresolved seg

theorem restores_of_eq {before after : Except ResolveError Configuration} {f : ActiveFactory}
    (hactive : w.active = some f) (h : after = before) : w.Restores before after := by
  have hset : w.active ≠ none := by
    rw [hactive]
    exact Option.some_ne_none f
  constructor
  · exact iff_of_true h fun hnone => absurd hnone hset
  · intro hnone
    exact absurd hnone hset

theorem getConfigurationIn_restored (w : World) (name : Option String) (location : Option Location)
    (c : LoadingContext) :
    w.Restores (w.getConfigurationIn name location c).value.1
      (w.restored.getConfigurationIn name location c).value.1 := by
  have hrestored : w.restored.active = some w.currentActive := active_restored w
  cases hactive : w.active with
  | some f =>
    refine restores_of_eq hactive ?_
    have hsame : w.restored.active = some f := by rw [hrestored, currentActive, hactive]; rfl
    cases f with
    | resolving =>
      rw [value_getConfigurationIn_of_resolving hsame, value_getConfigurationIn_of_resolving hactive,
        listed_restored]
      rfl
    | custom f =>
      rw [value_getConfigurationIn_of_custom hsame, value_getConfigurationIn_of_custom hactive]
      rfl
  | none =>
    -- the stages, which were reached directly, are now reached as a factory
    have hsame : w.restored.active = some .resolving := by rw [hrestored, currentActive, hactive]; rfl
    rw [value_getConfigurationIn_of_resolving hsame, listed_restored]
    change w.Restores _ (asFactory
      (Resolution.resolve w.listed w.settings (w.request name location c)).value)
    rw [value_getConfigurationIn_of_none hactive]
    cases hanswer : (Resolution.resolve w.listed w.settings (w.request name location c)).value with
    | ok configuration =>
      refine ⟨iff_of_true rfl fun _ => ⟨configuration, rfl⟩, fun _ e he => ?_⟩
      cases he
    | error e =>
      obtain ⟨text, htext, hfails⟩ := error_of_resolve hanswer
      obtain ⟨seg, hseg, he⟩ := error_of_override hfails
      have hrefused : asFactory (.error e) = .error (.declined ActiveFactory.resolvingName) := by
        rcases he with rfl | rfl <;> rfl
      constructor
      · refine iff_of_false (fun h => ?_) fun h => ?_
        · rw [hrefused] at h
          rcases he with rfl | rfl <;> cases h
        · obtain ⟨configuration, hok⟩ := h hactive
          cases hok
      · intro _ e' he'
        cases he'
        exact ⟨hrefused, text, htext, seg, hseg, he⟩

/-- A factory that is asked for and set again gives the answers that it gave before, in any loading
context and in that of any thread. The one exception are the stages of resolution where no factory
was set: an error of theirs, which an override left, is a refusal afterwards. -/
theorem getConfiguration_restored (w : World) :
    (∀ name location c, w.Restores (w.getConfigurationIn name location c).value.1
      (w.restored.getConfigurationIn name location c).value.1) ∧
    ∀ me name raw, w.Restores (w.getConfiguration me name raw).value.1
      (w.restored.getConfiguration me name raw).value.1 := by
  refine ⟨w.getConfigurationIn_restored, fun me name raw => ?_⟩
  have hcontext : w.restored.findContext me = w.findContext me := rfl
  simp only [getConfiguration, Traced.value_bind, hcontext]
  exact w.getConfigurationIn_restored name _ _

/-- With an override that leads nowhere, the error that blames its location is lost. -/
theorem not_forall_restored_alike :
    ¬ ∀ (w : World) (me : ThreadId) (name raw : Option String),
      (w.restored.getConfiguration me name raw).value.1 =
        (w.getConfiguration me name raw).value.1 := by
  intro h
  have halike := h
    { disk := .empty []
      stores := [.memory .empty]
      settings := .memory [(fileSetting, "missing.xml")]
      plugins := .empty
      catalog := .initial
      active := none
      context := ⟨"main", 0⟩
      manifestName := ""
      registry := .initial
      scopes := fun _ => .none } 0 none none
  have hrefused : Except.error (.declined ActiveFactory.resolvingName) =
      (Except.error (.overrideUnresolved "missing.xml") : Except ResolveError Configuration) := halike
  cases hrefused

end World

end LogSetup
