import LogSetup.Proofs.Providers.System

/-!
# Putting providers behind the list

A thread puts providers behind the list without taking the lock: it fetches the list, makes a longer
one, and puts that in the place of the one it fetched, provided that this is still there. As every
replacement makes a new edition, a thread that succeeds has seen the present list. So nothing that
others have put there is lost.

## Main definitions

- `ProviderRegistry.Label.addition` : what a step put behind the list
- `ProviderRegistry.Label.installs`, `ProviderRegistry.Label.loaded` : what discovery and what a
  host put there
- `ProviderRegistry.System.Current` : who has seen the present edition has seen the present list

## Main statements

- `ProviderRegistry.System.stage_of_step` : how a thread came to its stage
- `ProviderRegistry.System.providers_of_step` : what a step does to the list
-/

namespace LogSetup.ProviderRegistry

/-- What a thread is about to put behind the list. -/
def Stage.addition : Stage → Option Addition
  | .extend new | .swap new _ _ => some new
  | _ => none

namespace Label

/-- What a step put behind the list. -/
def addition : Label → Option Addition
  | .did _ _ (.swap (.found aim providers) _ _) (.publish _) _ => some (.found aim providers)
  | .did _ _ (.swap (.installed p) _ _) (.loaded _) _ => some (.installed p)
  | _ => none

/-- The providers that a step put behind the list. -/
def added (l : Label) : List Provider := l.addition.elim [] Addition.providers

/-- Discovery put what it found into the list. -/
def installs (l : Label) : Bool :=
  match l.addition with
  | some (.found _ _) => true
  | _ => false

/-- The provider that a host put into the list, as its call returns it. -/
def loaded : Label → Option Provider
  | .did _ _ (.swap (.installed _) _ _) (.loaded p) _ => p
  | _ => none

/-- A step dropped all providers. -/
def empties : Label → Bool
  | .did _ _ .empty _ _ => true
  | _ => false

end Label

/-! ### What one step does -/

section Step

variable {discovery : Traced (List Provider)} {me : ThreadId} {stage : Stage} {r : ProviderRegistry}
  {next : Traced (Stage × ProviderRegistry)}

/-- From where a call comes to a stage. -/
theorem before_of_step (h : step? discovery me stage r = some next) :
    match next.value.1 with
    | .giveUp aim => stage = .wait aim
    | .discover aim => stage = .lookAgain aim
    | .extend (.found aim providers) => stage = .discover aim ∧ providers = discovery.value
    | .extend (.installed p) => ∃ source context, stage = .read source context ∧
        (Provider.announce source context).value = some p
    | .swap new seen edition =>
        (stage = .extend new ∨ ∃ seen edition, stage = .swap new seen edition) ∧
        seen = r.providers ∧ edition = r.edition ∧ next.value.2 = r
    | .publish aim => ∃ providers seen, stage = .swap (.found aim providers) seen r.edition
    | .release aim => stage = .publish aim ∨ stage = .lookAgain aim ∧ r.isInitialized = true
    | .fetch aim => stage = .release aim ∨ stage = .giveUp aim ∨
        stage = .look aim ∧ r.isInitialized = true
    | .fetched none => stage = .fetch .ensure
    | .fetched (some providers) => stage = .fetch .list ∧ providers = r.providers
    | .loaded (some p) => ∃ seen, stage = .swap (.installed p) seen r.edition
    | _ => True := by
  cases stage with
  | look aim =>
    cases h
    cases hflag : r.isInitialized with
    | true => exact .inr (.inr ⟨rfl, rfl⟩)
    | false => trivial
  | wait aim =>
    simp only [step?] at h
    split at h
    · cases h
      rfl
    · cases h
      trivial
    · cases h
  | giveUp aim =>
    cases h
    exact .inr (.inl rfl)
  | lookAgain aim =>
    cases h
    cases hflag : r.isInitialized with
    | true => exact .inr ⟨rfl, rfl⟩
    | false => rfl
  | discover aim =>
    cases h
    exact ⟨rfl, rfl⟩
  | extend new =>
    cases h
    exact ⟨.inl rfl, rfl, rfl, rfl⟩
  | swap new seen edition =>
    cases h
    by_cases hedition : r.edition = edition
    · subst hedition
      cases new with
      | found aim providers =>
        simp only [Traced.value_pure, if_true, Addition.next]
        exact ⟨providers, seen, rfl⟩
      | installed p =>
        simp only [Traced.value_pure, if_true, Addition.next]
        exact ⟨seen, rfl⟩
    · simp only [Traced.value_pure, if_neg hedition]
      exact ⟨.inr ⟨seen, edition, rfl⟩, trivial, trivial, trivial⟩
  | publish aim =>
    cases h
    exact .inl rfl
  | release aim =>
    cases h
    exact .inl rfl
  | fetch aim =>
    cases aim with
    | ensure =>
      cases h
      rfl
    | list =>
      cases h
      exact ⟨rfl, rfl⟩
  | read source context =>
    cases h
    simp only [Traced.value_bind]
    cases hp : (Provider.announce source context).value with
    | some p => exact ⟨source, context, rfl, hp⟩
    | none => trivial
  | waitToReset =>
    simp only [step?] at h
    split at h
    · cases h
      trivial
    · cases h
  | empty | retract | releaseReset =>
    cases h
    trivial
  | fetched | loaded | cleared => cases h

/-- A step replaces the list by a longer one, or by none, or leaves it. -/
theorem put_of_step (h : step? discovery me stage r = some next) :
    (∃ new seen, stage = .swap new seen r.edition ∧
      next.value = (new.next, r.put (seen ++ new.providers))) ∨
    (stage = .empty ∧ next.value = (.retract, r.put [])) ∨
    (next.value.2.providers = r.providers ∧ next.value.2.edition = r.edition ∧
      stage ≠ .empty ∧ ∀ new seen edition, stage = .swap new seen edition →
        ∃ seen edition, next.value.1 = .swap new seen edition) := by
  cases stage with
  | swap new seen edition =>
    cases h
    by_cases hedition : r.edition = edition
    · subst hedition
      simp only [Traced.value_pure, if_true]
      exact .inl ⟨new, seen, rfl, rfl⟩
    · simp only [Traced.value_pure, if_neg hedition]
      refine .inr (.inr ⟨trivial, trivial, Stage.noConfusion, fun new' seen' edition' heq => ?_⟩)
      cases heq
      exact ⟨r.providers, r.edition, rfl⟩
  | empty =>
    cases h
    exact .inr (.inl ⟨rfl, rfl⟩)
  | wait aim =>
    simp only [step?] at h
    split at h
    · cases h
      exact .inr (.inr ⟨rfl, rfl, Stage.noConfusion, fun _ _ _ heq => by cases heq⟩)
    · cases h
      exact .inr (.inr ⟨rfl, rfl, Stage.noConfusion, fun _ _ _ heq => by cases heq⟩)
    · cases h
  | waitToReset =>
    simp only [step?] at h
    split at h
    · cases h
      exact .inr (.inr ⟨rfl, rfl, Stage.noConfusion, fun _ _ _ heq => by cases heq⟩)
    · cases h
  | fetch aim =>
    cases aim <;>
    · cases h
      exact .inr (.inr ⟨rfl, rfl, Stage.noConfusion, fun _ _ _ heq => by cases heq⟩)
  | read source context =>
    cases h
    simp only [Traced.value_bind]
    cases (Provider.announce source context).value <;>
      exact .inr (.inr ⟨rfl, rfl, Stage.noConfusion, fun _ _ _ heq => by cases heq⟩)
  | look | giveUp | lookAgain | discover | extend | publish | release | retract | releaseReset =>
    cases h
    exact .inr (.inr ⟨rfl, rfl, Stage.noConfusion, fun _ _ _ heq => by cases heq⟩)
  | fetched | loaded | cleared => cases h

end Step

namespace System

variable {s s' start : System} {l : Label} {ls : List Label} {t : ThreadId}

theorem step_of_did {offer : List (Except LoadError Source)} {before after : Stage}
    {events : List Event} (h : Step s (.did t offer before after events) s') :
    ∃ next, s.stage t = some before ∧
      step? (Provider.announceAll s.context offer) t before s.registry = some next ∧
      after = next.value.1 ∧ events = next.events ∧ s' = s.move next.value.2 t after := by
  cases h with
  | act _ at_ step => exact ⟨_, at_, step, rfl, rfl, rfl⟩

/-- How a thread came to its stage: it was there before, or began a call, or took this step. -/
theorem stage_of_step {stage : Stage} (h : Step s l s') (hs' : s'.stage t = some stage) :
    s.stage t = some stage ∨ (stage.isFirst = true ∧ l = .called t stage) ∨ ∃ offer before next,
      s.stage t = some before ∧
      step? (Provider.announceAll s.context offer) t before s.registry = some next ∧
      stage = next.value.1 ∧ s'.registry = next.value.2 ∧
      l = .did t offer before stage next.events := by
  cases h with
  | @call u first _ hfirst =>
    by_cases htu : t = u
    · simp only [move, htu, Function.update_self, Option.some.injEq] at hs'
      exact .inr (.inl (by rw [htu, ← hs']; exact ⟨hfirst, rfl⟩))
    · simp only [move, Function.update_of_ne htu] at hs'
      exact .inl hs'
  | @act u before next offer at_ step =>
    by_cases htu : t = u
    · subst htu
      simp only [move, Function.update_self, Option.some.injEq] at hs'
      exact .inr (.inr ⟨offer, before, next, at_, step, hs'.symm, rfl, by rw [hs']⟩)
    · simp only [move, Function.update_of_ne htu] at hs'
      exact .inl hs'
  | lock | giveUp | drop | interrupt | calm => exact .inl hs'

/-- How a thread came to be about to put something behind the list: it was so before, or it has
discovered providers, or has read a manifest for a host. -/
theorem addition_of_step {stage : Stage} {new : Addition} (h : Step s l s')
    (hs' : s'.stage t = some stage) (hnew : stage.addition = some new) :
    (∃ before, s.stage t = some before ∧ before.addition = some new) ∨
    (∃ offer events aim providers, new = .found aim providers ∧
      providers = (Provider.announceAll s.context offer).value ∧
      l = .did t offer (.discover aim) (.extend new) events) ∨
    ∃ source context p, new = .installed p ∧ (Provider.announce source context).value = some p := by
  rcases stage_of_step h hs' with hs | ⟨hfirst, -⟩ | ⟨offer, before, next, at_, step, hnext, -, hl⟩
  · exact .inl ⟨stage, hs, hnew⟩
  · cases stage with
    | extend | swap => cases hfirst
    | look | wait | giveUp | lookAgain | discover | publish | release | fetch | read | waitToReset
    | empty | retract | releaseReset | fetched | loaded | cleared => cases hnew
  · have hbefore := before_of_step step
    rw [← hnext] at hbefore
    cases stage with
    | extend =>
      cases hnew
      cases new with
      | found aim providers =>
        obtain ⟨rfl, hproviders⟩ := hbefore
        exact .inr (.inl ⟨offer, _, aim, providers, rfl, hproviders, hl⟩)
      | installed p =>
        obtain ⟨source, context, -, hp⟩ := hbefore
        exact .inr (.inr ⟨source, context, p, rfl, hp⟩)
    | swap =>
      cases hnew
      obtain ⟨rfl | ⟨seen', edition', rfl⟩, -⟩ := hbefore
      · exact .inl ⟨_, at_, rfl⟩
      · exact .inl ⟨_, at_, rfl⟩
    | look | wait | giveUp | lookAgain | discover | publish | release | fetch | read | waitToReset
    | empty | retract | releaseReset | fetched | loaded | cleared => cases hnew

/-- What a step put behind the list, the thread was about to put there. -/
theorem stage_of_addition {new : Addition} (h : Step s l s') (hl : l.addition = some new) :
    ∃ t stage, s.stage t = some stage ∧ stage.addition = some new := by
  cases h with
  | @act t stage next offer at_ step =>
    refine ⟨t, stage, at_, ?_⟩
    cases stage with
    | swap new seen edition =>
      generalize next.value.1 = after at hl
      cases new <;> cases after <;> first | exact hl | cases hl
    | look | wait | giveUp | lookAgain | discover | extend | publish | release | fetch | read
    | waitToReset | empty | retract | releaseReset | fetched | loaded | cleared => cases hl
  | call | lock | giveUp | drop | interrupt | calm => cases hl

/-- A step that does not install what discovery found puts behind the list what a host installs. -/
theorem added_eq_loaded (h : Step s l s') (hl : l.installs = false) :
    l.added = l.loaded.toList := by
  cases h with
  | @act t stage next offer at_ step =>
    cases stage with
    | swap new seen edition =>
      cases new with
      | found aim providers =>
        generalize next.value.1 = after at hl
        cases after <;> first | rfl | cases hl
      | installed p =>
        cases step
        simp only [Traced.value_pure]
        split <;> rfl
    | look | wait | giveUp | lookAgain | discover | extend | publish | release | fetch | read
    | waitToReset | empty | retract | releaseReset | fetched | loaded | cleared => rfl
  | call | lock | giveUp | drop | interrupt | calm => rfl

/-- Who has seen the present edition of the list has seen the present list. -/
def Current (s : System) : Prop :=
  ∀ t new seen edition, s.stage t = some (.swap new seen edition) →
    edition ≤ s.registry.edition ∧ (edition = s.registry.edition → seen = s.registry.providers)

/-- Each other list is another edition. -/
theorem edition_of_step (h : Step s l s') :
    s'.registry.edition = s.registry.edition + 1 ∨
      s'.registry.edition = s.registry.edition ∧ s'.registry.providers = s.registry.providers := by
  cases h with
  | act _ at_ step =>
    rcases put_of_step step with ⟨new, seen, -, hnext⟩ | ⟨-, hnext⟩ | ⟨hproviders, hedition, -⟩
    · simp only [move, hnext]
      exact .inl rfl
    · simp only [move, hnext]
      exact .inl rfl
    · exact .inr ⟨hedition, hproviders⟩
  | call | lock | giveUp | drop | interrupt | calm => exact .inr ⟨rfl, rfl⟩

theorem Current.of_step (h : s.Current) (hstep : Step s l s') : s'.Current := by
  intro t new seen edition hs'
  -- a thread that fetched the list earlier has seen an earlier edition, if the list was replaced
  rcases stage_of_step hstep hs' with
    hs | ⟨hfirst, -⟩ | ⟨offer, before, next, -, step, hnext, hr, -⟩
  · obtain ⟨hle, hseen⟩ := h t new seen edition hs
    rcases edition_of_step hstep with hedition | ⟨hedition, hproviders⟩
    · rw [hedition]
      exact ⟨by omega, fun heq => by omega⟩
    · rw [hedition, hproviders]
      exact ⟨hle, hseen⟩
  · cases hfirst
  · -- the thread has just fetched the list
    have hbefore := before_of_step step
    rw [← hnext] at hbefore
    obtain ⟨-, rfl, rfl, hsame⟩ := hbefore
    rw [hr, hsame]
    exact ⟨Nat.le_refl _, fun _ => rfl⟩

theorem IsFresh.current (h : start.IsFresh) : start.Current := by
  intro t new seen edition hs
  rw [h.stage t] at hs
  cases hs

theorem current_of_run (fresh : start.IsFresh) (h : Run Step start ls s) : s.Current :=
  h.preserves fresh.current fun _ _ _ _ hstep ha => ha.of_step hstep

/-- A step drops the list or puts something behind it, or nothing. -/
theorem providers_of_step (h : Step s l s') (current : s.Current) :
    s'.registry.providers = if l.empties then [] else s.registry.providers ++ l.added := by
  cases h with
  | @act t stage next offer at_ step =>
    rcases put_of_step step with
      ⟨new, seen, rfl, hnext⟩ | ⟨rfl, hnext⟩ | ⟨hproviders, -, hempty, hswap⟩
    · rw [(current t new seen _ at_).2 rfl] at hnext
      simp only [move, hnext]
      cases new <;> rfl
    · simp only [move, hnext]
      rfl
    · have hadded : Label.added (.did t offer stage next.value.1 next.events) = [] := by
        cases stage with
        | swap new seen edition =>
          obtain ⟨seen', edition', hafter⟩ := hswap new seen edition rfl
          rw [hafter]
          cases new <;> rfl
        | look | wait | giveUp | lookAgain | discover | extend | publish | release | fetch | read
        | waitToReset | empty | retract | releaseReset | fetched | loaded | cleared => rfl
      have hempties : Label.empties (.did t offer stage next.value.1 next.events) = false := by
        cases stage with
        | empty => exact absurd rfl hempty
        | look | wait | giveUp | lookAgain | discover | extend | swap | publish | release | fetch
        | read | waitToReset | retract | releaseReset | fetched | loaded | cleared => rfl
      rw [hadded, hempties]
      simpa [move] using hproviders
  | call | lock | giveUp | drop | interrupt | calm =>
    simp [Label.empties, Label.added, Label.addition, move, hold, interrupt]

end System

end LogSetup.ProviderRegistry
