import LogSetup.Proofs.Catalog.Frozen

/-!
# A call while all other threads rest

A thread that is alone with the catalog never waits. If the list is not made, the thread makes it of
the plug-ins and settings that are there, and gets that list.

## Main statements

- `Catalog.System.run_of_runFor` : the steps of a whole call are a run
- `Catalog.System.exists_gets` : a call of a thread that is alone ends
- `Catalog.System.list_of_alone` : what it gets
- `Catalog.System.holder_of_idle` : it need not wait
-/

namespace LogSetup.Catalog.System

variable {s s' start : System} {l : Label} {ls : List Label} {t : ThreadId} {stage : Stage}
  {list : List Descriptor}

/-- Only one thread takes steps, and all of them belong to calls for the list. -/
def Alone (t : ThreadId) (ls : List Label) : Prop := ∀ l ∈ ls, l.thread = some t ∧ l.asks = true

theorem not_entersReset_of_asks (h : l.asks = true) : l.entersReset = false := by
  cases l with
  | did t before after events =>
    cases before with
    | waitToReset => cases h
    | look | wait | lookAgain | discover | build | rank | store | publish | release | fetch | empty
    | retract | releaseReset | fetched | cleared => rfl
  | asked | reset | changed => rfl

/-- In a run of a thread that is alone no reset is at work. -/
theorem Alone.stretch (alone : Alone t ls) (idle : ∀ t, s.IsIdle t) (inv : s.view.Inv)
    (h : Run Step s ls s') : s.Stretch ls s' :=
  ⟨h, inv, isCalm_of_idle idle, fun l hl => not_entersReset_of_asks (alone l hl).2⟩

/-! ### A whole call as a run -/

theorem isReset_of_step {plugins : PluginTable Factory} {settings : Settings} {c : Catalog}
    {next : Traced (Stage × Catalog)} (h : step? plugins settings t stage c = some next) :
    next.value.1.isReset = stage.isReset := by
  cases stage with
  | wait | waitToReset =>
    simp only [step?] at h
    split at h
    · cases h
      rfl
    · cases h
  | fetched | cleared => cases h
  | look | lookAgain =>
    cases h
    cases c.isInitialized <;> rfl
  | discover | build | rank | store | publish | release | fetch | empty | retract | releaseReset =>
    cases h
    rfl

/-- The steps of a whole call are a run in which only its thread takes steps. -/
theorem run_of_runFor (s : System) (t : ThreadId) (n : Nat) (stage : Stage) (c : Catalog)
    (hstage : stage.isReset = false) :
    ∃ ls, Alone t ls ∧ Run Step (s.move c t stage) ls
      (s.move (runFor s.plugins s.settings t n stage c).value.2 t
        (runFor s.plugins s.settings t n stage c).value.1) := by
  -- induction on the number of steps, from any stage that the first of them may lead to
  induction n generalizing stage c with
  | zero => exact ⟨[], fun l hl => absurd hl List.not_mem_nil, .nil⟩
  | succ n ih =>
    rw [runFor]
    cases hstep : step? s.plugins s.settings t stage c with
    | none => exact ⟨[], fun l hl => absurd hl List.not_mem_nil, .nil⟩
    | some next =>
      obtain ⟨ls, alone, hrest⟩ :=
        ih next.value.1 next.value.2 ((isReset_of_step hstep).trans hstage)
      refine ⟨[.did t stage next.value.1 next.events] ++ ls, fun l hl => ?_,
        (Run.single (step_move hstep)).append hrest⟩
      rcases List.mem_append.mp hl with hl | hl
      · rw [List.mem_singleton.mp hl]
        exact ⟨rfl, by simp [Label.asks, hstage]⟩
      · exact alone l hl

/-- A thread has a list that it did not have before only after fetching it. -/
theorem fetch_of_step (h : Step s l s') (hs' : s'.stage t = some (.fetched list)) :
    s.stage t = some (.fetched list) ∨ ∃ events, l = .did t .fetch (.fetched list) events := by
  rcases stage_of_step h hs' with hs | heq | heq | ⟨before, next, -, step, hnext, hl⟩
  · exact .inl hs
  · cases heq
  · cases heq
  · have hbefore := before_of_step step
    rw [← hnext] at hbefore
    exact .inr ⟨next.events, hbefore ▸ hl⟩

theorem fetch_of_run (h : Run Step s ls s') (hs : s.stage t ≠ some (.fetched list))
    (hs' : s'.stage t = some (.fetched list)) :
    ∃ during events after, ls = during ++ .did t .fetch (.fetched list) events :: after := by
  induction h with
  | nil => exact absurd hs' hs
  | @snoc ls l a b _ hstep ih =>
    rcases fetch_of_step hstep hs' with ha | ⟨events, rfl⟩
    · obtain ⟨during, events, after, rfl⟩ := ih ha
      exact ⟨during, events, after ++ [l], by simp⟩
    · exact ⟨ls, events, [], rfl⟩

/-- A thread that is alone with the catalog gets a list. -/
theorem exists_gets (idle : s.IsIdle t) (free : s.catalog.holder = none) :
    ∃ ls s', Alone t ls ∧ Run Step s ls s' ∧
      Gets ls t (s.catalog.factories (discoverFactories s.plugins s.settings)).value.1 := by
  have hask : Step s (.asked t) (s.move s.catalog t .look) := .ask idle
  obtain ⟨ls, alone, hrun⟩ := run_of_runFor s t 10 .look s.catalog rfl
  have hend : (runFor s.plugins s.settings t 10 .look s.catalog).value.1 =
      .fetched (s.catalog.factories (discoverFactories s.plugins s.settings)).value.1 :=
    congrArg (fun x => x.value.1) (run_look s.plugins s.settings t s.catalog free)
  have hlook : (s.move s.catalog t .look).stage t = some .look := Function.update_self ..
  have hbefore : (s.move s.catalog t .look).stage t ≠ some (.fetched
      (s.catalog.factories (discoverFactories s.plugins s.settings)).value.1) := by
    rw [hlook]
    exact fun heq => by cases heq
  obtain ⟨during, events, after, rfl⟩ := fetch_of_run hrun hbefore
    ((Function.update_self ..).trans (congrArg some hend))
  refine ⟨_, _, ?_, (Run.single hask).append hrun, [], during, after, events, rfl⟩
  intro l hl
  rcases List.mem_append.mp hl with hl | hl
  · rw [List.mem_singleton.mp hl]
    exact ⟨rfl, rfl⟩
  · exact alone l hl

/-! ### What the thread gets -/

/-- What is there while a thread makes the list alone. -/
structure Makes (s : System) (t : ThreadId) (a : System) : Prop where
  plugins : a.plugins = s.plugins
  settings : a.settings = s.settings
  list : a.catalog.isInitialized = true →
    a.catalog.list = (discoverFactories s.plugins s.settings).value
  stage : match a.stage t with
    | some (.build name) => name = s.settings.get? factorySetting
    | some (.rank named) => named = (namedFactory s.plugins s.settings).value
    | some (.store list) => list = (discoverFactories s.plugins s.settings).value
    | some .publish => a.catalog.list = (discoverFactories s.plugins s.settings).value
    | _ => True

theorem Makes.of_step {a b : System} (makes : s.Makes t a)
    (h : Step a l b) (hl : l.thread = some t) (hasks : l.asks = true) : s.Makes t b := by
  cases h with
  | ask =>
    cases hl
    exact ⟨makes.plugins, makes.settings, makes.list, by simp only [enter, Function.update_self]⟩
  | reset => cases hasks
  | change => cases hl
  | @act _ stage next at_ step =>
    cases hl
    have hstage := makes.stage
    simp only [at_] at hstage
    cases stage with
    | look | lookAgain =>
      cases step
      refine ⟨makes.plugins, makes.settings, makes.list, ?_⟩
      simp only [Function.update_self, Traced.value_pure]
      cases a.catalog.isInitialized <;> trivial
    | wait =>
      simp only [step?] at step
      split at step
      · cases step
        exact ⟨makes.plugins, makes.settings, makes.list,
          by simp only [Function.update_self]; trivial⟩
      · cases step
    | discover =>
      cases step
      refine ⟨makes.plugins, makes.settings, makes.list, ?_⟩
      simp only [Function.update_self]
      rw [makes.settings]
      rfl
    | build =>
      cases step
      refine ⟨makes.plugins, makes.settings, makes.list, ?_⟩
      simp only [Function.update_self]
      rw [hstage, makes.plugins]
      rfl
    | rank =>
      cases step
      refine ⟨makes.plugins, makes.settings, makes.list, ?_⟩
      simp only [Function.update_self]
      rw [hstage, makes.plugins]
      rfl
    | store =>
      cases step
      exact ⟨makes.plugins, makes.settings, fun _ => hstage,
        by simp only [Function.update_self]; exact hstage⟩
    | publish =>
      cases step
      exact ⟨makes.plugins, makes.settings, fun _ => hstage,
        by simp only [Function.update_self]; trivial⟩
    | release | fetch =>
      cases step
      exact ⟨makes.plugins, makes.settings, makes.list,
        by simp only [Function.update_self]; trivial⟩
    | waitToReset | empty | retract | releaseReset => cases hasks
    | fetched | cleared => cases step

/-- A thread that is alone with a catalog whose list is not made gets the list that discovery makes
of the plug-ins and settings that are there. -/
theorem list_of_alone (inv : s.view.Inv) (idle : ∀ t, s.IsIdle t)
    (flag : s.catalog.isInitialized = false) (h : Run Step s ls s') (alone : Alone t ls)
    (hgets : Gets ls t list) : list = (discoverFactories s.plugins s.settings).value := by
  obtain ⟨hflag, rfl⟩ := (alone.stretch idle inv h).list_of_gets hgets
  have hmakes : s.Makes t s := by
    refine ⟨rfl, rfl, fun htrue => ?_, ?_⟩
    · rw [flag] at htrue
      cases htrue
    · cases hstage : s.stage t with
      | none => trivial
      | some stage =>
        have hdone := idle t stage hstage
        cases stage with
        | fetched | cleared => trivial
        | look | wait | lookAgain | discover | build | rank | store | publish | release | fetch
        | waitToReset | empty | retract | releaseReset => cases hdone
  have hlast : s.Makes t s' := h.preserves hmakes fun _ l _ hl hstep ha =>
    ha.of_step hstep (alone l hl).1 (alone l hl).2
  exact hlast.list hflag

/-! ### The lock is free when all threads rest -/

/-- A thread that holds the lock is at work. -/
def IsHeldAtWork (s : System) : Prop := ∀ t, s.catalog.holder = some t → s.view.phase t ≠ .away

/-- A step takes the lock for a thread at work, frees it, or leaves both as they are. -/
theorem holder_of_step {plugins : PluginTable Factory} {settings : Settings} {c : Catalog}
    {next : Traced (Stage × Catalog)} (h : step? plugins settings t stage c = some next) :
    (next.value.2.holder = some t ∧ next.value.1.phase ≠ .away) ∨ next.value.2.holder = none ∨
      (next.value.2.holder = c.holder ∧ (stage.phase ≠ .away → next.value.1.phase ≠ .away)) := by
  cases stage with
  | wait | waitToReset =>
    simp only [step?] at h
    split at h
    · cases h
      exact .inl ⟨rfl, by simp [Stage.phase]⟩
    · cases h
  | release | releaseReset =>
    cases h
    exact .inr (.inl rfl)
  | look =>
    cases h
    exact .inr (.inr ⟨rfl, fun hat => absurd rfl hat⟩)
  | lookAgain =>
    cases h
    refine .inr (.inr ⟨rfl, fun _ => ?_⟩)
    cases c.isInitialized <;> simp [Stage.phase]
  | discover | build | rank | store | publish | fetch | empty | retract =>
    cases h
    exact .inr (.inr ⟨rfl, by simp [Stage.phase]⟩)
  | fetched | cleared => cases h

theorem IsHeldAtWork.of_step (held : s.IsHeldAtWork) (h : Step s l s') : s'.IsHeldAtWork := by
  cases h with
  | @ask u idle | @reset u idle =>
    intro t ht
    have hat := held t ht
    have htu : t ≠ u := fun heq => hat (heq ▸ phase_view_of_isIdle idle)
    simpa only [view, enter, Function.comp_apply, Function.update_of_ne htu] using hat
  | change => exact held
  | @act u stage next at_ step =>
    intro t ht
    rw [view_update]
    simp only at ht ⊢
    -- the lock was taken for the thread that is at work now, or freed, or left to its holder
    rcases holder_of_step step with ⟨hme, hat⟩ | hnone | ⟨hsame, hat⟩
    · rw [hme] at ht
      cases ht
      rwa [Function.update_self]
    · rw [hnone] at ht
      cases ht
    · have hbefore := held t (hsame ▸ ht)
      by_cases htu : t = u
      · subst htu
        rw [phase_view at_] at hbefore
        rw [Function.update_self]
        exact hat hbefore
      · rwa [Function.update_of_ne htu]

/-- When nobody is in a call, the lock is free. -/
theorem holder_of_idle (fresh : start.IsFresh) (h : Run Step start ls s) (idle : ∀ t, s.IsIdle t) :
    s.catalog.holder = none := by
  have hstart : start.IsHeldAtWork := by
    intro t ht
    rw [fresh.catalog] at ht
    cases ht
  have held : s.IsHeldAtWork := h.preserves hstart fun _ _ _ _ hstep ha => ha.of_step hstep
  cases hholder : s.catalog.holder with
  | none => rfl
  | some t => exact absurd (phase_view_of_isIdle (idle t)) (held t hholder)

end LogSetup.Catalog.System
