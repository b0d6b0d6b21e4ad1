import LogSetup.Factories.Canned
import LogSetup.Proofs.Threads.OneTime
import LogSetup.Resolving.Catalog

/-!
# Threads that share a catalog

Any number of threads ask one catalog for its list or reset it. Between any two steps other threads
may take theirs, and plug-ins and settings may change. Discovery is one-time work under the lock of
the catalog, which a reset undoes.

## Main definitions

- `Catalog.System`, `Catalog.System.Step` : the threads at work, and the steps that they may take
- `Catalog.Label` : what a step did
- `Catalog.System.view` : discovery as one-time work

## Main statements

- `Catalog.System.Step.seen` : every step is a step of one-time work
- `Catalog.list_of_step`, `Catalog.flag_of_step` : when a step changes what threads share
-/

namespace LogSetup.Catalog

/-! ### Stages of a call as phases of one-time work -/

namespace Stage

/-- The phase of a thread at this stage. -/
def phase : Stage → Phase
  | .lookAgain => .checking
  | .discover => .working 4
  | .build _ => .working 3
  | .rank _ => .working 2
  | .store _ => .working 1
  | .publish => .working 0
  | .release => .finished
  | .empty | .retract => .undoing
  | .releaseReset => .undone
  | .look | .wait | .fetch | .waitToReset | .fetched _ | .cleared => .away

/-- What the step from this stage does for discovery. -/
def act : Stage → OneTime.Act
  | .discover => .worked 3
  | .build _ => .worked 2
  | .rank _ => .worked 1
  | .store _ => .worked 0
  | .publish => .published
  | .retract => .undone
  | _ => .other

/-- The call is over. -/
def isDone : Stage → Bool
  | .fetched _ | .cleared => true
  | _ => false

/-- The call is a reset. -/
def isReset : Stage → Bool
  | .waitToReset | .empty | .retract | .releaseReset | .cleared => true
  | _ => false

end Stage

/-! ### The system -/

/-- A catalog, the threads that call it, and what discovery reads. -/
structure System where
  catalog : Catalog
  plugins : PluginTable Factory
  settings : Settings
  /-- The stage of the call that a thread is in, or was in last. -/
  stage : ThreadId → Option Stage

/-- What a step did. -/
inductive Label where
  /-- A thread called for the list. -/
  | asked (t : ThreadId)
  /-- A thread called for a reset. -/
  | reset (t : ThreadId)
  /-- A thread in a call went from one stage to the next. -/
  | did (t : ThreadId) (before after : Stage) (events : List Event)
  /-- Plug-ins or settings were changed. -/
  | changed (plugins : PluginTable Factory) (settings : Settings)

namespace Label

/-- The thread that took the step, if it was a step of a call. -/
def thread : Label → Option ThreadId
  | .asked t => some t
  | .reset t => some t
  | .did t _ _ _ => some t
  | .changed _ _ => none

/-- The step belongs to a call for the list. -/
def asks : Label → Bool
  | .asked _ => true
  | .did _ before _ _ => !before.isReset
  | _ => false

/-- A reset took the lock. -/
def entersReset : Label → Bool
  | .did _ .waitToReset _ _ => true
  | _ => false

/-- What a step did for discovery. -/
def act : Label → OneTime.Act
  | .did _ before _ _ => before.act
  | _ => .other

end Label

namespace System

/-- A thread is in no call. -/
def IsIdle (s : System) (t : ThreadId) : Prop :=
  ∀ stage, s.stage t = some stage → stage.isDone = true

/-- A thread begins a call. -/
def enter (s : System) (t : ThreadId) (stage : Stage) : System :=
  { s with stage := Function.update s.stage t (some stage) }

/-- The steps that may be taken. -/
inductive Step : System → Label → System → Prop
  | ask {s : System} {t : ThreadId} (idle : s.IsIdle t) : Step s (.asked t) (s.enter t .look)
  | reset {s : System} {t : ThreadId} (idle : s.IsIdle t) :
      Step s (.reset t) (s.enter t .waitToReset)
  | act {s : System} {t : ThreadId} {stage : Stage} {next : Traced (Stage × Catalog)}
      (at_ : s.stage t = some stage)
      (step : step? s.plugins s.settings t stage s.catalog = some next) :
      Step s (.did t stage next.value.1 next.events)
        { s with
          catalog := next.value.2
          stage := Function.update s.stage t (some next.value.1) }
  | change (s : System) (plugins : PluginTable Factory) (settings : Settings) :
      Step s (.changed plugins settings) { s with plugins, settings }

/-- A thread comes to a stage of its call, and the catalog to a state. -/
def move (s : System) (c : Catalog) (t : ThreadId) (stage : Stage) : System :=
  { s with catalog := c, stage := Function.update s.stage t (some stage) }

/-- Nobody has called the catalog yet. -/
structure IsFresh (s : System) : Prop where
  catalog : s.catalog = .initial
  stage : ∀ t, s.stage t = none

/-- A catalog that nobody has called yet. -/
def rested (plugins : PluginTable Factory) (settings : Settings) : System :=
  ⟨.initial, plugins, settings, fun _ => none⟩

theorem isFresh_rested (plugins : PluginTable Factory) (settings : Settings) :
    (rested plugins settings).IsFresh := ⟨rfl, fun _ => rfl⟩

/-- A table with one candidate, which takes locations that end in `.xml`. -/
def oneFactory : PluginTable Factory :=
  PluginTable.empty.register factoryCategory
    ⟨"xml", 10, 0, .ok (Canned.factory ⟨0, "xml", [".xml"], .accept, true, none⟩)⟩

/-- The phase of a thread that is in a call, or in none. -/
def phaseOf : Option Stage → Phase
  | some stage => stage.phase
  | none => .away

/-- Discovery as one-time work. -/
def view (s : System) : OneTime := ⟨s.catalog.holder, s.catalog.isInitialized, phaseOf ∘ s.stage⟩

variable {s s' : System} {l : Label} {t : ThreadId} {stage : Stage}

theorem phase_view (h : s.stage t = some stage) : s.view.phase t = stage.phase := by
  simp only [view, Function.comp_apply, h, phaseOf]

theorem phase_view_of_isIdle (h : s.IsIdle t) : s.view.phase t = .away := by
  cases hstage : s.stage t with
  | none => simp only [view, Function.comp_apply, hstage, phaseOf]
  | some stage =>
    have hdone := h stage hstage
    rw [phase_view hstage]
    cases stage <;> first | rfl | cases hdone

theorem step_move {c : Catalog} {next : Traced (Stage × Catalog)}
    (h : step? s.plugins s.settings t stage c = some next) :
    Step (s.move c t stage) (.did t stage next.value.1 next.events)
      (s.move next.value.2 t next.value.1) := by
  have hstep := Step.act (s := s.move c t stage) (Function.update_self ..) h
  simpa only [move, Function.update_idem] using hstep

theorem view_update (s : System) (c : Catalog) (t : ThreadId) (stage : Stage) :
    view { s with catalog := c, stage := Function.update s.stage t (some stage) } =
      ⟨c.holder, c.isInitialized, Function.update s.view.phase t stage.phase⟩ := by
  simp only [view, Function.comp_update, phaseOf]

end System

/-! ### What one step does -/

section Step

variable {plugins : PluginTable Factory} {settings : Settings} {me : ThreadId} {stage : Stage}
  {c : Catalog} {next : Traced (Stage × Catalog)}

theorem seen_of_step {w : OneTime} (h : step? plugins settings me stage c = some next)
    (hholder : w.holder = c.holder) (hdone : w.isDone = c.isInitialized)
    (hphase : w.phase me = stage.phase) :
    OneTime.Step w stage.act
      ⟨next.value.2.holder, next.value.2.isInitialized,
        Function.update w.phase me next.value.1.phase⟩ := by
  obtain ⟨holder, isDone, phase⟩ := w
  obtain ⟨held, flag, list⟩ := c
  simp only at hholder hdone hphase
  subst hholder hdone
  cases stage with
  | look =>
    cases h
    cases isDone with
    | true => exact .same hphase
    | false => exact .same hphase
  | wait =>
    simp only [step?] at h
    split at h
    · cases h
      exact .enter (.inl (by simpa using ‹holder.isNone = true›)) hphase (.inl rfl)
    · cases h
  | lookAgain =>
    cases h
    cases isDone with
    | true => exact .skip hphase rfl
    | false => exact .start 4 hphase rfl
  | discover | build | rank | store =>
    cases h
    exact .work hphase
  | publish =>
    cases h
    exact .publish hphase
  | release | releaseReset =>
    cases h
    exact .leave none (by simp [hphase, Stage.phase])
  | fetch | empty =>
    cases h
    exact .same hphase
  | waitToReset =>
    simp only [step?] at h
    split at h
    · cases h
      exact .enter (.inl (by simpa using ‹holder.isNone = true›)) hphase (.inr rfl)
    · cases h
  | retract =>
    cases h
    exact .retract hphase
  | fetched | cleared => cases h

/-- The list changes when discovery has made one and when a reset drops it. -/
theorem list_of_step (h : step? plugins settings me stage c = some next) :
    next.value.2.list =
      match stage with
      | .store list => list
      | .empty => []
      | _ => c.list := by
  cases stage with
  | wait | waitToReset =>
    simp only [step?] at h
    split at h
    · cases h
      rfl
    · cases h
  | fetched | cleared => cases h
  | look | lookAgain | discover | build | rank | store | publish | release | fetch | empty | retract
  | releaseReset =>
    cases h
    rfl

/-- The flag changes when a list is there and when a reset has dropped it. -/
theorem flag_of_step (h : step? plugins settings me stage c = some next) :
    next.value.2.isInitialized =
      match stage with
      | .publish => true
      | .retract => false
      | _ => c.isInitialized := by
  cases stage with
  | wait | waitToReset =>
    simp only [step?] at h
    split at h
    · cases h
      rfl
    · cases h
  | fetched | cleared => cases h
  | look | lookAgain | discover | build | rank | store | publish | release | fetch | empty | retract
  | releaseReset =>
    cases h
    rfl

/-- From where a call comes to a stage. -/
theorem before_of_step (h : step? plugins settings me stage c = some next) :
    match next.value.1 with
    | .store _ => ∃ named, stage = .rank named
    | .publish => ∃ list, stage = .store list
    | .release => stage = .publish ∨ stage = .lookAgain ∧ c.isInitialized = true
    | .fetch => stage = .release ∨ stage = .look ∧ c.isInitialized = true
    | .fetched _ => stage = .fetch
    | _ => True := by
  cases stage with
  | wait | waitToReset =>
    simp only [step?] at h
    split at h
    · cases h
      trivial
    · cases h
  | look =>
    cases h
    cases hflag : c.isInitialized with
    | true => exact .inr ⟨rfl, rfl⟩
    | false => trivial
  | lookAgain =>
    cases h
    cases hflag : c.isInitialized with
    | true => exact .inr ⟨rfl, rfl⟩
    | false => trivial
  | rank => cases h; exact ⟨_, rfl⟩
  | store => cases h; exact ⟨_, rfl⟩
  | publish => cases h; exact .inl rfl
  | release => cases h; exact .inl rfl
  | fetch => cases h; rfl
  | discover | build | empty | retract | releaseReset =>
    cases h
    trivial
  | fetched | cleared => cases h

end Step

namespace System

variable {s s' start : System} {l : Label} {ls : List Label} {t : ThreadId} {stage : Stage}

theorem Step.seen (h : Step s l s') : OneTime.Step s.view l.act s'.view := by
  cases h with
  | ask idle =>
    rw [enter, view_update]
    exact .same (phase_view_of_isIdle idle)
  | reset idle =>
    rw [enter, view_update]
    exact .same (phase_view_of_isIdle idle)
  | act at_ step =>
    rw [view_update]
    exact seen_of_step step rfl rfl (phase_view at_)
  | change => exact .stay s.view

theorem seen_of_run (h : Run Step s ls s') : Run OneTime.Step s.view (ls.map Label.act) s'.view :=
  h.view (I := fun _ => True) trivial (fun _ _ _ _ _ => trivial) fun _ _ _ hstep _ => hstep.seen

theorem IsFresh.inv (h : start.IsFresh) : start.view.Inv := by
  refine OneTime.inv_of_forall_away fun t => ?_
  simp only [view, Function.comp_apply, h.stage t, phaseOf]

/-- Whatever threads have done since nobody had called the catalog, the lock protects
discovery. -/
theorem inv_of_run (fresh : start.IsFresh) (h : Run Step start ls s) : s.view.Inv :=
  fresh.inv.of_run (seen_of_run h)

/-- How a thread came to its stage: it was there before, or began a call, or took this step. -/
theorem stage_of_step {stage : Stage} (h : Step s l s') (hs' : s'.stage t = some stage) :
    s.stage t = some stage ∨ stage = .look ∨ stage = .waitToReset ∨ ∃ before next,
      s.stage t = some before ∧ step? s.plugins s.settings t before s.catalog = some next ∧
      stage = next.value.1 ∧ l = .did t before stage next.events := by
  cases h with
  | @ask u =>
    by_cases htu : t = u
    · simp only [enter, htu, Function.update_self, Option.some.injEq] at hs'
      exact .inr (.inl hs'.symm)
    · simp only [enter, Function.update_of_ne htu] at hs'
      exact .inl hs'
  | @reset u =>
    by_cases htu : t = u
    · simp only [enter, htu, Function.update_self, Option.some.injEq] at hs'
      exact .inr (.inr (.inl hs'.symm))
    · simp only [enter, Function.update_of_ne htu] at hs'
      exact .inl hs'
  | @act u before next at_ step =>
    by_cases htu : t = u
    · subst htu
      simp only [Function.update_self, Option.some.injEq] at hs'
      exact .inr (.inr (.inr ⟨before, next, at_, step, hs'.symm, by rw [hs']⟩))
    · simp only [Function.update_of_ne htu] at hs'
      exact .inl hs'
  | change => exact .inl hs'

end System

end LogSetup.Catalog
