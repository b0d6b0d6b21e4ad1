import LogSetup.Proofs.Startup.Lock
import LogSetup.Proofs.Threads.OneTime
import LogSetup.Providers.Registry

/-!
# Threads that share a provider registry

Any number of threads make sure of discovery, ask for providers, install some, reset the registry,
and take and release the start-up lock. Threads may be interrupted at any time. What discovery finds
is up to the world, which may change. Discovery is one-time work under the start-up lock, which a
reset undoes.

## Main definitions

- `ProviderRegistry.System`, `ProviderRegistry.System.Step` : the threads at work, and their steps
- `ProviderRegistry.Label` : what a step did
- `ProviderRegistry.System.Held` : who holds the lock, and how often
- `ProviderRegistry.System.view` : discovery as one-time work

## Main statements

- `ProviderRegistry.System.Held.of_step` : holds are neither lost nor made up
- `ProviderRegistry.System.Step.seen` : every step is a step of one-time work
-/

namespace LogSetup.ProviderRegistry

/-! ### Stages of a call as phases of one-time work -/

/-- Discovery puts what it found behind the list under the lock; a host needs no lock for that. -/
def Addition.phase : Addition → Phase
  | .found _ _ => .working 1
  | .installed _ => .away

namespace Stage

/-- The phase of a thread at this stage. -/
def phase : Stage → Phase
  | .lookAgain _ => .checking
  | .discover _ => .working 2
  | .extend new | .swap new _ _ => new.phase
  | .publish _ => .working 0
  | .release _ => .finished
  | .empty | .retract => .undoing
  | .releaseReset => .undone
  | .look _ | .wait _ | .giveUp _ | .fetch _ | .read _ _ | .waitToReset | .fetched _ | .loaded _
  | .cleared => .away

/-- What the step from one stage to another does for discovery. -/
def act : Stage → Stage → OneTime.Act
  | .discover _, _ => .worked 1
  | .swap (.found _ _) _ _, .publish _ => .worked 0
  | .publish _, _ => .published
  | .retract, _ => .undone
  | _, _ => .other

/-- Calls begin at this stage. -/
def isFirst : Stage → Bool
  | .look _ | .read _ _ | .waitToReset => true
  | _ => false

end Stage

/-! ### The system -/

/-- A registry, its context, and the threads that call it. -/
structure System where
  registry : ProviderRegistry
  context : LoadingContext
  /-- The stage of the call that a thread is in, or was in last. -/
  stage : ThreadId → Option Stage
  /-- How many holds of the start-up lock a thread has taken itself. -/
  guards : ThreadId → Nat

/-- What a step did. -/
inductive Label where
  /-- A thread began a call. -/
  | called (t : ThreadId) (first : Stage)
  /-- A thread in a call went from one stage to the next; discovery would find the offer. -/
  | did (t : ThreadId) (offer : List (Except LoadError Source)) (before after : Stage)
      (events : List Event)
  /-- A thread took the start-up lock. -/
  | locked (t : ThreadId)
  /-- A thread was interrupted before it had the start-up lock. -/
  | gaveUp (t : ThreadId)
  /-- A thread released a hold of the start-up lock. -/
  | dropped (t : ThreadId)
  /-- The flag of a thread was set. -/
  | interrupted (t : ThreadId)
  /-- The flag of a thread was cleared. -/
  | calmed (t : ThreadId)

namespace Label

/-- The thread that took the step; interrupts may come from anywhere. -/
def thread : Label → Option ThreadId
  | .called t _ | .did t _ _ _ _ | .locked t | .gaveUp t | .dropped t => some t
  | .interrupted _ | .calmed _ => none

/-- What a step did for discovery. -/
def act : Label → OneTime.Act
  | .did _ _ before after _ => before.act after
  | _ => .other

end Label

namespace System

/-- A thread is in no call. -/
def IsIdle (s : System) (t : ThreadId) : Prop :=
  ∀ stage, s.stage t = some stage → stage.isDone = true

/-- A thread comes to a stage of its call, and the registry to a state. -/
def move (s : System) (r : ProviderRegistry) (t : ThreadId) (stage : Stage) : System :=
  { s with registry := r, stage := Function.update s.stage t (some stage) }

/-- The lock comes to a state, and a thread to a number of holds of its own. -/
def hold (s : System) (lock : StartupLock) (t : ThreadId) (guards : Nat) : System :=
  { s with
    registry := { s.registry with lock }
    guards := Function.update s.guards t guards }

/-- Interrupts come to a state. -/
def interrupt (s : System) (interrupts : Interrupts) : System :=
  { s with registry := { s.registry with interrupts } }

/-- The steps that may be taken. A thread that takes the lock may be one that could be interrupted
while it waited. -/
inductive Step : System → Label → System → Prop
  | call {s : System} {t : ThreadId} {first : Stage} (idle : s.IsIdle t)
      (isFirst : first.isFirst = true) :
      Step s (.called t first) (s.move s.registry t first)
  | act {s : System} {t : ThreadId} {stage : Stage} {next : Traced (Stage × ProviderRegistry)}
      (offer : List (Except LoadError Source)) (at_ : s.stage t = some stage)
      (step : step? (Provider.announceAll s.context offer) t stage s.registry = some next) :
      Step s (.did t offer stage next.value.1 next.events) (s.move next.value.2 t next.value.1)
  | lock {s : System} {t : ThreadId} {lock : StartupLock} (idle : s.IsIdle t)
      (claim : s.registry.lock.claim? t = some lock) :
      Step s (.locked t) (s.hold lock t (s.guards t + 1))
  | giveUp {s : System} {t : ThreadId} (idle : s.IsIdle t)
      (attempt : s.registry.lock.attempt t (s.registry.interrupts.isRaised t) = .interrupted) :
      Step s (.gaveUp t) (s.interrupt (s.registry.interrupts.clear t))
  | drop {s : System} {t : ThreadId} (idle : s.IsIdle t) (held : 0 < s.guards t) :
      Step s (.dropped t) (s.hold s.registry.lock.release t (s.guards t - 1))
  | interrupt (s : System) (t : ThreadId) :
      Step s (.interrupted t) (s.interrupt (s.registry.interrupts.raise t))
  | calm (s : System) (t : ThreadId) :
      Step s (.calmed t) (s.interrupt (s.registry.interrupts.clear t))

/-- Nobody has called the registry yet. -/
structure IsFresh (s : System) : Prop where
  registry : s.registry = .initial
  stage : ∀ t, s.stage t = none
  guards : ∀ t, s.guards t = 0

/-- A registry that nobody has called yet. -/
def rested (context : LoadingContext) : System := ⟨.initial, context, fun _ => none, fun _ => 0⟩

theorem isFresh_rested (context : LoadingContext) : (rested context).IsFresh :=
  ⟨rfl, fun _ => rfl, fun _ => rfl⟩

/-- The phase of a thread that is in a call, or in none. -/
def phaseOf : Option Stage → Phase
  | some stage => stage.phase
  | none => .away

/-- Discovery as one-time work. -/
def view (s : System) : OneTime :=
  ⟨s.registry.lock.owner, s.registry.isInitialized, phaseOf ∘ s.stage⟩

variable {s s' start : System} {l : Label} {ls : List Label} {t u : ThreadId} {stage : Stage}

theorem phase_view (h : s.stage t = some stage) : s.view.phase t = stage.phase := by
  simp only [view, Function.comp_apply, h, phaseOf]

theorem isIdle_of_none (h : s.stage t = none) : s.IsIdle t := by
  intro stage hstage
  cases h.symm.trans hstage

theorem isIdle_of_isDone (h : s.stage t = some stage) (hdone : stage.isDone = true) :
    s.IsIdle t := by
  intro other hother
  cases h.symm.trans hother
  exact hdone

theorem phase_view_of_isIdle (h : s.IsIdle t) : s.view.phase t = .away := by
  cases hstage : s.stage t with
  | none => simp only [view, Function.comp_apply, hstage, phaseOf]
  | some stage =>
    have hdone := h stage hstage
    rw [phase_view hstage]
    cases stage <;> first | rfl | cases hdone

theorem view_move (s : System) (r : ProviderRegistry) (t : ThreadId) (stage : Stage) :
    (s.move r t stage).view =
      ⟨r.lock.owner, r.isInitialized, Function.update s.view.phase t stage.phase⟩ := by
  simp only [view, move, Function.comp_update, phaseOf]

theorem phase_of_isFirst (h : stage.isFirst = true) : stage.phase = .away := by
  cases stage <;> first | rfl | cases h

end System

/-! ### What one step does -/

section Step

variable {discovery : Traced (List Provider)} {me : ThreadId} {stage : Stage} {r : ProviderRegistry}
  {next : Traced (Stage × ProviderRegistry)}

/-- A step takes the lock to work, releases it after work, or leaves it as it is. -/
theorem lock_of_step (h : step? discovery me stage r = some next) :
    (r.lock.claim? me = some next.value.2.lock ∧ stage.phase = .away ∧
      (next.value.1.phase = .checking ∨ next.value.1.phase = .undoing)) ∨
    (next.value.2.lock = r.lock.release ∧ (stage.phase = .finished ∨ stage.phase = .undone) ∧
      next.value.1.phase = .away) ∨
    (next.value.2.lock = r.lock ∧ (next.value.1.phase = .away ↔ stage.phase = .away)) := by
  cases stage with
  | look aim =>
    cases h
    refine .inr (.inr ⟨rfl, ?_⟩)
    cases r.isInitialized <;> simp [Stage.phase]
  | wait aim =>
    simp only [step?] at h
    split at h
    · cases h
      exact .inr (.inr ⟨rfl, Iff.rfl⟩)
    · cases h
      exact .inl ⟨StartupLock.claim_of_attempt ‹_›, rfl, .inl rfl⟩
    · cases h
  | lookAgain aim =>
    cases h
    refine .inr (.inr ⟨rfl, ?_⟩)
    cases r.isInitialized <;> simp [Stage.phase]
  | swap new seen edition =>
    cases h
    simp only [Traced.value_pure]
    split
    · refine .inr (.inr ⟨rfl, ?_⟩)
      cases new <;> simp [Stage.phase, Addition.next, Addition.phase]
    · exact .inr (.inr ⟨rfl, Iff.rfl⟩)
  | release aim =>
    cases h
    exact .inr (.inl ⟨rfl, .inl rfl, rfl⟩)
  | releaseReset =>
    cases h
    exact .inr (.inl ⟨rfl, .inr rfl, rfl⟩)
  | fetch aim =>
    cases aim <;>
    · cases h
      exact .inr (.inr ⟨rfl, Iff.rfl⟩)
  | read source context =>
    cases h
    refine .inr (.inr ?_)
    simp only [Traced.value_bind]
    cases (Provider.announce source context).value <;>
      simp [Stage.phase, Addition.phase]
  | waitToReset =>
    simp only [step?] at h
    split at h
    · cases h
      exact .inl ⟨‹_›, rfl, .inr rfl⟩
    · cases h
  | giveUp | extend | empty =>
    cases h
    exact .inr (.inr ⟨rfl, Iff.rfl⟩)
  | discover | publish | retract =>
    cases h
    exact .inr (.inr ⟨rfl, by simp [Stage.phase, Addition.phase]⟩)
  | fetched | loaded | cleared => cases h

/-- The flag is set after discovery and cleared by a reset. -/
theorem flag_of_step (h : step? discovery me stage r = some next) :
    next.value.2.isInitialized =
      match stage with
      | .publish _ => true
      | .retract => false
      | _ => r.isInitialized := by
  cases stage with
  | wait aim =>
    simp only [step?] at h
    split at h
    · cases h
      rfl
    · cases h
      rfl
    · cases h
  | waitToReset =>
    simp only [step?] at h
    split at h
    · cases h
      rfl
    · cases h
  | swap new seen edition =>
    cases h
    simp only [Traced.value_pure]
    split <;> rfl
  | fetch aim => cases aim <;> cases h <;> rfl
  | read source context =>
    cases h
    simp only [Traced.value_bind]
    cases (Provider.announce source context).value <;> rfl
  | look | giveUp | lookAgain | discover | extend | publish | release | empty | retract
  | releaseReset =>
    cases h
    rfl
  | fetched | loaded | cleared => cases h

theorem seen_of_step {w : OneTime} (h : step? discovery me stage r = some next)
    (hholder : w.holder = r.lock.owner) (hdone : w.isDone = r.isInitialized)
    (hphase : w.phase me = stage.phase) :
    OneTime.Step w (stage.act next.value.1)
      ⟨next.value.2.lock.owner, next.value.2.isInitialized,
        Function.update w.phase me next.value.1.phase⟩ := by
  obtain ⟨holder, isDone, phase⟩ := w
  simp only at hholder hdone hphase
  subst hholder hdone
  cases stage with
  | look aim =>
    cases h
    simp only [Traced.value_pure]
    split <;> exact .same hphase
  | wait aim =>
    simp only [step?] at h
    split at h
    · cases h
      exact .same hphase
    · cases h
      have hclaim := StartupLock.claim_of_attempt ‹_›
      simp only [Traced.value_pure, StartupLock.owner_claim hclaim]
      exact .enter (StartupLock.free_of_claim hclaim) hphase (.inl rfl)
    · cases h
  | lookAgain aim =>
    cases h
    simp only [Traced.value_pure]
    split
    · exact .skip hphase ‹_›
    · exact .start 2 hphase (by simpa using ‹¬ r.isInitialized = true›)
  | discover aim =>
    cases h
    exact .work hphase
  | swap new seen edition =>
    cases h
    simp only [Traced.value_pure]
    cases new with
    | found aim providers =>
      split
      · exact .work hphase
      · exact .same hphase
    | installed p => split <;> exact .same hphase
  | publish aim =>
    cases h
    exact .publish hphase
  | release aim =>
    cases h
    exact .leave _ (.inl hphase)
  | releaseReset =>
    cases h
    exact .leave _ (.inr hphase)
  | fetch aim =>
    cases aim <;>
    · cases h
      exact .same hphase
  | read source context =>
    cases h
    simp only [Traced.value_bind]
    cases (Provider.announce source context).value <;> exact .same hphase
  | waitToReset =>
    simp only [step?] at h
    split at h
    · cases h
      rename_i lock hclaim
      simp only [Traced.value_pure, StartupLock.owner_claim hclaim]
      exact .enter (StartupLock.free_of_claim hclaim) hphase (.inr rfl)
    · cases h
  | retract =>
    cases h
    exact .retract hphase
  | giveUp | extend | empty =>
    cases h
    exact .same hphase
  | fetched | loaded | cleared => cases h

end Step

namespace System

variable {s s' start : System} {l : Label} {ls : List Label} {t u : ThreadId} {stage : Stage}

/-! ### Who holds the lock -/

/-- The hold of a thread that is at work. -/
def inside (s : System) (t : ThreadId) : Nat := if s.view.phase t = .away then 0 else 1

/-- The lock is held by the threads that hold guards or are at work, as often as they do. -/
structure Held (s : System) : Prop where
  sound : s.registry.lock.IsSound
  count : ∀ t, s.guards t + s.inside t = s.registry.lock.holdsOf t

theorem inside_of_isIdle (h : s.IsIdle t) : s.inside t = 0 := by
  rw [inside, if_pos (phase_view_of_isIdle h)]

theorem inside_of_away (ht : s.stage t = some stage) (h : stage.phase = .away) :
    s.inside t = 0 := by
  rw [inside, phase_view ht, if_pos h]

theorem inside_of_ne_away (ht : s.stage t = some stage) (h : stage.phase ≠ .away) :
    s.inside t = 1 := by
  rw [inside, phase_view ht, if_neg h]

theorem inside_move_self (s : System) (r : ProviderRegistry) (t : ThreadId) (stage : Stage) :
    (s.move r t stage).inside t = if stage.phase = .away then 0 else 1 := by
  rw [inside, view_move]
  simp only [Function.update_self]

theorem inside_move_of_ne (s : System) (r : ProviderRegistry) (stage : Stage) (h : u ≠ t) :
    (s.move r t stage).inside u = s.inside u := by
  rw [inside, view_move]
  simp only [Function.update_of_ne h, inside]

namespace Held

theorem owner_of_guards (h : s.Held) (ht : 0 < s.guards t) : s.registry.lock.owner = some t := by
  refine StartupLock.owner_of_holdsOf_pos ?_
  rw [← h.count t]
  omega

theorem owner_of_inside (h : s.Held) (ht : s.inside t = 1) : s.registry.lock.owner = some t := by
  refine StartupLock.owner_of_holdsOf_pos ?_
  rw [← h.count t]
  omega

theorem of_act {discovery : Traced (List Provider)} {next : Traced (Stage × ProviderRegistry)}
    (h : s.Held) (at_ : s.stage t = some stage)
    (step : step? discovery t stage s.registry = some next) :
    (s.move next.value.2 t next.value.1).Held := by
  rcases lock_of_step step with ⟨hclaim, haway, hwork⟩ | ⟨hrelease, hwork, haway⟩ | ⟨hsame, hiff⟩
  -- the hold that is taken is the one of the thread at work
  · refine ⟨StartupLock.isSound_claim hclaim, fun u => ?_⟩
    change s.guards u + _ = next.value.2.lock.holdsOf u
    rw [StartupLock.holdsOf_claim hclaim, ← h.count u]
    by_cases hut : u = t
    · subst hut
      rw [inside_move_self, inside_of_away at_ haway]
      rcases hwork with hwork | hwork <;> simp [hwork]
    · rw [inside_move_of_ne _ _ _ hut]
      simp [hut]
  -- the hold that is released was the one of the thread at work
  · have hinside : s.inside t = 1 :=
      inside_of_ne_away at_ (by rcases hwork with hwork | hwork <;> simp [hwork])
    refine ⟨?_, fun u => ?_⟩
    · change next.value.2.lock.IsSound
      rw [hrelease]
      exact StartupLock.isSound_release _
    · change s.guards u + _ = next.value.2.lock.holdsOf u
      rw [hrelease, StartupLock.holdsOf_release (h.owner_of_inside hinside), ← h.count u]
      by_cases hut : u = t
      · subst hut
        rw [inside_move_self, hinside, if_pos haway, if_pos rfl]
        omega
      · rw [inside_move_of_ne _ _ _ hut, if_neg hut, Nat.sub_zero]
  · refine ⟨?_, fun u => ?_⟩
    · change next.value.2.lock.IsSound
      rw [hsame]
      exact h.sound
    · change s.guards u + _ = next.value.2.lock.holdsOf u
      rw [hsame, ← h.count u]
      by_cases hut : u = t
      · subst hut
        rw [inside_move_self, inside, phase_view at_]
        simp only [hiff]
      · rw [inside_move_of_ne _ _ _ hut]

theorem of_step (h : s.Held) (hstep : Step s l s') : s'.Held := by
  cases hstep with
  | @call t first idle hfirst =>
    refine ⟨h.sound, fun u => ?_⟩
    have hsame : (s.move s.registry t first).inside u = s.inside u := by
      by_cases hut : u = t
      · rw [hut, inside_move_self, inside_of_isIdle idle, if_pos (phase_of_isFirst hfirst)]
      · rw [inside_move_of_ne _ _ _ hut]
    rw [hsame]
    exact h.count u
  | act _ at_ step => exact h.of_act at_ step
  | @lock t lock _ claim =>
    refine ⟨StartupLock.isSound_claim claim, fun u => ?_⟩
    have hcount := h.count u
    change Function.update s.guards t (s.guards t + 1) u + s.inside u = lock.holdsOf u
    rw [StartupLock.holdsOf_claim claim, ← hcount]
    by_cases hut : u = t
    · subst hut
      rw [Function.update_self, if_pos rfl]
      omega
    · rw [Function.update_of_ne hut, if_neg hut, Nat.add_zero]
  | @drop t _ held =>
    refine ⟨StartupLock.isSound_release _, fun u => ?_⟩
    have hcount := h.count u
    change Function.update s.guards t (s.guards t - 1) u + s.inside u =
      s.registry.lock.release.holdsOf u
    rw [StartupLock.holdsOf_release (h.owner_of_guards held), ← hcount]
    by_cases hut : u = t
    · subst hut
      rw [Function.update_self, if_pos rfl]
      omega
    · rw [Function.update_of_ne hut, if_neg hut, Nat.sub_zero]
  | giveUp | interrupt | calm => exact ⟨h.sound, h.count⟩

end Held

theorem IsFresh.held (h : start.IsFresh) : start.Held := by
  refine ⟨by rw [h.registry]; exact StartupLock.isSound_free, fun t => ?_⟩
  have haway : start.view.phase t = .away := by
    simp only [view, Function.comp_apply, h.stage t, phaseOf]
  rw [h.guards t, h.registry, inside, if_pos haway]
  rfl

theorem held_of_run (fresh : start.IsFresh) (h : Run Step start ls s) : s.Held :=
  h.preserves fresh.held fun _ _ _ _ hstep ha => ha.of_step hstep

/-! ### Discovery as one-time work -/

theorem Step.seen (h : Step s l s') (held : s.Held) : OneTime.Step s.view l.act s'.view := by
  cases h with
  | @call t first idle hfirst =>
    rw [view_move, phase_of_isFirst hfirst]
    exact .same (phase_view_of_isIdle idle)
  | act _ at_ step =>
    rw [view_move]
    exact seen_of_step step rfl rfl (phase_view at_)
  | lock idle claim =>
    exact .hand _ (StartupLock.free_of_claim claim) (phase_view_of_isIdle idle)
  | drop idle hguards =>
    exact .hand _ (.inr (held.owner_of_guards hguards)) (phase_view_of_isIdle idle)
  | giveUp | interrupt | calm => exact .stay s.view

theorem seen_of_run (h : Run Step s ls s') (held : s.Held) :
    Run OneTime.Step s.view (ls.map Label.act) s'.view :=
  h.view held (fun _ _ _ hstep ha => ha.of_step hstep) fun _ _ _ hstep ha => hstep.seen ha

theorem IsFresh.inv (h : start.IsFresh) : start.view.Inv := by
  refine OneTime.inv_of_forall_away fun t => ?_
  simp only [view, Function.comp_apply, h.stage t, phaseOf]

theorem inv_of_run (fresh : start.IsFresh) (h : Run Step start ls s) : s.view.Inv :=
  fresh.inv.of_run (seen_of_run h fresh.held)

end System

end LogSetup.ProviderRegistry
