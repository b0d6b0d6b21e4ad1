import LogSetup.Proofs.Providers.Growth

/-!
# Interrupted calls

A thread that waits for the start-up lock gives up when it is interrupted: it clears its flag,
reports, and sets the flag again before its call is over. The interrupt is not lost on the way, and
the call leaves no trace in the registry.

## Main definitions

- `ProviderRegistry.Label.move` : what a step did in the call of a thread
- `ProviderRegistry.GaveUp`, `ProviderRegistry.reports` : how a call went
- `ProviderRegistry.Trail` : what a call has done when it comes to a stage
- `ProviderRegistry.System.InCall` : a call that makes sure of discovery, amid the steps of others
- `ProviderRegistry.System.IsPending` : the interrupt of a thread that has not been lost

## Main statements

- `ProviderRegistry.interrupts_of_step` : what a step does to the flags
- `ProviderRegistry.System.InCall.trail` : what a call has done at each moment
- `ProviderRegistry.System.IsPending.of_run` : interrupts are not lost
- `ProviderRegistry.System.interrupts_are_honoured` : calls that give up, and calls that do not
-/

namespace LogSetup.ProviderRegistry

/-! ### What one step does -/

/-- These steps belong to calls that find discovery done, or give up. -/
def Stage.isOutside : Stage → Stage → Bool
  | .look _, _ | .wait _, .giveUp _ | .giveUp _, _ | .fetch _, _ => true
  | _, _ => false

section Step

variable {discovery : Traced (List Provider)} {me : ThreadId} {stage : Stage} {r : ProviderRegistry}
  {next : Traced (Stage × ProviderRegistry)}

/-- A thread clears its flag when it gives up, and then sets it again. No other flag changes. -/
theorem interrupts_of_step (h : step? discovery me stage r = some next) :
    next.value.2.interrupts =
      match stage, next.value.1 with
      | .wait _, .giveUp _ => r.interrupts.clear me
      | .giveUp _, _ => r.interrupts.raise me
      | _, _ => r.interrupts := by
  cases stage with
  | wait aim =>
    simp only [step?] at h
    split at h
    · cases h
      rfl
    · cases h
      rfl
    · cases h
  | waitToReset =>
    simp only [step?] at h
    split at h
    · cases h
      rfl
    · cases h
  | swap new seen edition =>
    cases h
    simp only [Traced.value_pure]
    split <;> rfl
  | fetch aim => cases aim <;> cases h <;> rfl
  | read source context =>
    cases h
    simp only [Traced.value_bind]
    cases (Provider.announce source context).value <;> rfl
  | look | giveUp | lookAgain | discover | extend | publish | release | empty | retract
  | releaseReset =>
    cases h
    rfl
  | fetched | loaded | cleared => cases h

/-- A step outside the lock changes flags only. -/
theorem frame_of_step (h : step? discovery me stage r = some next)
    (hout : stage.isOutside next.value.1 = true) :
    next.value.2 = { r with interrupts := next.value.2.interrupts } := by
  cases stage with
  | wait aim =>
    simp only [step?] at h
    split at h
    · cases h
      rfl
    · cases h
      cases hout
    · cases h
  | fetch aim => cases aim <;> cases h <;> rfl
  | look | giveUp =>
    cases h
    rfl
  | lookAgain | discover | extend | swap | publish | release | read | waitToReset | empty | retract
  | releaseReset | fetched | loaded | cleared => cases hout

end Step

/-! ### The steps of a call -/

namespace Label

/-- What a step did in the call of a thread: from where the call came, where it went, and what
happened. -/
def move (t : ThreadId) : Label → Option (Stage × Stage × List Event)
  | .did u _ before after events => if u = t then some (before, after, events) else none
  | _ => none

/-- A thread cleared its own flag elsewhere than in a call. -/
def Calms (l : Label) (t : ThreadId) : Prop := l = .calmed t ∨ l = .gaveUp t

theorem givesUp_eq_some_iff {l : Label} {t : ThreadId} :
    l.givesUp = some t ↔ ∃ aim aim' events, l.move t = some (.wait aim, .giveUp aim', events) := by
  constructor
  · intro h
    rw [givesUp.eq_def] at h
    split at h
    · cases h
      exact ⟨_, _, _, if_pos rfl⟩
    · cases h
  · rintro ⟨aim, aim', events, h⟩
    rw [move.eq_def] at h
    split at h
    · split at h
      · cases h
        exact congrArg some ‹_›
      · cases h
    · cases h

theorem givesUp_ne_of_ne_wait {t : ThreadId} {offer : List (Except LoadError Source)}
    {before after : Stage} {events : List Event} (h : ∀ aim, before ≠ .wait aim) :
    (did t offer before after events).givesUp ≠ some t := by
  intro hgives
  obtain ⟨aim, aim', events', hmove⟩ := givesUp_eq_some_iff.mp hgives
  rw [move, if_pos rfl, Option.some.injEq, Prod.mk.injEq] at hmove
  exact h aim hmove.1

end Label

/-- The thread gave up in its call. -/
def GaveUp (t : ThreadId) (ls : List Label) : Prop := ∃ l ∈ ls, l.givesUp = some t

/-- What a thread reported in its call. -/
def reports (t : ThreadId) (ls : List Label) : List Event :=
  (ls.filterMap (Label.move t)).flatMap fun move => move.2.2

variable {t : ThreadId} {aim : Aim} {ls ls' : List Label} {l : Label} {stage : Stage}

theorem gaveUp_iff : GaveUp t ls ↔
    ∃ aim aim' events, (.wait aim, .giveUp aim', events) ∈ ls.filterMap (Label.move t) := by
  simp only [GaveUp, Label.givesUp_eq_some_iff, List.mem_filterMap]
  constructor
  · rintro ⟨l, hl, aim, aim', events, hmove⟩
    exact ⟨aim, aim', events, l, hl, hmove⟩
  · rintro ⟨aim, aim', events, l, hl, hmove⟩
    exact ⟨l, hl, aim, aim', events, hmove⟩

theorem not_gaveUp_snoc (h : ¬ GaveUp t ls) (hl : l.givesUp ≠ some t) : ¬ GaveUp t (ls ++ [l]) := by
  rintro ⟨m, hm, hgives⟩
  rcases List.mem_append.mp hm with hm | hm
  · exact h ⟨m, hm, hgives⟩
  · rw [List.mem_singleton.mp hm] at hgives
    exact hl hgives

/-- What a call that gave up reports. -/
def fatalEvents : List Event := [.status ⟨.fatal, givenUpMessage⟩]

/-- What a call that makes sure of discovery has done when it comes to a stage. Once it has the lock
it does not give up, and after giving up it goes straight to its end. -/
def Trail (t : ThreadId) (aim : Aim) (ls : List Label) : Stage → Prop
  | .look aim' => aim' = aim ∧ ls.filterMap (Label.move t) = []
  | .wait aim' => aim' = aim ∧ ls.filterMap (Label.move t) = [(.look aim, .wait aim, [])]
  | .giveUp aim' => aim' = aim ∧
      ls.filterMap (Label.move t) = [(.look aim, .wait aim, []), (.wait aim, .giveUp aim, [])]
  | .fetch aim' => GaveUp t ls → aim' = aim ∧
      ls.filterMap (Label.move t) = [(.look aim, .wait aim, []), (.wait aim, .giveUp aim, []),
        (.giveUp aim, .fetch aim, fatalEvents)]
  | .fetched providers => GaveUp t ls →
      ls.filterMap (Label.move t) = [(.look aim, .wait aim, []), (.wait aim, .giveUp aim, []),
        (.giveUp aim, .fetch aim, fatalEvents), (.fetch aim, .fetched providers, [])]
  | _ => ¬ GaveUp t ls

namespace Trail

theorem not_gaveUp {aim' : Aim} (h : Trail t aim ls (.wait aim')) : ¬ GaveUp t ls := by
  obtain ⟨-, hmoves⟩ := h
  intro hgave
  obtain ⟨_, _, _, hmem⟩ := gaveUp_iff.mp hgave
  rw [hmoves] at hmem
  cases List.mem_singleton.mp hmem

theorem of_step {discovery : Traced (List Provider)} {r : ProviderRegistry}
    {next : Traced (Stage × ProviderRegistry)} (h : Trail t aim ls stage)
    (step : step? discovery t stage r = some next) (offer : List (Except LoadError Source)) :
    Trail t aim (ls ++ [.did t offer stage next.value.1 next.events]) next.value.1 := by
  have hmoves : ∀ before after events,
      (ls ++ [Label.did t offer before after events]).filterMap (Label.move t) =
        ls.filterMap (Label.move t) ++ [(before, after, events)] := by
    intro before after events
    rw [List.filterMap_append]
    simp [Label.move]
  have hlater : (∀ aim', stage ≠ .wait aim') → ¬ GaveUp t ls → ∀ after events,
      ¬ GaveUp t (ls ++ [.did t offer stage after events]) :=
    fun hwait hnot _ _ => not_gaveUp_snoc hnot (Label.givesUp_ne_of_ne_wait hwait)
  cases stage with
  | look aim' =>
    cases step
    obtain ⟨rfl, hnil⟩ := h
    cases r.isInitialized with
    | true =>
      intro hgave
      obtain ⟨_, _, _, hmem⟩ := gaveUp_iff.mp hgave
      rw [hmoves, hnil] at hmem
      cases List.mem_singleton.mp hmem
    | false =>
      refine ⟨rfl, ?_⟩
      rw [hmoves, hnil]
      rfl
  | wait aim' =>
    have hnot := h.not_gaveUp
    obtain ⟨rfl, hlooked⟩ := h
    simp only [step?] at step
    split at step
    · cases step
      refine ⟨rfl, ?_⟩
      rw [hmoves, hlooked]
      rfl
    · cases step
      exact not_gaveUp_snoc hnot (by simp [Label.givesUp])
    · cases step
  | giveUp aim' =>
    cases step
    obtain ⟨rfl, hgiving⟩ := h
    intro _
    refine ⟨rfl, ?_⟩
    rw [hmoves, hgiving]
    rfl
  | fetch aim' =>
    cases aim' <;>
    · cases step
      intro hgave
      have hbefore : GaveUp t ls := by
        by_contra hnot
        exact hlater (fun _ => Stage.noConfusion) hnot _ _ hgave
      obtain ⟨rfl, hfetching⟩ := h hbefore
      rw [hmoves, hfetching]
      rfl
  -- the other stages come after the lock was taken, so that the call does not give up
  | release aim' =>
    cases step
    intro hgave
    exact absurd hgave (hlater (fun _ => Stage.noConfusion) h _ _)
  | lookAgain aim' =>
    cases step
    cases r.isInitialized <;> exact hlater (fun _ => Stage.noConfusion) h _ _
  | swap new seen edition =>
    cases step
    simp only [Traced.value_pure]
    split
    · cases new <;> exact hlater (fun _ => Stage.noConfusion) h _ _
    · exact hlater (fun _ => Stage.noConfusion) h _ _
  | read source context =>
    cases step
    simp only [Traced.value_bind]
    cases (Provider.announce source context).value <;>
      exact hlater (fun _ => Stage.noConfusion) h _ _
  | waitToReset =>
    simp only [step?] at step
    split at step
    · cases step
      exact hlater (fun _ => Stage.noConfusion) h _ _
    · cases step
  | discover | extend | publish | empty | retract | releaseReset =>
    cases step
    exact hlater (fun _ => Stage.noConfusion) h _ _
  | fetched | loaded | cleared => cases step

/-- What a call has done depends on its own steps alone. -/
theorem of_moves (h : Trail t aim ls stage)
    (hmoves : ls'.filterMap (Label.move t) = ls.filterMap (Label.move t)) :
    Trail t aim ls' stage := by
  have hgave : GaveUp t ls' ↔ GaveUp t ls := by rw [gaveUp_iff, gaveUp_iff, hmoves]
  cases stage <;> simpa only [Trail, hmoves, hgave] using h

/-- A call that is giving up has given up. -/
theorem gaveUp {aim' : Aim} (h : Trail t aim ls (.giveUp aim')) : GaveUp t ls := by
  obtain ⟨-, hmoves⟩ := h
  refine gaveUp_iff.mpr ⟨aim, aim, [], ?_⟩
  rw [hmoves]
  exact List.mem_cons_of_mem _ (List.mem_singleton_self _)

/-- A call that gave up, when it is over. -/
theorem of_isDone (h : Trail t aim ls stage) (hdone : stage.isDone = true) (hgave : GaveUp t ls) :
    ∃ providers, ls.filterMap (Label.move t) = [(.look aim, .wait aim, []),
      (.wait aim, .giveUp aim, []), (.giveUp aim, .fetch aim, fatalEvents),
      (.fetch aim, .fetched providers, [])] := by
  cases stage with
  | fetched providers => exact ⟨providers, h hgave⟩
  | loaded | cleared => exact absurd hgave h
  | look | wait | giveUp | lookAgain | discover | extend | swap | publish | release | fetch | read
  | waitToReset | empty | retract | releaseReset => cases hdone

end Trail

namespace System

variable {s s' a b : System} {u : ThreadId}

/-! ### Calls -/

/-- The steps taken while a thread is in a call. Threads clear their flags themselves, which this one
does not do meanwhile. -/
def Within (t : ThreadId) (a : System) (l : Label) (b : System) : Prop :=
  Step a l b ∧ ¬ a.IsIdle t ∧ l ≠ .calmed t

/-- A call that makes sure of discovery, from its first step on. -/
structure InCall (t : ThreadId) (aim : Aim) (s : System) (ls : List Label) (a : System) : Prop where
  begins : s.stage t = some (.look aim)
  run : Run (Within t) s ls a

theorem stage_move_self (s : System) (r : ProviderRegistry) (t : ThreadId) (stage : Stage) :
    (s.move r t stage).stage t = some stage := Function.update_self ..

theorem stage_of_thread_ne (h : Step a l b) (hl : l.thread ≠ some t) : b.stage t = a.stage t := by
  cases h with
  | call | act =>
    have hne : t ≠ _ := fun heq => hl (congrArg some heq.symm)
    exact Function.update_of_ne hne ..
  | lock | giveUp | drop | interrupt | calm => rfl

/-- In its call a thread does nothing but go on with it. -/
theorem Within.did_of_thread (h : Within t a l b) (hl : l.thread = some t) :
    ∃ offer stage next, a.stage t = some stage ∧
      step? (Provider.announceAll a.context offer) t stage a.registry = some next ∧
      l = .did t offer stage next.value.1 next.events ∧ b = a.move next.value.2 t next.value.1 := by
  obtain ⟨hstep, hbusy, -⟩ := h
  cases hstep with
  | act offer at_ step =>
    cases hl
    exact ⟨offer, _, _, at_, step, rfl, rfl⟩
  | call idle | lock idle | giveUp idle | drop idle =>
    cases hl
    exact absurd idle hbusy
  | interrupt | calm => cases hl

theorem within_of_step {next : Traced (Stage × ProviderRegistry)}
    (offer : List (Except LoadError Source)) (ha : a.stage t = some stage)
    (step : step? (Provider.announceAll a.context offer) t stage a.registry = some next) :
    Within t a (.did t offer stage next.value.1 next.events)
      (a.move next.value.2 t next.value.1) := by
  refine ⟨.act offer ha step, fun idle => ?_, Label.noConfusion⟩
  have hdone := idle stage ha
  cases stage with
  | fetched | loaded | cleared => cases step
  | look | wait | giveUp | lookAgain | discover | extend | swap | publish | release | fetch | read
  | waitToReset | empty | retract | releaseReset => cases hdone

theorem within_move {r : ProviderRegistry} {next : Traced (Stage × ProviderRegistry)}
    (offer : List (Except LoadError Source))
    (h : step? (Provider.announceAll s.context offer) t stage r = some next) :
    Within t (s.move r t stage) (.did t offer stage next.value.1 next.events)
      (s.move next.value.2 t next.value.1) := by
  have hwithin := within_of_step (a := s.move r t stage) offer (stage_move_self ..) h
  simpa only [move, Function.update_idem] using hwithin

theorem move_of_thread_ne (hl : l.thread ≠ some t) : l.move t = none := by
  cases l with
  | did u => exact if_neg fun heq => hl (congrArg some heq)
  | called | locked | gaveUp | dropped | interrupted | calmed => rfl

/-- What a call has done at each moment. -/
theorem InCall.trail (h : InCall t aim s ls a) :
    ∃ stage, a.stage t = some stage ∧ Trail t aim ls stage := by
  obtain ⟨hs, hrun⟩ := h
  induction hrun with
  | nil => exact ⟨_, hs, rfl, rfl⟩
  | @snoc ls l a b _ hstep ih =>
    obtain ⟨stage, ha, htrail⟩ := ih
    by_cases hl : l.thread = some t
    · obtain ⟨offer, stage', next, ha', step, rfl, rfl⟩ := hstep.did_of_thread hl
      cases Option.some.inj (ha.symm.trans ha')
      exact ⟨_, stage_move_self .., htrail.of_step step offer⟩
    · refine ⟨stage, (stage_of_thread_ne hstep.1 hl).trans ha, htrail.of_moves ?_⟩
      rw [List.filterMap_append, List.filterMap_cons, move_of_thread_ne hl]
      exact List.append_nil _

/-- The interrupt of a thread that has not been lost: its flag is set, or its call is about to set
it again. -/
def IsPending (s : System) (t : ThreadId) : Prop :=
  s.registry.interrupts.isRaised t = true ∨ ∃ aim, s.stage t = some (.giveUp aim)

/-- The steps of a thread leave the flags of all others. -/
theorem isRaised_of_step (h : Step a l b) (hl : l.thread = some u) (hne : t ≠ u) :
    b.registry.interrupts.isRaised t = a.registry.interrupts.isRaised t := by
  cases h with
  | @act _ stage next _ _ step =>
    cases hl
    show next.value.2.interrupts.isRaised t = _
    rw [interrupts_of_step step]
    split <;> simp [hne]
  | giveUp =>
    cases hl
    exact if_neg hne
  | call | lock | drop => rfl
  | interrupt | calm => cases hl

theorem Within.not_calms (h : Within t a l b) : ¬ l.Calms t := by
  obtain ⟨hstep, hbusy, hcalm⟩ := h
  rintro (rfl | rfl)
  · exact hcalm rfl
  · cases hstep with
    | giveUp idle => exact hbusy idle

namespace IsPending

theorem of_step (h : a.IsPending t) (hstep : Step a l b) (hl : ¬ l.Calms t) : b.IsPending t := by
  by_cases hthread : l.thread = some t
  · cases hstep with
    | @act _ stage next offer at_ step =>
      cases hthread
      have hflags := interrupts_of_step step
      have hafter := stage_move_self a next.value.2 t next.value.1
      rcases h with hraised | ⟨aim, hgiving⟩
      · split at hflags
        · exact .inr ⟨_, hafter.trans (congrArg some ‹_›)⟩
        · refine .inl ?_
          show next.value.2.interrupts.isRaised t = true
          rw [hflags]
          exact if_pos rfl
        · refine .inl ?_
          show next.value.2.interrupts.isRaised t = true
          rw [hflags]
          exact hraised
      · cases Option.some.inj (hgiving.symm.trans at_)
        cases step
        exact .inl (if_pos rfl)
    | giveUp =>
      cases hthread
      exact absurd (.inr rfl) hl
    | call idle =>
      cases hthread
      rcases h with hraised | ⟨aim, hgiving⟩
      · exact .inl hraised
      · cases idle _ hgiving
    | lock | drop => exact h
    | interrupt | calm => cases hthread
  · have hstage := stage_of_thread_ne hstep hthread
    rcases h with hraised | ⟨aim, hgiving⟩
    · refine .inl ?_
      cases hl' : l.thread with
      | some u =>
        have hne : t ≠ u := fun heq => hthread (hl'.trans (congrArg some heq.symm))
        rw [isRaised_of_step hstep hl' hne]
        exact hraised
      | none =>
        cases hstep with
        | interrupt u =>
          show (if t = u then true else _) = true
          split
          · rfl
          · exact hraised
        | calm u =>
          have hne : t ≠ u := fun heq => hl (.inl (congrArg Label.calmed heq.symm))
          exact (if_neg hne).trans hraised
        | call | act | lock | giveUp | drop => cases hl'
    · exact .inr ⟨aim, hstage.trans hgiving⟩

/-- Interrupts are not lost, unless a thread clears its flag itself. -/
theorem of_run (h : s.IsPending t) (hrun : Run Step s ls s') (hls : ∀ l ∈ ls, ¬ l.Calms t) :
    s'.IsPending t :=
  hrun.preserves (I := (IsPending · t)) h fun _ l _ hl hstep ha => ha.of_step hstep (hls l hl)

theorem isRaised (h : s.IsPending t) (idle : s.IsIdle t) :
    s.registry.interrupts.isRaised t = true := by
  rcases h with hraised | ⟨aim, hgiving⟩
  · exact hraised
  · cases idle _ hgiving

end IsPending

/-! ### Calls that give up, and calls that do not -/

namespace InCall

theorem mem_of_takes (h : Run.Takes (Within t) s ls s' a l b) : l ∈ ls := by
  obtain ⟨as, bs, rfl, -⟩ := h
  simp

theorem moves_of_gaveUp (h : InCall t aim s ls s') (ends : s'.IsIdle t) (hgave : GaveUp t ls) :
    ∃ providers, ls.filterMap (Label.move t) = [(.look aim, .wait aim, []),
      (.wait aim, .giveUp aim, []), (.giveUp aim, .fetch aim, fatalEvents),
      (.fetch aim, .fetched providers, [])] := by
  obtain ⟨last, hlast, htrail⟩ := h.trail
  exact htrail.of_isDone (ends last hlast) hgave

/-- The steps of a call that gave up leave all but the flags. -/
theorem frame_of_gaveUp (h : InCall t aim s ls s') (ends : s'.IsIdle t) (hgave : GaveUp t ls)
    (htakes : Run.Takes (Within t) s ls s' a l b) (hl : l.thread = some t) :
    b.registry = { a.registry with interrupts := b.registry.interrupts } := by
  obtain ⟨providers, hmoves⟩ := h.moves_of_gaveUp ends hgave
  have hmem := mem_of_takes htakes
  obtain ⟨-, -, -, -, hstep, -⟩ := htakes
  obtain ⟨offer, stage, next, -, step, rfl, rfl⟩ := hstep.did_of_thread hl
  have hmove : (stage, next.value.1, next.events) ∈ ls.filterMap (Label.move t) :=
    List.mem_filterMap.mpr ⟨_, hmem, if_pos rfl⟩
  refine frame_of_step step ?_
  simp only [hmoves, List.mem_cons, Prod.mk.injEq, List.not_mem_nil, or_false] at hmove
  rcases hmove with ⟨hfrom, hto, -⟩ | ⟨hfrom, hto, -⟩ | ⟨hfrom, hto, -⟩ | ⟨hfrom, hto, -⟩ <;>
    rw [hfrom, hto] <;> rfl

theorem reports_of_gaveUp (h : InCall t aim s ls s') (ends : s'.IsIdle t) (hgave : GaveUp t ls) :
    reports t ls = fatalEvents := by
  obtain ⟨providers, hmoves⟩ := h.moves_of_gaveUp ends hgave
  rw [reports, hmoves]
  rfl

theorem isRaised_of_gaveUp (h : InCall t aim s ls s') (ends : s'.IsIdle t) (hgave : GaveUp t ls) :
    s'.registry.interrupts.isRaised t = true := by
  obtain ⟨l, hl, hgives⟩ := hgave
  obtain ⟨before, after, rfl⟩ := List.append_of_mem hl
  obtain ⟨a, b, -, hstep, hrest⟩ := h.run.split_cons
  obtain ⟨_, aim', _, hmove⟩ := Label.givesUp_eq_some_iff.mp hgives
  have hthread : l.thread = some t := by
    by_contra hne
    rw [move_of_thread_ne hne] at hmove
    cases hmove
  -- from that step on the call is about to set the flag again
  have hpending : b.IsPending t := by
    obtain ⟨offer, stage, next, -, -, rfl, rfl⟩ := hstep.did_of_thread hthread
    rw [Label.move, if_pos rfl, Option.some.injEq, Prod.mk.injEq, Prod.mk.injEq] at hmove
    exact .inr ⟨aim', (stage_move_self ..).trans (congrArg some hmove.2.1)⟩
  refine IsPending.isRaised ?_ ends
  exact hrest.preserves (I := (IsPending · t)) hpending
    fun _ _ _ _ hwithin ha => ha.of_step hwithin.1 hwithin.not_calms

/-- The steps of a call that has not given up leave the flags. -/
theorem interrupts_of_not_gaveUp (h : InCall t aim s ls s') (hnot : ¬ GaveUp t ls)
    (htakes : Run.Takes (Within t) s ls s' a l b) (hl : l.thread = some t) :
    b.registry.interrupts = a.registry.interrupts := by
  have hmem := mem_of_takes htakes
  obtain ⟨as, bs, rfl, hbefore, hstep, -⟩ := htakes
  obtain ⟨now, hnow, htrail⟩ := InCall.trail ⟨h.begins, hbefore⟩
  obtain ⟨offer, stage, next, ha, step, rfl, rfl⟩ := hstep.did_of_thread hl
  cases Option.some.inj (hnow.symm.trans ha)
  have hflags := interrupts_of_step step
  split at hflags
  · rename_i hafter
    refine absurd ⟨_, hmem, ?_⟩ hnot
    rw [hafter]
    rfl
  · obtain ⟨m, hm, hgives⟩ := htrail.gaveUp
    exact absurd ⟨m, List.mem_append_left _ hm, hgives⟩ hnot
  · exact hflags

theorem exists_fetches {aim' : Aim} (ha : a.stage t = some (.fetch aim')) :
    ∃ l b, l.thread = some t ∧ Within t a l b ∧ b.IsIdle t := by
  have hidle : ∀ r providers, (a.move r t (.fetched providers)).IsIdle t := by
    intro r providers stage hstage
    cases (stage_move_self ..).symm.trans hstage
    rfl
  cases aim' <;> exact ⟨_, _, rfl, within_of_step [] ha rfl, hidle _ _⟩

/-- A call that has given up comes to its end without waiting for anybody. -/
theorem exists_ends_of_gaveUp (h : InCall t aim s ls a) (hgave : GaveUp t ls) :
    ∃ later s', (∀ l ∈ later, l.thread = some t) ∧ InCall t aim s (ls ++ later) s' ∧
      s'.IsIdle t := by
  obtain ⟨hs, hrun⟩ := h
  obtain ⟨stage, ha, htrail⟩ := InCall.trail ⟨hs, hrun⟩
  cases stage with
  | giveUp aim' =>
    have hgives : Within t a (.did t [] (.giveUp aim') (.fetch aim') fatalEvents) _ :=
      within_of_step [] ha rfl
    obtain ⟨l, b, hl, hfetches, idle⟩ := exists_fetches (stage_move_self a _ t _)
    refine ⟨[_] ++ [l], b, ?_, ⟨hs, hrun.append ((Run.single hgives).snoc hfetches)⟩, idle⟩
    intro m hm
    rcases List.mem_append.mp hm with hm | hm
    · rw [List.mem_singleton.mp hm]
      rfl
    · rwa [List.mem_singleton.mp hm]
  | fetch aim' =>
    obtain ⟨l, b, hl, hfetches, idle⟩ := exists_fetches ha
    refine ⟨[l], b, ?_, ⟨hs, hrun.snoc hfetches⟩, idle⟩
    intro m hm
    rwa [List.mem_singleton.mp hm]
  | fetched =>
    refine ⟨[], a, fun l hl => absurd hl List.not_mem_nil, ⟨hs, ?_⟩, isIdle_of_isDone ha rfl⟩
    rwa [List.append_nil]
  | wait => exact absurd hgave htrail.not_gaveUp
  | look =>
    obtain ⟨-, hnil⟩ := htrail
    obtain ⟨_, _, _, hmem⟩ := gaveUp_iff.mp hgave
    rw [hnil] at hmem
    cases hmem
  | lookAgain | discover | extend | swap | publish | release | read | waitToReset | empty | retract
  | releaseReset | loaded | cleared => exact absurd hgave htrail

end InCall

/-- Interrupts are honoured, and none is lost. A call that makes sure of discovery and is interrupted
while it waits leaves everything but the flags, reports one fatal message, and is over with the flag
of its thread set; once it has given up it waits for nobody. The steps of a call that has not given
up leave all flags. Unless a thread clears its flag itself, a flag that was set is set whenever the
thread is in no call. No step of a thread changes the flag of another one. -/
theorem interrupts_are_honoured (s : System) (t : ThreadId) :
    (∀ aim ls s', InCall t aim s ls s' → GaveUp t ls → s'.IsIdle t →
      (∀ a l b, Run.Takes (Within t) s ls s' a l b → l.thread = some t →
        b.registry = { a.registry with interrupts := b.registry.interrupts }) ∧
      reports t ls = fatalEvents ∧ s'.registry.interrupts.isRaised t = true) ∧
    (∀ aim ls a, InCall t aim s ls a → GaveUp t ls → ∃ later s',
      (∀ l ∈ later, l.thread = some t) ∧ InCall t aim s (ls ++ later) s' ∧ s'.IsIdle t) ∧
    (∀ aim ls s', InCall t aim s ls s' → ¬ GaveUp t ls →
      ∀ a l b, Run.Takes (Within t) s ls s' a l b → l.thread = some t →
        b.registry.interrupts = a.registry.interrupts) ∧
    (∀ ls s', Run Step s ls s' → s.registry.interrupts.isRaised t = true →
      (∀ l ∈ ls, ¬ l.Calms t) → s'.IsIdle t → s'.registry.interrupts.isRaised t = true) ∧
    ∀ l u s', Step s l s' → l.thread = some u → t ≠ u →
      s'.registry.interrupts.isRaised t = s.registry.interrupts.isRaised t := by
  refine ⟨?_, ?_, ?_, ?_, ?_⟩
  · intro aim ls s' h hgave ends
    exact ⟨fun a l b => h.frame_of_gaveUp ends hgave, h.reports_of_gaveUp ends hgave,
      h.isRaised_of_gaveUp ends hgave⟩
  · intro aim ls a h hgave
    exact h.exists_ends_of_gaveUp hgave
  · intro aim ls s' h hnot a l b
    exact h.interrupts_of_not_gaveUp hnot
  · intro ls s' h hraised hls idle
    exact IsPending.isRaised (.of_run (.inl hraised) h hls) idle
  · intro l u s' h
    exact isRaised_of_step h

/-- A call that finds discovery not done gives up when it is interrupted, be the lock free or held. -/
theorem exists_gaveUp (hs : s.stage t = some (.look aim)) (hdone : s.registry.isInitialized = false) :
    ∃ ls a, InCall t aim s ls a ∧ GaveUp t ls := by
  have hlooks : step? (Provider.announceAll s.context []) t (.look aim) s.registry =
      some (pure (.wait aim, s.registry)) := by
    simp [step?, hdone]
  have hgives (r : ProviderRegistry) (hraised : r.interrupts.isRaised t = true) :
      step? (Provider.announceAll s.context []) t (.wait aim) r =
        some (pure (.giveUp aim, { r with interrupts := r.interrupts.clear t })) := by
    simp [step?, StartupLock.attempt, hraised]
  have hinterrupted (r : ProviderRegistry) : Within t (s.move r t (.wait aim)) (.interrupted t)
      (s.move { r with interrupts := r.interrupts.raise t } t (.wait aim)) := by
    refine ⟨.interrupt _ t, fun idle => ?_, Label.noConfusion⟩
    cases idle _ (stage_move_self ..)
  have hrun := ((Run.single (within_of_step [] hs hlooks)).snoc (hinterrupted _)).snoc
    (within_move [] (hgives _ (if_pos rfl)))
  exact ⟨_, _, ⟨hs, hrun⟩, _, List.mem_append_right _ (List.mem_singleton_self _), rfl⟩

/-- A thread that is interrupted while a host holds the lock gives up, and its flag stays set. -/
theorem interrupted_waiter_gives_up :
    ∃ s ls s', s.registry.lock = ⟨some 1, 1⟩ ∧ InCall 2 .list s ls s' ∧ GaveUp 2 ls ∧
      s'.IsIdle 2 ∧ reports 2 ls = fatalEvents ∧ s'.registry.interrupts.isRaised 2 = true := by
  have hlooks := stage_move_self (rested ⟨"main", 0⟩) ⟨⟨some 1, 1⟩, .none, false, [], 0⟩ 2
    (.look .list)
  obtain ⟨ls, a, hcall, hgave⟩ := exists_gaveUp hlooks rfl
  obtain ⟨hhonoured, hends, -⟩ := interrupts_are_honoured _ 2
  obtain ⟨later, s', -, hwhole, idle⟩ := hends _ _ _ hcall hgave
  have hgave' : GaveUp 2 (ls ++ later) := by
    obtain ⟨l, hl, hgives⟩ := hgave
    exact ⟨l, List.mem_append_left _ hl, hgives⟩
  obtain ⟨-, hreports, hraised⟩ := hhonoured _ _ _ hwhole hgave' idle
  exact ⟨_, _, s', rfl, hwhole, hgave', idle, hreports, hraised⟩

end System

end LogSetup.ProviderRegistry
