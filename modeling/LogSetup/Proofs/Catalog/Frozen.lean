import LogSetup.Proofs.Catalog.System

/-!
# What stays while nobody resets the catalog

While nobody resets the catalog, a list that is there stays there, whatever happens to plug-ins and
settings. So all calls that take place meanwhile get the same list.

## Main definitions

- `Catalog.System.IsCalm` : nobody is about to drop the list
- `Catalog.System.Stretch` : a stretch of a run during which no reset is at work
- `Catalog.Gets` : a call that begins and ends in a run, and its list
- `Catalog.System.Sees` : a thread sees the list that stays

## Main statements

- `Catalog.System.Stretch.frozen` : a list that is there stays there
- `Catalog.System.Stretch.list_of_gets` : what calls get while nobody resets
-/

namespace LogSetup.Catalog

/-- In a run a thread calls for the list and gets it. -/
def Gets (ls : List Label) (t : ThreadId) (list : List Descriptor) : Prop :=
  ∃ before during after events,
    ls = before ++ .asked t :: (during ++ .did t .fetch (.fetched list) events :: after)

namespace System

variable {s s' : System} {l : Label} {ls : List Label} {t : ThreadId} {list : List Descriptor}

/-- Nobody has taken the lock to drop the list, or it is dropped. -/
def IsCalm (s : System) : Prop := ∀ t, s.view.phase t ≠ .undoing

theorem isCalm_of_idle (idle : ∀ t, s.IsIdle t) : s.IsCalm := by
  intro t ht
  rw [phase_view_of_isIdle (idle t)] at ht
  cases ht

theorem step_of_did {before after : Stage} {events : List Event}
    (h : Step s (.did t before after events) s') :
    ∃ next, s.stage t = some before ∧
      step? s.plugins s.settings t before s.catalog = some next ∧ after = next.value.1 ∧
      events = next.events ∧
      s' = { s with
        catalog := next.value.2
        stage := Function.update s.stage t (some after) } := by
  cases h with
  | act at_ step => exact ⟨_, at_, step, rfl, rfl, rfl⟩

theorem not_isCalm_of_empty (h : s.stage t = some .empty) : ¬ s.IsCalm :=
  fun calm => calm t (phase_view h)

theorem not_isCalm_of_retract (h : s.stage t = some .retract) : ¬ s.IsCalm :=
  fun calm => calm t (phase_view h)

/-- A thread comes to drop the list only by taking the lock for it. -/
theorem not_undoing_of_step {plugins : PluginTable Factory} {settings : Settings} {c : Catalog}
    {stage : Stage} {next : Traced (Stage × Catalog)}
    (h : step? plugins settings t stage c = some next) (hcalm : stage.phase ≠ .undoing)
    (hl : stage ≠ .waitToReset) : next.value.1.phase ≠ .undoing := by
  cases stage with
  | waitToReset => exact absurd rfl hl
  | empty | retract => exact absurd rfl hcalm
  | wait =>
    simp only [step?] at h
    split at h
    · cases h
      simp [Stage.phase]
    · cases h
  | look | lookAgain =>
    cases h
    cases c.isInitialized <;> simp [Stage.phase]
  | discover | build | rank | store | publish | release | fetch | releaseReset =>
    cases h
    simp [Stage.phase]
  | fetched | cleared => cases h

theorem IsCalm.of_step (calm : s.IsCalm) (h : Step s l s') (hl : l.entersReset = false) :
    s'.IsCalm := by
  cases h with
  | @ask u | @reset u =>
    intro t ht
    by_cases htu : t = u
    · simp [view, enter, htu, phaseOf, Stage.phase] at ht
    · simp only [view, enter, Function.comp_apply, Function.update_of_ne htu] at ht
      exact calm t ht
  | @act u stage next at_ step =>
    intro t
    rw [view_update]
    by_cases htu : t = u
    · subst htu
      have hcalm := calm t
      rw [phase_view at_] at hcalm
      simp only [Function.update_self]
      exact not_undoing_of_step step hcalm fun heq => by simp [heq, Label.entersReset] at hl
    · simpa only [Function.update_of_ne htu] using calm t
  | change => exact calm

/-- While nobody resets, a list that is there stays there. -/
theorem frozen_of_step (inv : s.view.Inv) (calm : s.IsCalm) (h : Step s l s')
    (flag : s.catalog.isInitialized = true) :
    s'.catalog.isInitialized = true ∧ s'.catalog.list = s.catalog.list := by
  cases h with
  | ask | reset | change => exact ⟨flag, rfl⟩
  | @act t stage next at_ step =>
    have hflag := flag_of_step step
    have hlist := list_of_step step
    have hagrees := inv.agrees t
    rw [phase_view at_] at hagrees
    cases stage with
    | store | publish =>
      -- the flag is not set while discovery is under way
      have hfalse : s.catalog.isInitialized = false := hagrees
      rw [hfalse] at flag
      cases flag
    | empty => exact absurd calm (not_isCalm_of_empty at_)
    | retract => exact absurd calm (not_isCalm_of_retract at_)
    | look | wait | lookAgain | discover | build | rank | release | fetch | waitToReset
    | releaseReset | fetched | cleared => exact ⟨hflag.trans flag, hlist⟩

/-- A thread that is about to fetch the list, or has fetched it, sees the one that stays. -/
def Sees (s : System) (t : ThreadId) : Prop :=
  match s.stage t with
  | some .fetch => s.catalog.isInitialized = true
  | some (.fetched list) => s.catalog.isInitialized = true ∧ s.catalog.list = list
  | _ => True

theorem Sees.of_stage_eq (sees : s.Sees t) (inv : s.view.Inv) (calm : s.IsCalm) (h : Step s l s')
    (hstage : s'.stage t = s.stage t) : s'.Sees t := by
  -- another thread took the step, and it left the list
  have frozen := frozen_of_step inv calm h
  simp only [Sees, hstage] at sees ⊢
  split at sees
  · exact (frozen sees).1
  · exact ⟨(frozen sees.1).1, (frozen sees.1).2.trans sees.2⟩
  · trivial

theorem Sees.of_step (sees : s.Sees t) (inv : s.view.Inv) (calm : s.IsCalm) (h : Step s l s') :
    s'.Sees t := by
  by_cases hthread : l.thread = some t
  · cases h with
    | ask =>
      cases hthread
      simp only [Sees, enter, Function.update_self]
    | reset =>
      cases hthread
      simp only [Sees, enter, Function.update_self]
    | @act _ stage next at_ step =>
      cases hthread
      have hagrees := inv.agrees t
      rw [phase_view at_] at hagrees
      simp only [Sees, Function.update_self]
      simp only [Sees, at_] at sees
      cases stage with
      | look =>
        cases step
        cases hflag : s.catalog.isInitialized with
        | true => simp [hflag]
        | false => simp
      | wait | waitToReset =>
        simp only [step?] at step
        split at step
        · cases step
          trivial
        · cases step
      | lookAgain =>
        cases step
        cases s.catalog.isInitialized <;> trivial
      | release =>
        cases step
        exact hagrees
      | fetch =>
        cases step
        exact ⟨sees, rfl⟩
      | discover | build | rank | store | publish | empty | retract | releaseReset =>
        cases step
        trivial
      | fetched | cleared => cases step
    | change => cases hthread
  · refine sees.of_stage_eq inv calm h ?_
    cases h with
    | ask | reset | act => exact Function.update_of_ne (fun heq => hthread (by rw [heq]; rfl)) ..
    | change => rfl

/-- A stretch of a run during which no reset is at work. -/
structure Stretch (s : System) (ls : List Label) (s' : System) : Prop where
  run : Run Step s ls s'
  inv : s.view.Inv
  calm : s.IsCalm
  quiet : ∀ l ∈ ls, l.entersReset = false

namespace Stretch

variable {as bs : List Label} {a b : System}

theorem inv_last (h : s.Stretch ls s') : s'.view.Inv := h.inv.of_run (seen_of_run h.run)

theorem calm_last (h : s.Stretch ls s') : s'.IsCalm :=
  h.run.preserves h.calm fun _ l _ hl hstep ha => ha.of_step hstep (h.quiet l hl)

theorem split_cons (h : s.Stretch (as ++ l :: bs) s') :
    ∃ a b, s.Stretch as a ∧ Step a l b ∧ b.Stretch bs s' := by
  obtain ⟨a, b, ha, hstep, hb⟩ := h.run.split_cons
  have hfront : s.Stretch as a :=
    ⟨ha, h.inv, h.calm, fun l hl => h.quiet l (List.mem_append_left _ hl)⟩
  have hl := h.quiet l (List.mem_append_right _ (List.mem_cons_self ..))
  refine ⟨a, b, hfront, hstep, hb, hfront.inv_last.of_step hstep.seen,
    hfront.calm_last.of_step hstep hl, fun l hl => ?_⟩
  exact h.quiet l (List.mem_append_right _ (List.mem_cons_of_mem _ hl))

theorem of_mem (h : s.Stretch ls s') (hl : l ∈ ls) :
    ∃ as a b, as <+: ls ∧ s.Stretch as a ∧ Step a l b := by
  obtain ⟨as, bs, rfl⟩ := List.append_of_mem hl
  obtain ⟨a, b, ha, hstep, -⟩ := h.split_cons
  exact ⟨as, a, b, List.prefix_append .., ha, hstep⟩

theorem preserves {I : System → Prop} (h : s.Stretch ls s') (hs : I s)
    (keep : ∀ a l b, a.view.Inv → a.IsCalm → Step a l b → I a → I b) : I s' := by
  have hall : (s'.view.Inv ∧ s'.IsCalm) ∧ I s' := by
    refine h.run.preserves (I := fun b => (b.view.Inv ∧ b.IsCalm) ∧ I b) ⟨⟨h.inv, h.calm⟩, hs⟩ ?_
    rintro a l b hl hstep ⟨⟨hinv, hcalm⟩, ha⟩
    exact ⟨⟨hinv.of_step hstep.seen, hcalm.of_step hstep (h.quiet l hl)⟩,
      keep a l b hinv hcalm hstep ha⟩
  exact hall.2

theorem frozen (h : s.Stretch ls s') (flag : s.catalog.isInitialized = true) :
    s'.catalog.isInitialized = true ∧ s'.catalog.list = s.catalog.list := by
  refine h.preserves
    (I := fun b => b.catalog.isInitialized = true ∧ b.catalog.list = s.catalog.list) ⟨flag, rfl⟩ ?_
  rintro a l b hinv hcalm hstep ⟨hflag, hlist⟩
  obtain ⟨hflag', hlist'⟩ := frozen_of_step hinv hcalm hstep hflag
  exact ⟨hflag', hlist'.trans hlist⟩

/-- A call gets the list that is there at the end of the stretch. -/
theorem list_of_gets (h : s.Stretch ls s') (hgets : Gets ls t list) :
    s'.catalog.isInitialized = true ∧ s'.catalog.list = list := by
  obtain ⟨before, during, after, events, rfl⟩ := hgets
  obtain ⟨a, b, -, hask, h⟩ := h.split_cons
  obtain ⟨c, d, hc, hfetch, hafter⟩ := h.split_cons
  have hsees : b.Sees t := by
    cases hask
    simp only [Sees, enter, Function.update_self]
  -- from the call on, the thread sees the list that stays
  have hcsees : c.Sees t :=
    hc.preserves (I := fun x => x.Sees t) hsees fun _ _ _ hinv hcalm hstep ha =>
      ha.of_step hinv hcalm hstep
  have hdsees := hcsees.of_step hc.inv_last hc.calm_last hfetch
  obtain ⟨next, -, -, -, -, rfl⟩ := step_of_did hfetch
  simp only [Sees, Function.update_self] at hdsees
  obtain ⟨hflag, hlist⟩ := hafter.frozen hdsees.1
  exact ⟨hflag, hlist.trans hdsees.2⟩

end Stretch

end System

end LogSetup.Catalog
