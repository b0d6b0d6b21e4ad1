import LogSetup.Proofs.Catalog.Frozen

/-!
# Where a fetched list comes from

The list is written by discovery and by resets. A thread that has seen that the list is made fetches
it in a later step. When a reset empties the list in between, the thread fetches no factories at
all, although discovery made some.

## Main definitions

- `Catalog.discovered` : the lists that discovery made in a run
- `Catalog.lastWrite` : the last write to the list in a run
- `Catalog.System.Written` : what the last write tells of the state

## Main statements

- `Catalog.System.fetched_discovered_iff` : which fetched lists discovery made
- `Catalog.System.not_forall_fetched_discovered` : one that it did not make
-/

namespace LogSetup.Catalog

/-- A list that discovery made in a step. -/
def Label.discovered : Label → Option (List Descriptor)
  | .did _ (.rank _) (.store list) _ => some list
  | _ => none

/-- A write to the list in a step: discovery wrote a list, or a reset emptied it. -/
def Label.write : Label → Option (Option (List Descriptor))
  | .did _ (.store list) _ _ => some (some list)
  | .did _ .empty _ _ => some none
  | _ => none

/-- The lists that discovery made in a run. -/
def discovered (ls : List Label) : List (List Descriptor) := ls.filterMap Label.discovered

/-- The last write to the list in a run. -/
def lastWrite (ls : List Label) : Option (Option (List Descriptor)) :=
  ls.reverse.findSome? Label.write

variable {ls : List Label} {l : Label} {list : List Descriptor}

theorem mem_discovered_snoc (h : list ∈ discovered ls) : list ∈ discovered (ls ++ [l]) := by
  rw [discovered, List.filterMap_append]
  exact List.mem_append_left _ h

theorem lastWrite_snoc (ls : List Label) (l : Label) :
    lastWrite (ls ++ [l]) = l.write.or (lastWrite ls) := by
  rw [lastWrite, List.reverse_append, List.reverse_singleton, List.singleton_append,
    List.findSome?_cons]
  cases l.write <;> rfl

namespace System

variable {s s' start : System} {past : List Label} {t : ThreadId} {events : List Event}

/-- The last write tells what the list is, and that some stages cannot be at present. -/
def Written (s : System) : Option (Option (List Descriptor)) → Prop
  | none => s.catalog.list = [] ∧ s.catalog.isInitialized = false ∧
      ∀ t, s.stage t ≠ some .publish ∧ s.stage t ≠ some .release ∧ s.stage t ≠ some .fetch
  | some none => s.catalog.list = [] ∧ (∀ t, s.stage t ≠ some .publish) ∧
      (s.catalog.isInitialized = true → ∃ u, s.stage u = some .retract)
  | some (some list) => s.catalog.list = list

/-- What the history of a run tells of its last state. -/
structure Recorded (s : System) (ls : List Label) : Prop where
  stored : ∀ t list, s.stage t = some (.store list) → list ∈ discovered ls
  last : ∀ list, lastWrite ls = some (some list) → list ∈ discovered ls
  written : s.Written (lastWrite ls)

theorem write_of_step (h : Step s l s') :
    match l.write with
    | some (some list) => s'.catalog.list = list ∧ ∃ t, s.stage t = some (.store list)
    | some none => s'.catalog.list = [] ∧ ∃ t, s'.stage t = some .retract
    | none => s'.catalog.list = s.catalog.list := by
  cases h with
  | ask | reset | change => rfl
  | @act t stage next at_ step =>
    have hlist := list_of_step step
    cases stage with
    | store list => exact ⟨hlist, t, at_⟩
    | empty =>
      cases step
      exact ⟨rfl, t, Function.update_self ..⟩
    | look | wait | lookAgain | discover | build | rank | publish | release | fetch | waitToReset
    | retract | releaseReset | fetched | cleared => exact hlist

/-- The flag is set by a thread that is about to tell that the list is made. -/
theorem flag_eq_true_of_step (h : Step s l s') (flag : s'.catalog.isInitialized = true) :
    s.catalog.isInitialized = true ∨ ∃ t, s.stage t = some .publish := by
  cases h with
  | ask | reset | change => exact .inl flag
  | @act t stage next at_ step =>
    have hflag := flag_of_step step
    cases stage with
    | publish => exact .inr ⟨t, at_⟩
    | retract => exact absurd (hflag.symm.trans flag) Bool.false_ne_true
    | look | wait | lookAgain | discover | build | rank | store | release | fetch | waitToReset
    | empty | releaseReset | fetched | cleared => exact .inl (hflag.symm.trans flag)

/-- A thread that is about to tell that the list is dropped stays so until it tells it. -/
theorem retract_of_step (h : Step s l s') (flag : s'.catalog.isInitialized = true)
    (ht : s.stage t = some .retract) : s'.stage t = some .retract := by
  cases h with
  | @ask u idle | @reset u idle =>
    have htu : t ≠ u := fun heq => absurd (idle .retract (heq ▸ ht)) Bool.false_ne_true
    exact (Function.update_of_ne htu ..).trans ht
  | @act u stage next at_ step =>
    by_cases htu : t = u
    · subst htu
      rw [ht] at at_
      cases at_
      exact absurd ((flag_of_step step).symm.trans flag) Bool.false_ne_true
    · exact (Function.update_of_ne htu ..).trans ht
  | change => exact ht

/-- A thread comes to tell that the list is made by writing one. -/
theorem publish_of_step (h : Step s l s') (hl : l.write = none) (ht : s'.stage t = some .publish) :
    s.stage t = some .publish := by
  rcases stage_of_step h ht with hs | heq | heq | ⟨before, next, -, step, hnext, rfl⟩
  · exact hs
  · cases heq
  · cases heq
  · have hbefore := before_of_step step
    rw [← hnext] at hbefore
    obtain ⟨list, rfl⟩ := hbefore
    cases hl

/-- While nothing is written, nobody comes to fetch the list. -/
theorem written_none_of_step (h : s.Written none) (hstep : Step s l s') (hl : l.write = none) :
    s'.Written none := by
  obtain ⟨hlist, hflag, hstage⟩ := h
  have hlist' := write_of_step hstep
  rw [hl] at hlist'
  refine ⟨hlist'.trans hlist, ?_, fun t => ⟨fun ht => ?_, fun ht => ?_, fun ht => ?_⟩⟩
  · by_contra hnot
    rcases flag_eq_true_of_step hstep (Bool.not_eq_false _ ▸ hnot) with htrue | ⟨t, ht⟩
    · exact absurd (hflag.symm.trans htrue) Bool.false_ne_true
    · exact (hstage t).1 ht
  · exact (hstage t).1 (publish_of_step hstep hl ht)
  · rcases stage_of_step hstep ht with hs | heq | heq | ⟨before, next, at_, step, hnext, -⟩
    · exact (hstage t).2.1 hs
    · cases heq
    · cases heq
    · have hbefore := before_of_step step
      rw [← hnext] at hbefore
      rcases hbefore with rfl | ⟨-, htrue⟩
      · exact (hstage t).1 at_
      · exact absurd (hflag.symm.trans htrue) Bool.false_ne_true
  · rcases stage_of_step hstep ht with hs | heq | heq | ⟨before, next, at_, step, hnext, -⟩
    · exact (hstage t).2.2 hs
    · cases heq
    · cases heq
    · have hbefore := before_of_step step
      rw [← hnext] at hbefore
      rcases hbefore with rfl | ⟨-, htrue⟩
      · exact (hstage t).2.1 at_
      · exact absurd (hflag.symm.trans htrue) Bool.false_ne_true

theorem Recorded.of_step (h : s.Recorded ls) (inv : s.view.Inv) (hstep : Step s l s') :
    s'.Recorded (ls ++ [l]) := by
  have hwrite := write_of_step hstep
  constructor
  · intro t list ht
    rcases stage_of_step hstep ht with hs | heq | heq | ⟨before, next, -, step, hnext, rfl⟩
    · exact mem_discovered_snoc (h.stored t list hs)
    · cases heq
    · cases heq
    · have hbefore := before_of_step step
      rw [← hnext] at hbefore
      obtain ⟨named, rfl⟩ := hbefore
      simp [discovered, Label.discovered]
  · intro list hlast
    rw [lastWrite_snoc] at hlast
    cases hl : l.write with
    | none => exact mem_discovered_snoc (h.last list (by rwa [hl, Option.none_or] at hlast))
    | some w =>
      rw [hl, Option.some_or] at hlast
      cases hlast
      rw [hl] at hwrite
      obtain ⟨-, t, ht⟩ := hwrite
      exact mem_discovered_snoc (h.stored t list ht)
  · rw [lastWrite_snoc]
    cases hl : l.write with
    | some w =>
      rw [hl] at hwrite
      cases w with
      | some list => exact hwrite.1
      | none =>
        -- the thread that emptied the list is at work, so no other is about to publish
        obtain ⟨hlist, u, hu⟩ := hwrite
        refine ⟨hlist, fun t ht => ?_, fun _ => ⟨u, hu⟩⟩
        have htu : t = u := (inv.of_step hstep.seen).unique
          (by simp [phase_view ht, Stage.phase]) (by simp [phase_view hu, Stage.phase])
        rw [htu, hu] at ht
        cases ht
    | none =>
      rw [hl] at hwrite
      rw [Option.none_or]
      have hwritten := h.written
      cases hlast : lastWrite ls with
      | none => exact written_none_of_step (hlast ▸ hwritten) hstep hl
      | some w =>
        rw [hlast] at hwritten
        cases w with
        | some list => exact hwrite.trans hwritten
        | none =>
          obtain ⟨hlist, hpublish, hretract⟩ := hwritten
          refine ⟨hwrite.trans hlist, fun t ht => hpublish t (publish_of_step hstep hl ht),
            fun flag => ?_⟩
          rcases flag_eq_true_of_step hstep flag with htrue | ⟨t, ht⟩
          · obtain ⟨u, hu⟩ := hretract htrue
            exact ⟨u, retract_of_step hstep flag hu⟩
          · exact absurd ht (hpublish t)

theorem IsFresh.recorded (h : start.IsFresh) : start.Recorded [] := by
  constructor
  · intro t list ht
    rw [h.stage t] at ht
    cases ht
  · intro list hlast
    cases hlast
  · refine ⟨by rw [h.catalog]; rfl, by rw [h.catalog]; rfl, fun t => ?_⟩
    simp [h.stage t]

theorem recorded_of_run (fresh : start.IsFresh) (h : Run Step start ls s) : s.Recorded ls := by
  induction h with
  | nil => exact fresh.recorded
  | snoc hrun hstep ih => exact ih.of_step (inv_of_run fresh hrun) hstep

/-- While no reset is at work and the list is made, it is one that discovery made. -/
theorem Recorded.mem_discovered (h : s.Recorded ls) (calm : s.IsCalm)
    (flag : s.catalog.isInitialized = true) : s.catalog.list ∈ discovered ls := by
  have hwritten := h.written
  cases hlast : lastWrite ls with
  | none =>
    rw [hlast] at hwritten
    exact absurd (hwritten.2.1.symm.trans flag) Bool.false_ne_true
  | some w =>
    rw [hlast] at hwritten
    cases w with
    | some list =>
      have hlist : s.catalog.list = list := hwritten
      exact hlist ▸ h.last list hlast
    | none =>
      -- the reset that emptied the list has yet to clear the flag, so it is at work
      obtain ⟨u, hu⟩ := hwritten.2.2 flag
      exact absurd calm (not_isCalm_of_retract hu)

/-- Which fetched lists discovery made. When the last write to the list was that of a reset, the
thread gets no factories, and discovery made that list only if it once made an empty one; all
other lists that are fetched were made by discovery. So are all lists that threads get by calls
during which no reset is at work. -/
theorem fetched_discovered_iff (fresh : start.IsFresh) (h : Run Step start past s) :
    (∀ t list events s', Step s (.did t .fetch (.fetched list) events) s' →
      (list ∈ discovered past ↔ (lastWrite past = some none → [] ∈ discovered past)) ∧
      (lastWrite past = some none → list = [])) ∧
    (s.IsCalm → ∀ ls s', Run Step s ls s' → (∀ l ∈ ls, l.entersReset = false) →
      ∀ t list, Gets ls t list → list ∈ discovered (past ++ ls)) := by
  have inv : s.view.Inv := inv_of_run fresh h
  have hrecorded : s.Recorded past := recorded_of_run fresh h
  constructor
  · intro t list events s' hstep
    obtain ⟨next, at_, step, hnext, -, -⟩ := step_of_did hstep
    cases step
    cases hnext
    have hwritten := hrecorded.written
    cases hlast : lastWrite past with
    | none =>
      rw [hlast] at hwritten
      exact absurd at_ (hwritten.2.2 t).2.2
    | some w =>
      rw [hlast] at hwritten
      cases w with
      | some list =>
        have hlist : s.catalog.list = list := hwritten
        have hmem : s.catalog.list ∈ discovered past := hlist ▸ hrecorded.last list hlast
        have hnot : some (some list) ≠ some none := by simp
        exact ⟨⟨fun _ heq => absurd heq hnot, fun _ => hmem⟩, fun heq => absurd heq hnot⟩
      | none =>
        rw [hwritten.1]
        exact ⟨⟨fun hmem _ => hmem, fun hmem => hmem rfl⟩, fun _ => rfl⟩
  · intro calm ls s' hrun hquiet t list hgets
    have hstretch : s.Stretch ls s' := ⟨hrun, inv, calm, hquiet⟩
    obtain ⟨hflag, rfl⟩ := hstretch.list_of_gets hgets
    exact (recorded_of_run fresh (h.append hrun)).mem_discovered hstretch.calm_last hflag

/-- Thread 0 makes the list, and thread 1 sees that it is made. Then thread 2 empties it for a
reset, and thread 1 fetches no factories. -/
theorem exists_torn_read :
    ∃ past s s' events, Run Step (rested oneFactory (.memory [])) past s ∧
      Step s (.did 1 .fetch (.fetched []) events) s' ∧ lastWrite past = some none ∧
      [] ∉ discovered past := by
  have idle {s : System} {t : ThreadId} (h : s.stage t = none) : s.IsIdle t := by
    intro stage hstage
    rw [h] at hstage
    cases hstage
  have hask := Run.single (Step.ask (s := rested oneFactory (.memory [])) (t := 0) (idle rfl))
  have hwait := hask.snoc (.act (t := 0) rfl rfl)
  have hlock := hwait.snoc (.act (t := 0) rfl rfl)
  have hlook := hlock.snoc (.act (t := 0) rfl rfl)
  have hread := hlook.snoc (.act (t := 0) rfl rfl)
  have hbuild := hread.snoc (.act (t := 0) rfl rfl)
  have hrank := hbuild.snoc (.act (t := 0) rfl rfl)
  have hstore := hrank.snoc (.act (t := 0) rfl rfl)
  have hpublish := hstore.snoc (.act (t := 0) rfl rfl)
  have hrelease := hpublish.snoc (.act (t := 0) rfl rfl)
  have hcall := hrelease.snoc (.ask (t := 1) (idle rfl))
  have hseen := hcall.snoc (.act (t := 1) rfl rfl)
  have hreset := hseen.snoc (.reset (t := 2) (idle rfl))
  have henter := hreset.snoc (.act (t := 2) rfl rfl)
  have hempty := henter.snoc (.act (t := 2) rfl rfl)
  have hfetch := hempty.snoc (.act (t := 1) rfl rfl)
  obtain ⟨s, hrun, hstep⟩ := hfetch.last
  refine ⟨_, s, _, _, hrun, hstep, rfl, ?_⟩
  change [] ∉ [[Descriptor.ofFactory "xml" 10 _]]
  simp

/-- Discovery need not have made the list that a thread fetches. -/
theorem not_forall_fetched_discovered :
    ¬ ∀ start past s t list events s', start.IsFresh → Run Step start past s →
      Step s (.did t .fetch (.fetched list) events) s' → list ∈ discovered past := by
  intro hall
  obtain ⟨past, s, s', events, hrun, hfetch, -, hnot⟩ := exists_torn_read
  exact hnot (hall _ past s 1 [] events s' (isFresh_rested ..) hrun hfetch)

/-- In that run discovery did not make the list that the thread fetches. -/
theorem torn_read_not_discovered :
    ∃ past s s' list events, Run Step (rested oneFactory (.memory [])) past s ∧
      Step s (.did 1 .fetch (.fetched list) events) s' ∧ list = [] ∧ list ∉ discovered past := by
  obtain ⟨past, s, s', events, hrun, hfetch, hlast, hnot⟩ := exists_torn_read
  obtain ⟨hiff, hempty⟩ :=
    (fetched_discovered_iff (isFresh_rested ..) hrun).1 1 [] events s' hfetch
  exact ⟨past, s, s', [], events, hrun, hfetch, hempty hlast,
    fun hmem => hnot (hiff.mp hmem hlast)⟩

end System

end LogSetup.Catalog
