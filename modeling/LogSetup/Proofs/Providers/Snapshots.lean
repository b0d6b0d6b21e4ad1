import LogSetup.Proofs.Providers.Growth
import Mathlib.Data.List.DropRight

/-!
# Snapshots of the list of providers, amid resets

A call for the list looks whether discovery is done and fetches the list in a later step, and takes no
lock for either. A reset drops all providers and tells only then that discovery is not done. So the
list that a call fetches is what was put there since the last reset dropped all, and that need not
contain what a discovery found.

## Main definitions

- `ProviderRegistry.sinceEmptied` : what happened since providers were dropped
- `ProviderRegistry.IsStocked` : discovery has put what it found into the list since then
- `ProviderRegistry.HoldsDiscovery` : a list with all that a discovery found
- `ProviderRegistry.System.Told` : who tells that discovery is done, and when that is true

## Main statements

- `ProviderRegistry.System.told_of_run` : discovery has put what it found into the present list, or a
  reset is yet to tell that it is not done
- `ProviderRegistry.System.snapshot_holdsDiscovery_iff` : which lists that are fetched contain all that
  a discovery found
- `ProviderRegistry.System.not_forall_snapshot_holdsDiscovery` : one that does not
-/

namespace LogSetup.ProviderRegistry

/-! ### The list since it was emptied -/

/-- What happened since providers were dropped, or from the start on if they never were. -/
def sinceEmptied (ls : List Label) : List Label := ls.rtakeWhile fun l => !l.empties

/-- A discovery found these providers and put them into the list. -/
def Discovered (ls : List Label) (context : LoadingContext) (providers : List Provider) : Prop :=
  ∃ aim, .found aim providers ∈ ls.filterMap Label.addition ∧ FoundIn ls context aim providers

/-- A list contains all that a discovery found, in one piece. -/
def HoldsDiscovery (ls : List Label) (context : LoadingContext) (list : List Provider) : Prop :=
  ∃ providers, Discovered ls context providers ∧ providers <:+: list

namespace Label

/-- A step of a call, other than an interrupt or a hold of the start-up lock. -/
def isOfCall : Label → Bool
  | .called _ _ | .did _ _ _ _ _ => true
  | _ => false

end Label

variable {ls ls' : List Label} {l : Label} {context : LoadingContext}

theorem sinceEmptied_of_empties (hl : l.empties = true) : sinceEmptied (ls ++ [l]) = [] :=
  List.rtakeWhile_concat_neg _ _ _ (by simp [hl])

theorem sinceEmptied_snoc (hl : l.empties = false) :
    sinceEmptied (ls ++ [l]) = sinceEmptied ls ++ [l] :=
  List.rtakeWhile_concat_pos _ _ _ (by simp [hl])

theorem mem_of_mem_sinceEmptied (h : l ∈ sinceEmptied ls) : l ∈ ls :=
  (List.rtakeWhile_suffix _ _).subset h

/-- Discovery has put what it found into the list, and nobody has dropped it since. -/
def IsStocked (ls : List Label) : Prop := ∃ l ∈ sinceEmptied ls, l.installs = true

theorem IsStocked.snoc (h : IsStocked ls) (hl : l.empties = false) : IsStocked (ls ++ [l]) := by
  obtain ⟨m, hm, hinstalls⟩ := h
  refine ⟨m, ?_, hinstalls⟩
  rw [sinceEmptied_snoc hl]
  exact List.mem_append_left _ hm

theorem isStocked_of_installs (hl : l.installs = true) : IsStocked (ls ++ [l]) := by
  have hempties : l.empties = false := by
    cases l with
    | did t offer before after events => cases before <;> first | rfl | cases hl
    | called | locked | gaveUp | dropped | interrupted | calmed => rfl
  refine ⟨l, ?_, hl⟩
  rw [sinceEmptied_snoc hempties]
  exact List.mem_append_right _ (List.mem_singleton_self l)

namespace System

variable {s s' start : System} {past : List Label} {t : ThreadId}

theorem providers_eq_of_run (fresh : start.IsFresh) (h : Run Step start ls s) :
    s.registry.providers = (sinceEmptied ls).flatMap Label.added := by
  induction h with
  | nil =>
    rw [fresh.registry]
    rfl
  | @snoc ls l a b hrun hstep ih =>
    rw [providers_of_step hstep (current_of_run fresh hrun), ih]
    cases hl : l.empties with
    | true =>
      rw [if_pos rfl, sinceEmptied_of_empties hl]
      rfl
    | false =>
      rw [if_neg Bool.false_ne_true, sinceEmptied_snoc hl, List.flatMap_append,
        List.flatMap_singleton]

/-- What discovery has put into the list is there until it is dropped. -/
theorem holdsDiscovery_of_isStocked (fresh : start.IsFresh) (h : Run Step start ls s)
    (hstocked : IsStocked ls) : HoldsDiscovery ls start.context s.registry.providers := by
  obtain ⟨l, hl, hinstalls⟩ := hstocked
  obtain ⟨aim, block, hblock⟩ := exists_addition_of_installs hinstalls
  have hmem : l ∈ ls := mem_of_mem_sinceEmptied hl
  refine ⟨block, ⟨aim, List.mem_filterMap.mpr ⟨l, hmem, hblock⟩, ?_⟩, ?_⟩
  · -- the thread that put it there had found it before
    obtain ⟨as, bs, rfl⟩ := List.append_of_mem hmem
    obtain ⟨a, b, ha, hstep, -⟩ := h.split_cons
    obtain ⟨t, stage, ht, hstage⟩ := stage_of_addition hstep hblock
    obtain ⟨u, offer, events, hfound, hproviders⟩ := foundIn_of_run fresh ha ht hstage
    exact ⟨u, offer, events, List.mem_append_left _ hfound, hproviders⟩
  · have hadded : l.added = block := by
      rw [Label.added, hblock]
      rfl
    rw [providers_eq_of_run fresh h]
    obtain ⟨as, bs, hsince⟩ := List.append_of_mem hl
    rw [hsince, List.flatMap_append, List.flatMap_cons, hadded]
    exact ⟨as.flatMap Label.added, bs.flatMap Label.added, List.append_assoc ..⟩

/-- Without that, the list is what hosts installed since it was emptied. -/
theorem providers_eq_of_not_isStocked (fresh : start.IsFresh) (h : Run Step start ls s)
    (hnot : ¬ IsStocked ls) :
    s.registry.providers = (sinceEmptied ls).filterMap Label.loaded := by
  rw [providers_eq_of_run fresh h]
  refine flatMap_added fun l hl => ?_
  obtain ⟨a, b, hstep⟩ := h.step_of_mem (mem_of_mem_sinceEmptied hl)
  refine added_eq_loaded hstep ?_
  by_contra hinstalls
  exact hnot ⟨l, hl, by simpa using hinstalls⟩

/-! ### When it is told that discovery is done -/

/-- When it is told that discovery is done, or about to be told, the list holds what discovery found.
The exception is that a reset has dropped that, and is yet to tell so. -/
structure Told (s : System) (ls : List Label) : Prop where
  publish : ∀ t aim, s.stage t = some (.publish aim) → IsStocked ls
  flag : s.registry.isInitialized = true → IsStocked ls ∨ ∃ t, s.stage t = some .retract

theorem retract_of_step (h : Step s l s') (flag : s'.registry.isInitialized = true)
    (ht : s.stage t = some .retract) : s'.stage t = some .retract := by
  cases h with
  | @call u _ idle =>
    have htu : t ≠ u := fun heq => absurd (idle .retract (heq ▸ ht)) Bool.false_ne_true
    exact (Function.update_of_ne htu ..).trans ht
  | @act u stage next offer at_ step =>
    by_cases htu : t = u
    · subst htu
      rw [ht] at at_
      cases at_
      exact absurd ((flag_of_step step).symm.trans flag) Bool.false_ne_true
    · exact (Function.update_of_ne htu ..).trans ht
  | lock | giveUp | drop | interrupt | calm => exact ht

theorem flag_eq_true_of_step (h : Step s l s') (flag : s'.registry.isInitialized = true) :
    s.registry.isInitialized = true ∨ ∃ t aim, s.stage t = some (.publish aim) := by
  cases h with
  | @act t stage next offer at_ step =>
    have hflag := flag_of_step step
    cases stage with
    | publish aim => exact .inr ⟨t, aim, at_⟩
    | retract => exact absurd (hflag.symm.trans flag) Bool.false_ne_true
    | look | wait | giveUp | lookAgain | discover | extend | swap | release | fetch | read
    | waitToReset | empty | releaseReset | fetched | loaded | cleared =>
      exact .inl (hflag.symm.trans flag)
  | call | lock | giveUp | drop | interrupt | calm => exact .inl flag

theorem publish_of_step {aim : Aim} (h : Step s l s') (ht : s'.stage t = some (.publish aim)) :
    s.stage t = some (.publish aim) ∨ l.installs = true := by
  rcases stage_of_step h ht with hs | ⟨hfirst, -⟩ | ⟨offer, before, next, -, step, hnext, -, rfl⟩
  · exact .inl hs
  · cases hfirst
  · have hbefore := before_of_step step
    rw [← hnext] at hbefore
    obtain ⟨providers, seen, rfl⟩ := hbefore
    exact .inr rfl

theorem empties_of_retract (h : Step s l s') (ht : s'.stage t = some .retract) :
    s.stage t = some .retract ∨ l.empties = true := by
  rcases stage_of_step h ht with hs | ⟨hfirst, -⟩ | ⟨offer, before, next, -, step, hnext, -, rfl⟩
  · exact .inl hs
  · cases hfirst
  · have hreset := isReset_of_step step
    rw [← hnext] at hreset
    cases before with
    | empty => exact .inr rfl
    | waitToReset =>
      simp only [step?] at step
      split at step
      · cases step
        cases hnext
      · cases step
    | retract | releaseReset =>
      cases step
      cases hnext
    | cleared => cases step
    | look | wait | giveUp | lookAgain | discover | extend | swap | publish | release | fetch | read
    | fetched | loaded => cases hreset

theorem retract_of_empties (h : Step s l s') (hl : l.empties = true) :
    ∃ t, s'.stage t = some .retract := by
  cases h with
  | @act t stage next offer at_ step =>
    cases stage with
    | empty =>
      cases step
      exact ⟨t, Function.update_self ..⟩
    | look | wait | giveUp | lookAgain | discover | extend | swap | publish | release | fetch | read
    | waitToReset | retract | releaseReset | fetched | loaded | cleared => cases hl
  | call | lock | giveUp | drop | interrupt | calm => cases hl

theorem Told.of_step (told : s.Told ls) (inv : s.view.Inv) (held : s.Held) (h : Step s l s') :
    s'.Told (ls ++ [l]) := by
  cases hl : l.empties with
  | true =>
    obtain ⟨u, hu⟩ := retract_of_empties h hl
    refine ⟨fun t aim ht => ?_, fun _ => .inr ⟨u, hu⟩⟩
    -- the thread that drops all providers owns the lock, so that no other is at work
    have htu : t = u := (inv.of_step (h.seen held)).unique
      (by simp [phase_view ht, Stage.phase]) (by simp [phase_view hu, Stage.phase])
    rw [htu, hu] at ht
    cases ht
  | false =>
    refine ⟨fun t aim ht => ?_, fun flag => ?_⟩
    · rcases publish_of_step h ht with hs | hinstalls
      · exact (told.publish t aim hs).snoc hl
      · exact isStocked_of_installs hinstalls
    · rcases flag_eq_true_of_step h flag with hflag | ⟨t, aim, ht⟩
      · rcases told.flag hflag with hstocked | ⟨u, hu⟩
        · exact .inl (hstocked.snoc hl)
        · exact .inr ⟨u, retract_of_step h flag hu⟩
      · exact .inl ((told.publish t aim ht).snoc hl)

theorem IsFresh.told (h : start.IsFresh) : start.Told [] := by
  constructor
  · intro t aim ht
    rw [h.stage t] at ht
    cases ht
  · intro flag
    rw [h.registry] at flag
    cases flag

theorem told_of_run (fresh : start.IsFresh) (h : Run Step start ls s) : s.Told ls := by
  induction h with
  | nil => exact fresh.told
  | snoc hrun hstep ih =>
    exact ih.of_step (inv_of_run fresh hrun) (held_of_run fresh hrun) hstep

/-! ### What a call gets -/

/-- A thread that goes on to fetch the list will find there what discovery found. -/
structure HasSeen (s : System) (t : ThreadId) (ls : List Label) : Prop where
  release : ∀ aim, s.stage t = some (.release aim) → IsStocked ls
  fetch : ∀ aim, s.stage t = some (.fetch aim) → IsStocked ls
  stays : ∀ aim, s.stage t ≠ some (.giveUp aim)

/-- No reset has dropped all providers and is yet to tell that discovery is not done. -/
def IsSettled (s : System) : Prop := ∀ t, s.stage t ≠ some .retract

theorem IsSettled.of_step (settled : s.IsSettled) (h : Step s l s') (hl : l.empties = false) :
    s'.IsSettled := by
  intro t ht
  rcases empties_of_retract h ht with hs | hempties
  · exact settled t hs
  · rw [hl] at hempties
    cases hempties

theorem Told.isStocked (told : s.Told ls) (settled : s.IsSettled)
    (flag : s.registry.isInitialized = true) : IsStocked ls := by
  rcases told.flag flag with hstocked | ⟨t, ht⟩
  · exact hstocked
  · exact absurd ht (settled t)

theorem HasSeen.of_step (seen : s.HasSeen t ls) (told : s.Told ls) (settled : s.IsSettled)
    (h : Step s l s') (hl : l.empties = false) (hgives : l.givesUp ≠ some t) :
    s'.HasSeen t (ls ++ [l]) := by
  have hstocked : s.registry.isInitialized = true → IsStocked (ls ++ [l]) :=
    fun hflag => (told.isStocked settled hflag).snoc hl
  refine ⟨fun aim ht => ?_, fun aim ht => ?_, fun aim ht => ?_⟩
  · rcases stage_of_step h ht with hs | ⟨hfirst, -⟩ | ⟨offer, before, next, at_, step, hnext, -⟩
    · exact (seen.release aim hs).snoc hl
    · cases hfirst
    · have hbefore := before_of_step step
      rw [← hnext] at hbefore
      rcases hbefore with rfl | ⟨-, hflag⟩
      · exact (told.publish t aim at_).snoc hl
      · exact hstocked hflag
  · rcases stage_of_step h ht with hs | ⟨hfirst, -⟩ | ⟨offer, before, next, at_, step, hnext, -⟩
    · exact (seen.fetch aim hs).snoc hl
    · cases hfirst
    · have hbefore := before_of_step step
      rw [← hnext] at hbefore
      rcases hbefore with rfl | rfl | ⟨-, hflag⟩
      · exact (seen.release aim at_).snoc hl
      · exact absurd at_ (seen.stays aim)
      · exact hstocked hflag
  · rcases stage_of_step h ht with
      hs | ⟨hfirst, -⟩ | ⟨offer, before, next, -, step, hnext, -, rfl⟩
    · exact seen.stays aim hs
    · cases hfirst
    · have hbefore := before_of_step step
      rw [← hnext] at hbefore
      subst hbefore
      exact hgives rfl

/-- What a call for the list has seen before it fetches the list, if no reset drops all providers
meanwhile. -/
theorem hasSeen_of_call (fresh : start.IsFresh) (h : Run Step start past s) (settled : s.IsSettled)
    {aim : Aim} {b c : System} {during : List Label} (hcall : Step s (.called t (.look aim)) b)
    (hrun : Run Step b during c) (hempties : ∀ l ∈ during, l.empties = false)
    (hgives : ∀ l ∈ during, l.givesUp ≠ some t) :
    c.HasSeen t (past ++ .called t (.look aim) :: during) ∧ c.IsSettled := by
  induction hrun with
  | nil =>
    refine ⟨?_, settled.of_step hcall rfl⟩
    have hlooks : b.stage t = some (.look aim) := by
      cases hcall
      exact Function.update_self ..
    constructor <;> simp [hlooks]
  | @snoc ls l c d hrun hstep ih =>
    obtain ⟨seen, hsettled⟩ := ih (fun m hm => hempties m (List.mem_append_left _ hm))
      fun m hm => hgives m (List.mem_append_left _ hm)
    have hc : Run Step start (past ++ .called t (.look aim) :: ls) c := h.append_cons hcall hrun
    have hl : l.empties = false := hempties l (by simp)
    refine ⟨?_, hsettled.of_step hstep hl⟩
    rw [← List.cons_append, ← List.append_assoc]
    exact seen.of_step (told_of_run fresh hc) hsettled hstep hl (hgives l (by simp))

/-- Which lists that are fetched contain all that a discovery found. Every list that is fetched is
what was put there since the last reset dropped all providers. If discovery has done so meanwhile,
the list contains what it found, in one piece. Otherwise it is what hosts installed since then, and
contains what a discovery found only if hosts have put just that there. A call for the list that does
not give up gets all that a discovery found, provided that no reset has dropped all providers and is
yet to tell so when the call begins, and that none drops them until the list is fetched. -/
theorem snapshot_holdsDiscovery_iff (fresh : start.IsFresh) (h : Run Step start past s) :
    (∀ l list s', Step s l s' → l.snapshot = some list →
      list = (sinceEmptied past).flatMap Label.added ∧
      (¬ IsStocked past → list = (sinceEmptied past).filterMap Label.loaded) ∧
      (HoldsDiscovery past start.context list ↔ (¬ IsStocked past →
        HoldsDiscovery past start.context ((sinceEmptied past).filterMap Label.loaded)))) ∧
    (s.IsSettled → ∀ t b during c offer list events s',
      Step s (.called t (.look .list)) b → Run Step b during c →
      (∀ l ∈ during, l.empties = false) → (∀ l ∈ during, l.givesUp ≠ some t) →
      Step c (.did t offer (.fetch .list) (.fetched (some list)) events) s' →
      HoldsDiscovery (past ++ .called t (.look .list) :: during) start.context list) := by
  constructor
  · intro l list s' hstep hlist
    obtain rfl := providers_of_snapshot hstep hlist
    refine ⟨providers_eq_of_run fresh h, providers_eq_of_not_isStocked fresh h, ?_⟩
    by_cases hstocked : IsStocked past
    · have hholds := holdsDiscovery_of_isStocked fresh h hstocked
      exact ⟨fun _ hnot => absurd hstocked hnot, fun _ => hholds⟩
    · rw [providers_eq_of_not_isStocked fresh h hstocked]
      exact ⟨fun hholds _ => hholds, fun hholds => hholds hstocked⟩
  · intro settled t b during c offer list events s' hcall hrun hempties hgives hfetch
    obtain ⟨seen, -⟩ := hasSeen_of_call fresh h settled hcall hrun hempties hgives
    have hc : Run Step start (past ++ .called t (.look .list) :: during) c :=
      h.append_cons hcall hrun
    obtain ⟨next, at_, -⟩ := step_of_did hfetch
    rw [providers_of_snapshot hfetch rfl]
    exact holdsDiscovery_of_isStocked fresh hc (seen.fetch .list at_)

def oneManifest : List (Except LoadError Source) :=
  [.ok (.ofBytes (Utf8.encode "Log4jAPIVersion: 2.6.0"))]

/-- Thread 0 discovers a provider, and thread 1 sees that discovery is done. Then thread 2 drops all
providers for a reset, and thread 1 fetches none. -/
theorem exists_torn_snapshot :
    ∃ past s s' events, Run Step (rested ⟨"main", 0⟩) past s ∧
      Step s (.did 1 [] (.fetch .list) (.fetched (some [])) events) s' ∧
      (∀ l ∈ past, l.isOfCall = true) ∧ sinceEmptied past = [] ∧
      past.filterMap Label.addition =
        [.found .list (Provider.announceAll ⟨"main", 0⟩ oneManifest).value] := by
  have hlooks : (Stage.look .list).isFirst = true := rfl
  have hresets : Stage.waitToReset.isFirst = true := rfl
  have hask := Run.single (Step.call (s := rested ⟨"main", 0⟩) (t := 0) (isIdle_of_none rfl) hlooks)
  have hwait := hask.snoc (.act (t := 0) [] rfl rfl)
  have hlock := hwait.snoc (.act (t := 0) [] rfl rfl)
  have hlook := hlock.snoc (.act (t := 0) [] rfl rfl)
  have hfound := hlook.snoc (.act (t := 0) oneManifest rfl rfl)
  have hextend := hfound.snoc (.act (t := 0) [] rfl rfl)
  have hswap := hextend.snoc (.act (t := 0) [] rfl rfl)
  have hpublish := hswap.snoc (.act (t := 0) [] rfl rfl)
  have hrelease := hpublish.snoc (.act (t := 0) [] rfl rfl)
  have hdone := hrelease.snoc (.act (t := 0) [] rfl rfl)
  have hcall := hdone.snoc (.call (t := 1) (isIdle_of_none rfl) hlooks)
  have hseen := hcall.snoc (.act (t := 1) [] rfl rfl)
  have hreset := hseen.snoc (.call (t := 2) (isIdle_of_none rfl) hresets)
  have henter := hreset.snoc (.act (t := 2) [] rfl rfl)
  have hempty := henter.snoc (.act (t := 2) [] rfl rfl)
  have hfetch := hempty.snoc (.act (t := 1) [] rfl rfl)
  obtain ⟨s, hrun, hstep⟩ := hfetch.last
  refine ⟨_, s, _, _, hrun, hstep, ?_, rfl, rfl⟩
  simp [Label.isOfCall]

theorem value_announceAll_oneManifest :
    (Provider.announceAll ⟨"main", 0⟩ oneManifest).value =
      [⟨"2.6.0", -1, none, none, .unknown, ⟨"main", 0⟩⟩] := by decide +kernel

theorem not_holdsDiscovery_nil
    (h : ls.filterMap Label.addition =
      [.found .list (Provider.announceAll ⟨"main", 0⟩ oneManifest).value]) :
    ¬ HoldsDiscovery ls context [] := by
  rintro ⟨block, ⟨aim, hblock, -⟩, hinfix⟩
  rw [h, List.mem_singleton, value_announceAll_oneManifest] at hblock
  cases hblock
  cases List.infix_nil.mp hinfix

/-- A list that is fetched need not contain what a discovery found, even if nothing but calls takes
place. -/
theorem not_forall_snapshot_holdsDiscovery :
    ¬ ∀ start past s t offer list events s', start.IsFresh → Run Step start past s →
      (∀ l ∈ past, l.isOfCall = true) →
      Step s (.did t offer (.fetch .list) (.fetched (some list)) events) s' →
      HoldsDiscovery past start.context list := by
  intro hall
  obtain ⟨past, s, s', events, hrun, hfetch, hcalls, -, hadditions⟩ := exists_torn_snapshot
  exact not_holdsDiscovery_nil hadditions
    (hall _ past s 1 [] [] events s' (isFresh_rested _) hrun hcalls hfetch)

/-- In that run the thread gets what hosts installed since the reset dropped all providers, which is
nothing. -/
theorem torn_snapshot_is_empty :
    ∃ past s s' list events, Run Step (rested ⟨"main", 0⟩) past s ∧
      Step s (.did 1 [] (.fetch .list) (.fetched (some list)) events) s' ∧ list = [] ∧
      ¬ HoldsDiscovery past ⟨"main", 0⟩ list := by
  obtain ⟨past, s, s', events, hrun, hfetch, -, hsince, hadditions⟩ := exists_torn_snapshot
  obtain ⟨-, -, hiff⟩ :=
    (snapshot_holdsDiscovery_iff (isFresh_rested _) hrun).1 _ [] s' hfetch rfl
  have hnot : ¬ IsStocked past := by
    rintro ⟨l, hl, -⟩
    rw [hsince] at hl
    cases hl
  refine ⟨past, s, s', [], events, hrun, hfetch, rfl, fun hholds => ?_⟩
  have hloaded := hiff.mp hholds hnot
  rw [hsince] at hloaded
  exact not_holdsDiscovery_nil hadditions hloaded

end System

end LogSetup.ProviderRegistry
