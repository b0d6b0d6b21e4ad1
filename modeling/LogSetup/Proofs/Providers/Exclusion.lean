import LogSetup.Proofs.Providers.Replacing

/-!
# What the start-up lock excludes

A host takes the start-up lock and installs its providers before anybody discovers others. While a
thread owns the lock, other threads may install providers too, but they neither discover any nor
reset the registry.

## Main definitions

- `ProviderRegistry.Stage.isGuarded` : the stages at which a call owns the lock
- `ProviderRegistry.Label.isGuarded` : a step of a call that owns the lock

## Main statements

- `ProviderRegistry.System.step_of_other` : what other threads can do while a thread owns the lock
- `ProviderRegistry.System.discovery_under_lock` : who discovers providers, how often, and what the
  lock keeps others from
-/

namespace LogSetup.ProviderRegistry

/-- From taking the lock to releasing it: at these stages a call looks whether discovery is done,
discovers providers and puts them into the list, tells that discovery is done, or resets the
registry. -/
def Stage.isGuarded : Stage → Bool
  | .lookAgain _ | .discover _ | .extend (.found _ _) | .swap (.found _ _) _ _ | .publish _
  | .release _ | .empty | .retract | .releaseReset => true
  | _ => false

theorem Stage.isGuarded_eq_true_iff (stage : Stage) :
    stage.isGuarded = true ↔ stage.phase ≠ .away := by
  cases stage with
  | extend new | swap new => cases new <;> simp [Stage.isGuarded, Stage.phase, Addition.phase]
  | look | wait | giveUp | lookAgain | discover | publish | release | fetch | read | waitToReset
  | empty | retract | releaseReset | fetched | loaded | cleared =>
    simp [Stage.isGuarded, Stage.phase]

namespace Label

/-- A step of a call that owns the lock. -/
def isGuarded : Label → Bool
  | .did _ _ before _ _ => before.isGuarded
  | _ => false

def beginsDiscovery : Label → Bool
  | .did _ _ (.discover _) _ _ => true
  | _ => false

/-- It was told that discovery is done. -/
def completesDiscovery : Label → Bool
  | .did _ _ (.publish _) _ _ => true
  | _ => false

/-- It was told that discovery is not done. -/
def retracts : Label → Bool
  | .did _ _ .retract _ _ => true
  | _ => false

end Label

namespace System

variable {s s' start : System} {l : Label} {ls past : List Label} {t : ThreadId} {stage : Stage}

theorem Held.owner_of_isGuarded (held : s.Held) (ht : s.stage t = some stage)
    (h : stage.isGuarded = true) : s.registry.lock.owner = some t :=
  held.owner_of_inside (inside_of_ne_away ht (stage.isGuarded_eq_true_iff.mp h))

theorem not_installs_of_not_isGuarded (h : l.isGuarded = false) : l.installs = false := by
  cases l with
  | did t offer before after events =>
    cases before with
    | swap new =>
      cases new with
      | found => cases h
      | installed => cases after <;> rfl
    | look | wait | giveUp | lookAgain | discover | extend | publish | release | fetch | read
    | waitToReset | empty | retract | releaseReset | fetched | loaded | cleared => rfl
  | called | locked | gaveUp | dropped | interrupted | calmed => rfl

/-- While a thread owns the lock, another thread can put a provider behind the list, and leaves the
lock, the flag and what the list holds. -/
theorem step_of_other (held : s.Held) (current : s.Current)
    (owner : s.registry.lock.owner = some t) (h : Step s l s') (hl : l.thread ≠ some t) :
    l.isGuarded = false ∧ s'.registry.lock = s.registry.lock ∧
      s'.registry.isInitialized = s.registry.isInitialized ∧
      s'.registry.providers = s.registry.providers ++ l.loaded.toList := by
  have hproviders := providers_of_step h current
  have hadded := fun hguarded => added_eq_loaded h (not_installs_of_not_isGuarded hguarded)
  cases h with
  | @act u stage next offer at_ step =>
    -- only an owner of the lock takes a guarded step
    have hut : s.registry.lock.owner ≠ some u := by
      rw [owner]
      exact fun heq => hl heq.symm
    have hguarded : stage.isGuarded = false := by
      cases hstage : stage.isGuarded with
      | true => exact absurd (held.owner_of_isGuarded at_ hstage) hut
      | false => rfl
    have haway : stage.phase = .away := by
      by_contra hnot
      rw [stage.isGuarded_eq_true_iff.mpr hnot] at hguarded
      cases hguarded
    refine ⟨hguarded, ?_, ?_, ?_⟩
    · rcases lock_of_step step with ⟨hclaim, -⟩ | ⟨-, hwork, -⟩ | ⟨hsame, -⟩
      · rcases StartupLock.free_of_claim hclaim with hnone | hsome
        · rw [owner] at hnone
          cases hnone
        · exact absurd hsome hut
      · rw [haway] at hwork
        rcases hwork with hwork | hwork <;> cases hwork
      · exact hsame
    · have hflag := flag_of_step step
      cases stage with
      | publish | retract => cases hguarded
      | look | wait | giveUp | lookAgain | discover | extend | swap | release | fetch | read
      | waitToReset | empty | releaseReset | fetched | loaded | cleared => exact hflag
    · rw [hproviders, hadded hguarded]
      cases stage with
      | empty => cases hguarded
      | look | wait | giveUp | lookAgain | discover | extend | swap | publish | release | fetch
      | read | waitToReset | retract | releaseReset | fetched | loaded | cleared => rfl
  | @lock u _ _ claim =>
    rcases StartupLock.free_of_claim claim with hnone | hsome
    · rw [owner] at hnone
      cases hnone
    · exact absurd (hsome.symm.trans owner) hl
  | @drop u _ hguards => exact absurd ((held.owner_of_guards hguards).symm.trans owner) hl
  | call | giveUp | interrupt | calm =>
    exact ⟨rfl, rfl, rfl, (List.append_nil _).symm⟩

/-- What all other threads together can do while a thread owns the lock. -/
theorem run_of_others (held : s.Held) (current : s.Current)
    (owner : s.registry.lock.owner = some t) (h : Run Step s ls s')
    (hls : ∀ l ∈ ls, l.thread ≠ some t) :
    (∀ l ∈ ls, l.isGuarded = false) ∧ s'.registry.lock = s.registry.lock ∧
      s'.registry.isInitialized = s.registry.isInitialized ∧
      s'.registry.providers = s.registry.providers ++ ls.filterMap Label.loaded := by
  induction h with
  | nil => exact ⟨fun l hl => absurd hl List.not_mem_nil, rfl, rfl, (List.append_nil _).symm⟩
  | @snoc ls l a b hrun hstep ih =>
    obtain ⟨hguarded, hlock, hflag, hproviders⟩ := ih fun l hl => hls l (List.mem_append_left _ hl)
    have ha : a.Held ∧ a.Current := hrun.preserves (I := fun x => x.Held ∧ x.Current)
      ⟨held, current⟩ fun _ _ _ _ hstep hx => ⟨hx.1.of_step hstep, hx.2.of_step hstep⟩
    obtain ⟨hguarded', hlock', hflag', hproviders'⟩ :=
      step_of_other ha.1 ha.2 (hlock.symm ▸ owner) hstep (hls l (by simp))
    refine ⟨fun m hm => ?_, hlock'.trans hlock, hflag'.trans hflag, ?_⟩
    · rcases List.mem_append.mp hm with hm | hm
      · exact hguarded m hm
      · rw [List.mem_singleton.mp hm]
        exact hguarded'
    · rw [hproviders', hproviders, List.append_assoc, List.filterMap_append]
      cases hloaded : l.loaded <;> simp [hloaded]

/-! ### Discovery between two resets -/

theorem act_ne_undone_of_not_retracts (h : l.retracts = false) : l.act ≠ .undone := by
  cases l with
  | did t offer before after events =>
    cases before with
    | retract => cases h
    | swap new => cases new <;> cases after <;> exact OneTime.Act.noConfusion
    | look | wait | giveUp | lookAgain | discover | extend | publish | release | fetch | read
    | waitToReset | empty | releaseReset | fetched | loaded | cleared =>
      exact OneTime.Act.noConfusion
  | called | locked | gaveUp | dropped | interrupted | calmed => exact OneTime.Act.noConfusion

theorem undone_not_mem (h : ∀ l ∈ ls, l.retracts = false) : .undone ∉ ls.map Label.act := by
  intro hmem
  obtain ⟨l, hl, hact⟩ := List.mem_map.mp hmem
  exact act_ne_undone_of_not_retracts (h l hl) hact

/-- A kind of label that tells one act for discovery occurs as often as the act. -/
theorem countP_eq_count {act : OneTime.Act} {p : Label → Bool}
    (hp : ∀ l : Label, p l = (l.act == act)) :
    ls.countP p = (ls.map Label.act).count act := by
  rw [List.count, List.countP_map, funext hp]
  rfl

theorem beginsDiscovery_eq (l : Label) : l.beginsDiscovery = (l.act == .worked 1) := by
  cases l with
  | did t offer before after events =>
    cases before with
    | swap new => cases new <;> cases after <;> rfl
    | look | wait | giveUp | lookAgain | discover | extend | publish | release | fetch | read
    | waitToReset | empty | retract | releaseReset | fetched | loaded | cleared => rfl
  | called | locked | gaveUp | dropped | interrupted | calmed => rfl

theorem completesDiscovery_eq (l : Label) : l.completesDiscovery = (l.act == .published) := by
  cases l with
  | did t offer before after events =>
    cases before with
    | swap new => cases new <;> cases after <;> rfl
    | look | wait | giveUp | lookAgain | discover | extend | publish | release | fetch | read
    | waitToReset | empty | retract | releaseReset | fetched | loaded | cleared => rfl
  | called | locked | gaveUp | dropped | interrupted | calmed => rfl

theorem countP_beginsDiscovery (inv : s.view.Inv) (held : s.Held) (h : Run Step s ls s')
    (hls : ∀ l ∈ ls, l.retracts = false) : ls.countP Label.beginsDiscovery ≤ 1 := by
  rw [countP_eq_count beginsDiscovery_eq]
  exact OneTime.count_worked_le_one inv (seen_of_run h held) (undone_not_mem hls)

theorem countP_completesDiscovery (inv : s.view.Inv) (held : s.Held) (h : Run Step s ls s')
    (hls : ∀ l ∈ ls, l.retracts = false) : ls.countP Label.completesDiscovery ≤ 1 := by
  rw [countP_eq_count completesDiscovery_eq]
  exact OneTime.count_published_le_one inv (seen_of_run h held) (undone_not_mem hls)

/-- What holds in any state that threads have brought about.
A call that discovers providers, tells that discovery is done, or resets the registry owns the lock;
so does whoever holds a guard. Unless a reset tells that discovery is not done, it begins at most
once and is completed at most once. While a thread owns the lock, the steps of all other threads are
not guarded: they leave the lock and the flag as they are, and all they do to the list is to put
behind it what hosts install. -/
theorem discovery_under_lock (fresh : start.IsFresh) (reached : Run Step start past s) :
    (∀ t stage, s.stage t = some stage → stage.isGuarded = true →
      s.registry.lock.owner = some t) ∧
    (∀ t, 0 < s.guards t → s.registry.lock.owner = some t) ∧
    (∀ ls s', Run Step s ls s' → (∀ l ∈ ls, l.retracts = false) →
      ls.countP Label.beginsDiscovery ≤ 1 ∧ ls.countP Label.completesDiscovery ≤ 1) ∧
    (∀ t, s.registry.lock.owner = some t → ∀ ls s', Run Step s ls s' →
      (∀ l ∈ ls, l.thread ≠ some t) →
      (∀ l ∈ ls, l.isGuarded = false) ∧ s'.registry.lock = s.registry.lock ∧
        s'.registry.isInitialized = s.registry.isInitialized ∧
        s'.registry.providers = s.registry.providers ++ ls.filterMap Label.loaded) := by
  have held : s.Held := held_of_run fresh reached
  have inv : s.view.Inv := inv_of_run fresh reached
  refine ⟨fun t stage ht h => held.owner_of_isGuarded ht h, fun t ht => held.owner_of_guards ht,
    ?_, ?_⟩
  · intro ls s' h hls
    exact ⟨countP_beginsDiscovery inv held h hls, countP_completesDiscovery inv held h hls⟩
  · intro t owner ls s' h hls
    exact run_of_others held (current_of_run fresh reached) owner h hls

/-- A host that takes the lock first keeps all others from discovery. -/
theorem nobody_discovers_before_host :
    ∃ s, Run Step (rested ⟨"main", 0⟩) [.locked 1] s ∧ s.registry.lock.owner = some 1 ∧
      ∀ ls s', Run Step s ls s' → (∀ l ∈ ls, l.thread ≠ some 1) →
        s'.registry.isInitialized = false ∧ s'.registry.providers = ls.filterMap Label.loaded := by
  have hclaim : (rested ⟨"main", 0⟩).registry.lock.claim? 1 = some ⟨some 1, 1⟩ := rfl
  have hlock : Step (rested ⟨"main", 0⟩) (.locked 1) _ :=
    .lock (isIdle_of_none rfl) hclaim
  refine ⟨_, Run.single hlock, rfl, fun ls s' h hls => ?_⟩
  obtain ⟨-, -, -, hothers⟩ := discovery_under_lock (isFresh_rested _) (Run.single hlock)
  obtain ⟨-, -, hflag, hproviders⟩ := hothers 1 rfl ls s' h hls
  exact ⟨hflag, hproviders⟩

end System

end LogSetup.ProviderRegistry
