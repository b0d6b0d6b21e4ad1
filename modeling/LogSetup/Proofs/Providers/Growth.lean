import LogSetup.Proofs.Providers.Admission
import LogSetup.Proofs.Providers.Exclusion

/-!
# How the list of providers grows

While nobody resets the registry, the list of providers only grows: discovery puts all providers
that it found behind it at once, and each host that installs a provider puts that behind it.

## Main definitions

- `ProviderRegistry.Label.snapshot` : the list that a thread fetched
- `ProviderRegistry.FoundIn` : what discovery found in a run
- `ProviderRegistry.HasBlock` : a list that is what discovery found amid what hosts installed
- `ProviderRegistry.System.IsCalm` : no thread is in a reset

## Main statements

- `ProviderRegistry.System.providers_of_run` : the list grows by what the steps of a run put there
- `ProviderRegistry.System.hasBlock_of_run` : what discovery found is in the list, in one block
- `ProviderRegistry.System.providers_grow` : where the providers in the list come from
-/

namespace LogSetup.ProviderRegistry

/-- The call is a reset. -/
def Stage.isReset : Stage → Bool
  | .waitToReset | .empty | .retract | .releaseReset | .cleared => true
  | _ => false

namespace Label

/-- The list that a thread fetched. -/
def snapshot : Label → Option (List Provider)
  | .did _ _ (.fetch _) (.fetched providers) _ => providers
  | _ => none

/-- The thread did not replace the list, as the list was no longer what it had seen. -/
def isRetried : Label → Bool
  | .did _ _ (.swap ..) (.swap ..) _ => true
  | _ => false

/-- The thread that gave up waiting for the start-up lock, as it was interrupted. -/
def givesUp : Label → Option ThreadId
  | .did t _ (.wait _) (.giveUp _) _ => some t
  | _ => none

end Label

theorem isReset_of_step {discovery : Traced (List Provider)} {me : ThreadId} {stage : Stage}
    {r : ProviderRegistry} {next : Traced (Stage × ProviderRegistry)}
    (h : step? discovery me stage r = some next) : next.value.1.isReset = stage.isReset := by
  cases stage with
  | wait aim =>
    simp only [step?] at h
    split at h
    · cases h
      rfl
    · cases h
      rfl
    · cases h
  | waitToReset =>
    simp only [step?] at h
    split at h
    · cases h
      rfl
    · cases h
  | look | lookAgain =>
    cases h
    cases r.isInitialized <;> rfl
  | swap new seen edition =>
    cases h
    simp only [Traced.value_pure]
    split
    · cases new <;> rfl
    · rfl
  | fetch aim => cases aim <;> cases h <;> rfl
  | read source context =>
    cases h
    simp only [Traced.value_bind]
    cases (Provider.announce source context).value <;> rfl
  | giveUp | discover | extend | publish | release | empty | retract | releaseReset =>
    cases h
    rfl
  | fetched | loaded | cleared => cases h

/-- Discovery found providers: those that the valid manifests announce which were there then. -/
def FoundIn (ls : List Label) (context : LoadingContext) (aim : Aim) (providers : List Provider) :
    Prop :=
  ∃ t offer events, .did t offer (.discover aim) (.extend (.found aim providers)) events ∈ ls ∧
    providers = offer.filterMap (Provider.valid? context)

theorem FoundIn.snoc {ls : List Label} {context : LoadingContext} {aim : Aim}
    {providers : List Provider} (h : FoundIn ls context aim providers) (l : Label) :
    FoundIn (ls ++ [l]) context aim providers := by
  obtain ⟨t, offer, events, hmem, hproviders⟩ := h
  exact ⟨t, offer, events, List.mem_append_left _ hmem, hproviders⟩

/-- The list is what hosts installed and, where discovery put it, all that discovery found. -/
def HasBlock (context : LoadingContext) (ls : List Label) (providers : List Provider) : Prop :=
  ∃ as l bs aim block, ls = as ++ l :: bs ∧ l.addition = some (.found aim block) ∧
    FoundIn as context aim block ∧
    providers = as.filterMap Label.loaded ++ block ++ bs.filterMap Label.loaded

theorem exists_addition_of_installs {l : Label} (h : l.installs = true) :
    ∃ aim providers, l.addition = some (.found aim providers) := by
  rw [Label.installs] at h
  split at h
  · exact ⟨_, _, ‹_›⟩
  · cases h

namespace System

variable {s s' start : System} {l : Label} {ls : List Label} {t : ThreadId}

/-! ### Growing -/

/-- No thread is in a reset. -/
def IsCalm (s : System) : Prop := ∀ t stage, s.stage t = some stage → stage.isReset = false

theorem IsFresh.isCalm (h : start.IsFresh) : start.IsCalm := by
  intro t stage ht
  rw [h.stage t] at ht
  cases ht

theorem IsCalm.of_step (calm : s.IsCalm) (h : Step s l s') (hl : ∀ t, l ≠ .called t .waitToReset) :
    s'.IsCalm := by
  intro t stage ht
  rcases stage_of_step h ht with hs | ⟨hfirst, hcalled⟩ | ⟨offer, before, next, at_, step, rfl, -⟩
  · exact calm t stage hs
  · cases stage with
    | waitToReset => exact absurd hcalled (hl t)
    | empty | retract | releaseReset | cleared => cases hfirst
    | look | wait | giveUp | lookAgain | discover | extend | swap | publish | release | fetch | read
    | fetched | loaded => rfl
  · rw [isReset_of_step step]
    exact calm t before at_

/-- While no thread is in a reset, no step drops providers or tells that discovery is not done. -/
theorem IsCalm.not_resets (calm : s.IsCalm) (h : Step s l s') :
    l.empties = false ∧ l.retracts = false := by
  cases h with
  | @act t stage next offer at_ step =>
    have hreset := calm t stage at_
    cases stage with
    | empty | retract => cases hreset
    | look | wait | giveUp | lookAgain | discover | extend | swap | publish | release | fetch | read
    | waitToReset | releaseReset | fetched | loaded | cleared => exact ⟨rfl, rfl⟩
  | call | lock | giveUp | drop | interrupt | calm => exact ⟨rfl, rfl⟩

/-- A run without resets, from a state in which no thread is in a reset. -/
structure Growing (s : System) (ls : List Label) (s' : System) : Prop where
  run : Run Step s ls s'
  current : s.Current
  calm : s.IsCalm
  quiet : ∀ t, .called t .waitToReset ∉ ls

namespace Growing

theorem init (h : s.Growing (ls ++ [l]) s') : ∃ a, s.Growing ls a ∧ Step a l s' := by
  obtain ⟨a, ha, hstep⟩ := h.run.last
  exact ⟨a, ⟨ha, h.current, h.calm, fun t hl => h.quiet t (List.mem_append_left _ hl)⟩, hstep⟩

theorem calm_last (h : s.Growing ls s') : s'.IsCalm :=
  h.run.preserves h.calm fun _ _ _ hl hstep ha =>
    ha.of_step hstep fun t heq => h.quiet t (heq ▸ hl)

theorem current_last (h : s.Growing ls s') : s'.Current :=
  h.run.preserves h.current fun _ _ _ _ hstep ha => ha.of_step hstep

theorem not_retracts (h : s.Growing ls s') : ∀ l ∈ ls, l.retracts = false := by
  intro l hl
  obtain ⟨as, bs, rfl⟩ := List.append_of_mem hl
  obtain ⟨a, b, ha, hstep, -⟩ := h.run.split_cons
  have hfront : s.Growing as a :=
    ⟨ha, h.current, h.calm, fun t hl => h.quiet t (List.mem_append_left _ hl)⟩
  exact (hfront.calm_last.not_resets hstep).2

end Growing

theorem providers_of_step_of_isCalm (h : Step s l s') (current : s.Current) (calm : s.IsCalm) :
    s'.registry.providers = s.registry.providers ++ l.added := by
  rw [providers_of_step h current, (calm.not_resets h).1]
  rfl

/-- The list grows by what the steps of a run put behind it. -/
theorem providers_of_run (h : s.Growing ls s') :
    s'.registry.providers = s.registry.providers ++ ls.flatMap Label.added := by
  induction ls using List.reverseRecOn generalizing s' with
  | nil =>
    rw [h.run.eq_of_nil]
    exact (List.append_nil _).symm
  | append_singleton ls l ih =>
    obtain ⟨a, ha, hstep⟩ := h.init
    rw [providers_of_step_of_isCalm hstep ha.current_last ha.calm_last, ih ha, List.append_assoc,
      List.flatMap_append, List.flatMap_singleton]

theorem providers_of_snapshot {providers : List Provider} (h : Step s l s')
    (hl : l.snapshot = some providers) : providers = s.registry.providers := by
  cases h with
  | @act t stage next offer at_ step =>
    have hbefore := before_of_step step
    generalize next.value.1 = after at hbefore hl
    cases stage with
    | fetch aim =>
      cases after with
      | fetched =>
        cases hl
        exact hbefore.2
      | look | wait | giveUp | lookAgain | discover | extend | swap | publish | release | fetch
      | read | waitToReset | empty | retract | releaseReset | loaded | cleared => cases hl
    | look | wait | giveUp | lookAgain | discover | extend | swap | publish | release | read
    | waitToReset | empty | retract | releaseReset | fetched | loaded | cleared => cases hl
  | call | lock | giveUp | drop | interrupt | calm => cases hl

/-- Each list that is fetched begins like all that were fetched before it. -/
theorem pairwise_snapshots (h : s.Growing ls s') :
    (ls.filterMap Label.snapshot ++ [s'.registry.providers]).Pairwise (· <+: ·) := by
  induction ls using List.reverseRecOn generalizing s' with
  | nil => exact List.pairwise_singleton _ _
  | append_singleton ls l ih =>
    obtain ⟨a, ha, hstep⟩ := h.init
    -- the present list comes last among those that are compared, and the step makes it longer
    obtain ⟨hpairwise, -, hlast⟩ := List.pairwise_append.mp (ih ha)
    have hgrows : a.registry.providers <+: s'.registry.providers := by
      rw [providers_of_step_of_isCalm hstep ha.current_last ha.calm_last]
      exact List.prefix_append ..
    have hbefore : ∀ list ∈ ls.filterMap Label.snapshot, list <+: a.registry.providers :=
      fun list hlist => hlast list hlist _ (List.mem_singleton_self _)
    rw [List.filterMap_append]
    cases hl : l.snapshot with
    | none =>
      simp only [List.filterMap_cons, hl, List.filterMap_nil, List.append_nil]
      refine List.pairwise_append.mpr ⟨hpairwise, List.pairwise_singleton _ _, ?_⟩
      intro list hlist other hother
      rw [List.mem_singleton.mp hother]
      exact (hbefore list hlist).trans hgrows
    | some fetched =>
      rw [providers_of_snapshot hstep hl] at hl
      simp only [List.filterMap_cons, hl, List.filterMap_nil]
      refine List.pairwise_append.mpr ⟨ih ha, List.pairwise_singleton _ _, ?_⟩
      intro list hlist other hother
      rw [List.mem_singleton.mp hother]
      rcases List.mem_append.mp hlist with hlist | hlist
      · exact (hbefore list hlist).trans hgrows
      · rw [List.mem_singleton.mp hlist]
        exact hgrows

/-! ### The block of discovery -/

theorem context_of_run (h : Run Step s ls s') : s'.context = s.context :=
  h.preserves (I := fun b => b.context = s.context) rfl fun _ _ _ _ hstep ha => by
    cases hstep <;> exact ha

/-- A thread that is about to install what discovery found has found it in the run. -/
theorem foundIn_of_run (fresh : start.IsFresh) (h : Run Step start ls s) {stage : Stage} {aim : Aim}
    {providers : List Provider} (ht : s.stage t = some stage)
    (hstage : stage.addition = some (.found aim providers)) :
    FoundIn ls start.context aim providers := by
  -- a failed attempt to replace the list keeps what was found, whatever stage it was at before
  induction h generalizing t stage with
  | nil =>
    rw [fresh.stage t] at ht
    cases ht
  | @snoc ls l a b hrun hstep ih =>
    rcases addition_of_step hstep ht hstage with
      ⟨before, hs, hbefore⟩ | ⟨offer, events, aim', providers', hnew, hproviders, rfl⟩ |
        ⟨_, _, p, hnew, -⟩
    · exact (ih hs hbefore).snoc l
    · cases hnew
      refine ⟨t, offer, events, by simp, ?_⟩
      rw [hproviders, context_of_run hrun, Provider.value_announceAll]
    · cases hnew

/-- When it is told that discovery is done, or about to be told, what discovery found is in the
list. -/
theorem exists_installs_of_run (fresh : start.IsFresh) (h : Run Step start ls s)
    (hdone : s.registry.isInitialized = true ∨ ∃ t aim, s.stage t = some (.publish aim)) :
    ∃ l ∈ ls, l.installs = true := by
  -- the flag is set by a thread at `publish`, and a thread comes there by installing
  induction h with
  | nil =>
    rcases hdone with hflag | ⟨t, aim, ht⟩
    · rw [fresh.registry] at hflag
      cases hflag
    · rw [fresh.stage t] at ht
      cases ht
  | @snoc ls l a b hrun hstep ih =>
    have hbefore (h : a.registry.isInitialized = true ∨ ∃ t aim, a.stage t = some (.publish aim)) :
        ∃ m ∈ ls ++ [l], m.installs = true := by
      obtain ⟨m, hm, hinstalls⟩ := ih h
      exact ⟨m, List.mem_append_left _ hm, hinstalls⟩
    rcases hdone with hflag | ⟨t, aim, ht⟩
    · cases hstep with
      | @act u stage next offer at_ step =>
        have hflag' := flag_of_step step
        cases stage with
        | publish aim => exact hbefore (.inr ⟨u, aim, at_⟩)
        | retract => exact absurd (hflag'.symm.trans hflag) Bool.false_ne_true
        | look | wait | giveUp | lookAgain | discover | extend | swap | release | fetch | read
        | waitToReset | empty | releaseReset | fetched | loaded | cleared =>
          exact hbefore (.inl (hflag'.symm.trans hflag))
      | call | lock | giveUp | drop | interrupt | calm => exact hbefore (.inl hflag)
    · rcases stage_of_step hstep ht with
        hs | ⟨hfirst, -⟩ | ⟨offer, before, next, -, step, hnext, -, rfl⟩
      · exact hbefore (.inr ⟨t, aim, hs⟩)
      · cases hfirst
      · have hswap := before_of_step step
        rw [← hnext] at hswap
        obtain ⟨providers, seen, rfl⟩ := hswap
        exact ⟨_, List.mem_append_right _ (List.mem_singleton_self _), rfl⟩

theorem installs_eq (l : Label) : l.installs = (l.act == .worked 0) := by
  cases l with
  | did t offer before after events =>
    cases before with
    | swap new => cases new <;> cases after <;> rfl
    | look | wait | giveUp | lookAgain | discover | extend | publish | release | fetch | read
    | waitToReset | empty | retract | releaseReset | fetched | loaded | cleared => rfl
  | called | locked | gaveUp | dropped | interrupted | calmed => rfl

theorem countP_installs (inv : s.view.Inv) (held : s.Held) (h : Run Step s ls s')
    (hls : ∀ l ∈ ls, l.retracts = false) : ls.countP Label.installs ≤ 1 := by
  rw [countP_eq_count installs_eq]
  exact OneTime.count_worked_le_one inv (seen_of_run h held) (undone_not_mem hls)

/-- Steps that do not install what discovery found put behind the list what hosts install. -/
theorem flatMap_added (h : ∀ l ∈ ls, l.added = l.loaded.toList) :
    ls.flatMap Label.added = ls.filterMap Label.loaded := by
  rw [List.filterMap_eq_flatMap_toList]
  exact List.flatMap_congr h

/-- What discovery found is in the list, in one block amid what hosts installed. -/
theorem hasBlock_of_run (fresh : start.IsFresh) (h : start.Growing ls s)
    (hinstalls : ∃ l ∈ ls, l.installs = true) :
    HasBlock start.context ls s.registry.providers := by
  have hcount := countP_installs fresh.inv fresh.held h.run h.not_retracts
  have hproviders := providers_of_run h
  obtain ⟨l, hl, hinstalls⟩ := hinstalls
  obtain ⟨aim, block, hblock⟩ := exists_addition_of_installs hinstalls
  have hadded (m : Label) (hm : m ∈ ls) (hnot : m.installs = false) :
      m.added = m.loaded.toList := by
    obtain ⟨a, b, hstep⟩ := h.run.step_of_mem hm
    exact added_eq_loaded hstep hnot
  obtain ⟨as, bs, rfl⟩ := List.append_of_mem hl
  obtain ⟨a, b, ha, hstep, -⟩ := h.run.split_cons
  obtain ⟨t, stage, ht, hstage⟩ := stage_of_addition hstep hblock
  -- no other step installs what discovery found
  simp only [List.countP_append, List.countP_cons, hinstalls, if_true] at hcount
  have has : ∀ m ∈ as, m.installs = false := by
    have hzero : as.countP Label.installs = 0 := by omega
    exact fun m hm => by simpa using List.countP_eq_zero.mp hzero m hm
  have hbs : ∀ m ∈ bs, m.installs = false := by
    have hzero : bs.countP Label.installs = 0 := by omega
    exact fun m hm => by simpa using List.countP_eq_zero.mp hzero m hm
  refine ⟨as, l, bs, aim, block, rfl, hblock, foundIn_of_run fresh ha ht hstage, ?_⟩
  rw [hproviders, fresh.registry, List.flatMap_append, List.flatMap_cons,
    flatMap_added fun m hm => hadded m (by simp [hm]) (has m hm),
    flatMap_added fun m hm => hadded m (by simp [hm]) (hbs m hm), Label.added, hblock]
  simp [initial, Addition.providers]

/-! ### What a thread gets -/

/-- A thread that is about to fetch the list has seen that discovery is done. -/
def Sees (s : System) (t : ThreadId) : Prop :=
  match s.stage t with
  | some (.fetch _) => s.registry.isInitialized = true
  | some (.giveUp _) => False
  | _ => True

theorem Sees.of_step (sees : s.Sees t) (inv : s.view.Inv) (held : s.Held) (calm : s.IsCalm)
    (h : Step s l s') (hl : l.givesUp ≠ some t) : s'.Sees t := by
  have hflag : s.registry.isInitialized = true → s'.registry.isInitialized = true :=
    OneTime.isDone_of_step (h.seen held) (act_ne_undone_of_not_retracts (calm.not_resets h).2)
  rw [Sees] at sees ⊢
  split
  · rename_i aim ht
    rcases stage_of_step h ht with hs | ⟨hfirst, -⟩ | ⟨offer, before, next, at_, step, hnext, -⟩
    · rw [hs] at sees
      exact hflag sees
    · cases hfirst
    · have hbefore := before_of_step step
      have hagrees := inv.agrees t
      rw [← hnext] at hbefore
      rw [phase_view at_] at hagrees
      rcases hbefore with rfl | rfl | ⟨rfl, hdone⟩
      · exact hflag hagrees
      · rw [at_] at sees
        cases sees
      · exact hflag hdone
  · rename_i aim ht
    rcases stage_of_step h ht with
      hs | ⟨hfirst, -⟩ | ⟨offer, before, next, at_, step, hnext, -, rfl⟩
    · rw [hs] at sees
      exact sees
    · cases hfirst
    · have hbefore := before_of_step step
      rw [← hnext] at hbefore
      subst hbefore
      exact hl rfl
  · trivial

/-- A call for the list that was not interrupted gets all that discovery found. -/
theorem hasBlock_of_fetched (fresh : start.IsFresh) {before during after : List Label}
    {offer : List (Except LoadError Source)} {providers : List Provider} {events : List Event}
    (h : start.Growing (before ++ .called t (.look .list) ::
      (during ++ .did t offer (.fetch .list) (.fetched (some providers)) events :: after)) s)
    (hduring : ∀ l ∈ during, l.givesUp ≠ some t) :
    HasBlock start.context (before ++ .called t (.look .list) :: during) providers := by
  obtain ⟨a, b, ha, hcall, hrest⟩ := h.run.split_cons
  obtain ⟨c, d, hc, hfetch, -⟩ := hrest.split_cons
  have hquiet : ∀ u, .called u .waitToReset ∉ before ++ .called t (.look .list) :: during := by
    intro u hmem
    refine h.quiet u ?_
    rw [← List.cons_append, ← List.append_assoc]
    exact List.mem_append_left _ hmem
  have hbefore : start.Growing before a :=
    ⟨ha, h.current, h.calm, fun u hmem => hquiet u (List.mem_append_left _ hmem)⟩
  have hcalls : start.Growing (before ++ .called t (.look .list) :: during) c := by
    refine ⟨?_, h.current, h.calm, hquiet⟩
    rw [← List.singleton_append, ← List.append_assoc]
    exact (ha.snoc hcall).append hc
  have hb : b.view.Inv ∧ b.Held ∧ b.IsCalm := by
    refine ⟨inv_of_run fresh (ha.snoc hcall), held_of_run fresh (ha.snoc hcall),
      hbefore.calm_last.of_step hcall fun u heq => by cases heq⟩
  have hsees : b.Sees t := by
    cases hcall
    simp only [Sees, move, Function.update_self]
  -- until the thread fetches the list it is not interrupted
  have hc' : (c.view.Inv ∧ c.Held ∧ c.IsCalm) ∧ c.Sees t := by
    refine hc.preserves (I := fun x => (x.view.Inv ∧ x.Held ∧ x.IsCalm) ∧ x.Sees t)
      ⟨hb, hsees⟩ ?_
    rintro x l y hl hstep ⟨⟨hinv, hheld, hcalm⟩, hx⟩
    have hcalled : ∀ u, l ≠ .called u .waitToReset := fun u heq =>
      hquiet u (List.mem_append_right _ (List.mem_cons_of_mem _ (heq ▸ hl)))
    exact ⟨⟨hinv.of_step (hstep.seen hheld), hheld.of_step hstep, hcalm.of_step hstep hcalled⟩,
      hx.of_step hinv hheld hcalm hstep (hduring l hl)⟩
  obtain ⟨next, at_, -⟩ := step_of_did hfetch
  have hflag := hc'.2
  simp only [Sees, at_] at hflag
  rw [providers_of_snapshot hfetch rfl]
  exact hasBlock_of_run fresh hcalls (exists_installs_of_run fresh hcalls.run (.inl hflag))

/-! ### A run in which a host comes first -/

theorem step?_read {discovery : Traced (List Provider)} {source : Source}
    {context : LoadingContext} {p : Provider} {r : ProviderRegistry}
    (hp : Provider.valid? context (.ok source) = some p) :
    step? discovery t (.read source context) r =
      some ⟨(.extend (.installed p), r), [.status ⟨.debug, "Loaded " ++ p.display⟩]⟩ := by
  have hannounce : Provider.announce source context =
      ⟨some p, [.status ⟨.debug, "Loaded " ++ p.display⟩]⟩ := by
    cases hsource : Provider.ofSource source context with
    | error e => simp [Provider.valid?, hsource, Except.toOption] at hp
    | ok q =>
      have hq : q = p := by simpa [Provider.valid?, hsource, Except.toOption] using hp
      rw [Provider.announce, hsource, hq]
      rfl
  simp only [step?, hannounce]
  rfl

/-- A thread that asks for the list discovers providers while a host installs one. The host comes
first, so that the thread has to try again. When the thread has fetched the list, the host installs
another provider. -/
theorem exists_retried_run {context : LoadingContext} {source source' : Source} {p q : Provider}
    (hp : Provider.valid? context (.ok source) = some p)
    (hq : Provider.valid? context (.ok source') = some q)
    (offer : List (Except LoadError Source)) :
    ∃ first later s, Run Step (rested context) (first ++ later) s ∧
      (∀ t, .called t .waitToReset ∉ first ++ later) ∧
      ((∀ l ∈ first, l.installs = false) ∧ first.filterMap Label.loaded = [p]) ∧
      (∃ l ∈ later, l.isRetried = true) ∧ (∃ l ∈ later, l.installs = true) ∧
      s.registry.providers = p :: (Provider.announceAll context offer).value ++ [q] ∧
      ∃ before during after events, first ++ later = before ++ .called 1 (.look .list) ::
          (during ++ .did 1 [] (.fetch .list)
            (.fetched (some (p :: (Provider.announceAll context offer).value))) events :: after) ∧
        ∀ l ∈ during, l.givesUp ≠ some 1 := by
  have hreads (source : Source) : (Stage.read source context).isFirst = true := rfl
  have hlooks : (Stage.look .list).isFirst = true := rfl
  have hdone : (Stage.loaded (some p)).isDone = true := rfl
  have hhost :=
    Run.single (Step.call (s := rested context) (t := 0) (isIdle_of_none rfl) (hreads source))
  have hread := hhost.snoc (.act (t := 0) [] rfl (step?_read hp))
  have hextend := hread.snoc (.act (t := 0) [] rfl rfl)
  have hask := hextend.snoc (.call (t := 1) (isIdle_of_none rfl) hlooks)
  have hlook := hask.snoc (.act (t := 1) [] rfl rfl)
  have hlock := hlook.snoc (.act (t := 1) [] rfl rfl)
  have hagain := hlock.snoc (.act (t := 1) [] rfl rfl)
  have hfound := hagain.snoc (.act (t := 1) offer rfl rfl)
  have hseen := hfound.snoc (.act (t := 1) [] rfl rfl)
  have hinstalled := hseen.snoc (.act (t := 0) [] rfl rfl)
  -- the list that the thread has seen is no longer there
  have hfailed := hinstalled.snoc (.act (t := 1) [] rfl rfl)
  have hswapped := hfailed.snoc (.act (t := 1) [] rfl rfl)
  have hpublished := hswapped.snoc (.act (t := 1) [] rfl rfl)
  have hreleased := hpublished.snoc (.act (t := 1) [] rfl rfl)
  have hfetched := hreleased.snoc (.act (t := 1) [] rfl rfl)
  have hhost' := hfetched.snoc (.call (t := 0) (isIdle_of_isDone rfl hdone) (hreads source'))
  have hread' := hhost'.snoc (.act (t := 0) [] rfl (step?_read hq))
  have hextend' := hread'.snoc (.act (t := 0) [] rfl rfl)
  have hinstalled' := hextend'.snoc (.act (t := 0) [] rfl rfl)
  simp only [List.nil_append, List.cons_append] at hinstalled'
  refine ⟨[_, _, _, _, _, _, _, _, _, _], [_, _, _, _, _, _, _, _, _], _, hinstalled', ?_,
    ⟨of_decide_eq_true rfl, rfl⟩, ⟨_, .head _, rfl⟩, ⟨_, .tail _ (.head _), rfl⟩, rfl,
    [_, _, _], [_, _, _, _, _, _, _, _, _, _], [_, _, _, _], _, rfl, of_decide_eq_true rfl⟩
  simp

/-! ### Where the providers in the list come from -/

/-- Where the providers in the list come from. In a run without resets the list only grows at its
end: each list that is fetched begins like all that were fetched before it. Discovery takes place
once at most. Until it has put what it found into the list, the list is what hosts installed, in the
order in which they did; from then on it is that and, in one block, the providers that the valid
manifests among the candidates of discovery announce. A call for the list that was not interrupted
gets the whole block. In any run, resets included, all providers in the list are admitted. -/
theorem providers_grow (fresh : start.IsFresh) :
    (∀ ls s, Run Step start ls s → (∀ t, .called t .waitToReset ∉ ls) →
      (∀ later s', Run Step s later s' → (∀ t, .called t .waitToReset ∉ later) →
        s.registry.providers <+: s'.registry.providers) ∧
      (ls.filterMap Label.snapshot ++ [s.registry.providers]).Pairwise (· <+: ·) ∧
      (ls.countP Label.beginsDiscovery ≤ 1 ∧ ls.countP Label.installs ≤ 1) ∧
      ((∀ l ∈ ls, l.installs = false) → s.registry.providers = ls.filterMap Label.loaded) ∧
      ((∃ l ∈ ls, l.installs = true) → HasBlock start.context ls s.registry.providers) ∧
      ∀ before t during offer providers events after,
        ls = before ++ .called t (.look .list) ::
          (during ++ .did t offer (.fetch .list) (.fetched (some providers)) events :: after) →
        (∀ l ∈ during, l.givesUp ≠ some t) →
        HasBlock start.context (before ++ .called t (.look .list) :: during) providers) ∧
    ∀ ls s, Run Step start ls s → ∀ p ∈ s.registry.providers, p.IsAdmitted := by
  refine ⟨fun ls s hrun hquiet => ?_, fun ls s hrun => (admits_of_run fresh hrun).list⟩
  have h : start.Growing ls s := ⟨hrun, fresh.current, fresh.isCalm, hquiet⟩
  refine ⟨?_, pairwise_snapshots h, ⟨?_, ?_⟩, ?_, hasBlock_of_run fresh h, ?_⟩
  · intro later s' hlater hlaterQuiet
    have hgrowing : s.Growing later s' := ⟨hlater, h.current_last, h.calm_last, hlaterQuiet⟩
    rw [providers_of_run hgrowing]
    exact List.prefix_append ..
  · exact countP_beginsDiscovery fresh.inv fresh.held hrun h.not_retracts
  · exact countP_installs fresh.inv fresh.held hrun h.not_retracts
  · intro hnone
    have hadded : ∀ l ∈ ls, l.added = l.loaded.toList := by
      intro l hl
      obtain ⟨a, b, hstep⟩ := hrun.step_of_mem hl
      exact added_eq_loaded hstep (hnone l hl)
    rw [providers_of_run h, fresh.registry, flatMap_added hadded]
    rfl
  · intro before t during offer providers events after hls hduring
    subst hls
    exact hasBlock_of_fetched fresh h hduring

/-- A manifest with a priority. -/
def rankedManifest (priority : String) : Source :=
  .ofBytes (Utf8.encode ("Log4jAPIVersion: 2.6.0\nFactoryPriority: " ++ priority))

/-- The provider that such a manifest announces. -/
def rankedProvider (priority : Int) : Provider :=
  ⟨"2.6.0", priority, none, none, .unknown, ⟨"main", 0⟩⟩

/-- In a run in which a host comes first the list has what the host installed, then what discovery
found in one block, and then what the host installed later. The list that the thread fetched ends
with the block. -/
theorem block_stands_amid_installed :
    ∃ first later s₁ s, Run Step (rested ⟨"main", 0⟩) first s₁ ∧ Run Step s₁ later s ∧
      (∀ t, .called t .waitToReset ∉ first ++ later) ∧
      ((∀ l ∈ first, l.installs = false) ∧ s₁.registry.providers = [rankedProvider 1]) ∧
      s₁.registry.providers <+: s.registry.providers ∧
      (∃ l ∈ later, l.isRetried = true) ∧ (first ++ later).countP Label.installs ≤ 1 ∧
      HasBlock ⟨"main", 0⟩ (first ++ later) s.registry.providers ∧
      s.registry.providers = [1, 2, 3, 4].map rankedProvider ∧
      (∃ before during after fetched events, fetched = [1, 2, 3].map rankedProvider ∧
        first ++ later = before ++ .called 1 (.look .list) ::
          (during ++ .did 1 [] (.fetch .list) (.fetched (some fetched)) events :: after) ∧
        (∀ l ∈ during, l.givesUp ≠ some 1) ∧
        HasBlock ⟨"main", 0⟩ (before ++ .called 1 (.look .list) :: during) fetched ∧
        fetched <+: s.registry.providers) ∧
      ∀ p ∈ s.registry.providers, p.IsAdmitted := by
  let context : LoadingContext := ⟨"main", 0⟩
  let offer : List (Except LoadError Source) :=
    [.ok (rankedManifest "2"), .error (.notFound "b.yaml"), .ok (rankedManifest "3")]
  have hone : Provider.valid? context (.ok (rankedManifest "1")) = some (rankedProvider 1) := by
    decide +kernel
  have hfour : Provider.valid? context (.ok (rankedManifest "4")) = some (rankedProvider 4) := by
    decide +kernel
  have hfound : (Provider.announceAll context offer).value = [2, 3].map rankedProvider := by
    decide +kernel
  obtain ⟨first, later, s, hrun, hquiet, ⟨hnone, hloaded⟩, hretried, ⟨l, hl, hinstalls⟩, hlist,
    before, during, after, events, hls, hduring⟩ := exists_retried_run hone hfour offer
  rw [hfound] at hlist hls
  obtain ⟨s₁, hfirst, hlater⟩ := hrun.split
  obtain ⟨hgrow, hadmitted⟩ := providers_grow (isFresh_rested context)
  obtain ⟨hlonger, -, -, hhosts, -⟩ :=
    hgrow first s₁ hfirst fun t ht => hquiet t (List.mem_append_left _ ht)
  obtain ⟨-, hsnapshots, ⟨-, honce⟩, -, hblock, hgets⟩ := hgrow _ s hrun hquiet
  have hfetch : rankedProvider 1 :: [2, 3].map rankedProvider ∈
      (first ++ later).filterMap Label.snapshot := by
    rw [hls]
    exact List.mem_filterMap.mpr
      ⟨.did 1 [] (.fetch .list) (.fetched (some _)) events, by simp, rfl⟩
  have hbegins : rankedProvider 1 :: [2, 3].map rankedProvider <+: s.registry.providers :=
    (List.pairwise_append.mp hsnapshots).2.2 _ hfetch _ (List.mem_singleton_self _)
  exact ⟨first, later, s₁, s, hfirst, hlater, hquiet, ⟨hnone, (hhosts hnone).trans hloaded⟩,
    hlonger later s hlater fun t ht => hquiet t (List.mem_append_right _ ht), hretried, honce,
    hblock ⟨l, List.mem_append_right _ hl, hinstalls⟩, hlist,
    ⟨before, during, after, _, events, rfl, hls, hduring,
      hgets before 1 during _ _ _ after hls hduring, hbegins⟩,
    hadmitted _ s hrun⟩

end System

end LogSetup.ProviderRegistry
