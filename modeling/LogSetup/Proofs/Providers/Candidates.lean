import LogSetup.Proofs.Providers.Interruption

/-!
# The candidates of discovery

Discovery reads its candidates in order. Each one is told in one status message and, if it is valid,
announces one provider; a candidate that fails does not touch the others. The call that discovers
puts all providers behind the list in one step, whatever other threads do meanwhile.

## Main definitions

- `Provider.entry` : what is told of a candidate
- `ProviderRegistry.offers`, `ProviderRegistry.puts` : what a call was offered, and what it put into
  the list
- `ProviderRegistry.Progress` : what a call that makes sure of discovery has done at a stage

## Main statements

- `Provider.events_announceAll` : one message for each candidate, in their order
- `ProviderRegistry.System.InCall.progress` : what a call has done at each moment
- `ProviderRegistry.System.failing_candidates_are_isolated` : what a call adds and tells
-/

namespace LogSetup

/-! ### What a candidate adds and tells -/

namespace Provider

/-- What is told of a candidate: that its provider was loaded, why its manifest announces none, or
why it cannot be opened. -/
def entry (context : LoadingContext) : Except LoadError Source → StatusMessage
  | .error e => ⟨.error, "Unable to open provider manifest: " ++ e.message⟩
  | .ok source =>
    match ofSource source context with
    | .ok p => ⟨.debug, "Loaded " ++ p.display⟩
    | .error e => ⟨.warn, e.message⟩

theorem events_announce (source : Source) (context : LoadingContext) :
    (announce source context).events = [.status (entry context (.ok source))] := by
  rw [announce, entry]
  cases ofSource source context <;> rfl

/-- Discovery tells one message for each candidate, in their order. -/
theorem events_announceAll (context : LoadingContext) (offer : List (Except LoadError Source)) :
    (announceAll context offer).events = offer.map fun c => .status (entry context c) := by
  induction offer with
  | nil => rfl
  | cons candidate rest ih =>
    cases candidate with
    | error e =>
      rw [announceAll, Traced.events_bind, ih]
      rfl
    | ok source =>
      rw [announceAll, Traced.events_bind, Traced.events_bind, ih, events_announce]
      simp

theorem filterMap_valid?_of_failing {context : LoadingContext}
    (before after : List (Except LoadError Source)) {failing : List (Except LoadError Source)}
    (h : ∀ c ∈ failing, valid? context c = none) :
    (before ++ failing ++ after).filterMap (valid? context) =
      (before ++ after).filterMap (valid? context) := by
  rw [List.filterMap_append, List.filterMap_append, List.filterMap_eq_nil_iff.mpr h,
    List.append_nil, List.filterMap_append]

end Provider

namespace ProviderRegistry

/-! ### A call by a thread whose neighbours rest -/

section Alone

variable {discovery discovery' : Traced (List Provider)} {me : ThreadId}

/-- The way of a call depends on the providers that discovery finds, and not on what it tells. -/
theorem value_step?_congr (h : discovery.value = discovery'.value) (me : ThreadId) (stage : Stage)
    (r : ProviderRegistry) :
    (step? discovery me stage r).map Traced.value =
      (step? discovery' me stage r).map Traced.value := by
  cases stage with
  | discover aim =>
    simp only [step?, Option.map_some, Traced.value_bind, Traced.value_pure, h]
  | fetch aim => cases aim <;> rfl
  | look | wait | giveUp | lookAgain | extend | swap | publish | release | read | waitToReset
  | empty | retract | releaseReset | fetched | loaded | cleared => rfl

theorem value_runFor_congr (h : discovery.value = discovery'.value) (n : Nat) (stage : Stage)
    (r : ProviderRegistry) :
    (runFor discovery me n stage r).value = (runFor discovery' me n stage r).value := by
  induction n generalizing stage r with
  | zero => rfl
  | succ n ih =>
    have hstep := value_step?_congr h me stage r
    rw [runFor, runFor]
    cases hnext : step? discovery me stage r with
    | none =>
      rw [hnext, Option.map_none, eq_comm, Option.map_eq_none_iff] at hstep
      rw [hstep]
    | some next =>
      rw [hnext, Option.map_some, eq_comm, Option.map_eq_some_iff] at hstep
      obtain ⟨next', hnext', hvalue⟩ := hstep
      simp only [hnext', Traced.value_bind, hvalue, ih]

/-- What a finished call gives back. -/
def Aim.result (providers : List Provider) : Aim → Stage
  | .ensure => .fetched none
  | .list => .fetched (some providers)

/-- The first call finds the lock free or its own, is not interrupted, and discovers. -/
theorem ask_of_not_initialized {r : ProviderRegistry} {lock : StartupLock} (aim : Aim)
    (hdone : r.isInitialized = false) (hcalm : r.interrupts.isRaised me = false)
    (hclaim : r.lock.claim? me = some lock) :
    ask discovery me aim r =
      ⟨(aim.result (r.providers ++ discovery.value),
        { r with
          lock := lock.release
          isInitialized := true
          providers := r.providers ++ discovery.value
          edition := r.edition + 1 }), discovery.events⟩ := by
  have hattempt : r.lock.attempt me (r.interrupts.isRaised me) = .taken lock := by
    rw [hcalm, StartupLock.attempt, if_neg Bool.false_ne_true, hclaim]
  obtain ⟨lock', interrupts, done, providers, edition⟩ := r
  subst hdone
  cases aim <;>
    simp [ask, run, runFor, step?, hattempt, put, Addition.next, Addition.providers, Aim.result,
      Bind.bind, Traced.bind, pure, Traced.pure]

end Alone

/-! ### A call amid the steps of others -/

namespace Label

/-- The candidates that a thread was offered when it discovered. -/
def offer (t : ThreadId) : Label → Option (List (Except LoadError Source))
  | .did u offer (.discover _) _ _ => if u = t then some offer else none
  | _ => none

/-- The providers that a thread put into the list. -/
def put (t : ThreadId) (l : Label) : Option (List Provider) :=
  if l.thread = some t then l.addition.map Addition.providers else none

end Label

/-- The candidates that a thread was offered, at each discovery. -/
def offers (t : ThreadId) (ls : List Label) : List (List (Except LoadError Source)) :=
  ls.filterMap (Label.offer t)

/-- The providers that a thread put into the list, at each such step. -/
def puts (t : ThreadId) (ls : List Label) : List (List Provider) := ls.filterMap (Label.put t)

/-- A thread found that discovery was done. -/
def FoundDone (t : ThreadId) (ls : List Label) : Prop :=
  ∃ move ∈ ls.filterMap (Label.move t), (∃ aim, move.1 = .look aim ∧ move.2.1 = .fetch aim) ∨
    ∃ aim, move.1 = .lookAgain aim ∧ move.2.1 = .release aim

variable {t : ThreadId} {aim : Aim} {ls ls' : List Label} {l : Label} {stage : Stage}
  {context : LoadingContext}

/-- A call was offered candidates, told one message for each, and is about to put the providers of
the valid ones into the list, or has done so. -/
structure Read (t : ThreadId) (context : LoadingContext) (ls : List Label)
    (offer : List (Except LoadError Source)) (put : List (List Provider)) : Prop where
  offers : offers t ls = [offer]
  reports : reports t ls = offer.map fun c => .status (Provider.entry context c)
  puts : puts t ls = put

/-- A call was offered nothing so far, has told nothing, and has put nothing into the list. -/
structure Idle (t : ThreadId) (ls : List Label) : Prop where
  offers : offers t ls = []
  reports : reports t ls = []
  puts : puts t ls = []

/-- A call found that discovery was done, or has done it: it put all providers that the valid
candidates announce into the list, and nothing else. -/
def IsThrough (t : ThreadId) (context : LoadingContext) (ls : List Label) : Prop :=
  (FoundDone t ls ∧ Idle t ls) ∨
    ∃ offer, Read t context ls offer [offer.filterMap (Provider.valid? context)]

/-- What a call that makes sure of discovery and does not give up has done when it comes to a
stage. -/
def Progress (t : ThreadId) (context : LoadingContext) (ls : List Label) : Stage → Prop
  | .look _ | .wait _ | .lookAgain _ | .discover _ => Idle t ls
  | .extend (.found _ providers) | .swap (.found _ providers) _ _ =>
    ∃ offer, Read t context ls offer [] ∧ providers = offer.filterMap (Provider.valid? context)
  | .publish _ => ∃ offer, Read t context ls offer [offer.filterMap (Provider.valid? context)]
  | .release _ | .fetch _ | .fetched _ => IsThrough t context ls
  | _ => False

section Snoc

variable {offer : List (Except LoadError Source)} {before after : Stage} {events : List Event}

theorem offers_snoc : offers t (ls ++ [l]) = offers t ls ++ (l.offer t).toList := by
  rw [offers, List.filterMap_append]
  cases h : l.offer t <;> simp [offers, h]

theorem puts_snoc : puts t (ls ++ [l]) = puts t ls ++ (l.put t).toList := by
  rw [puts, List.filterMap_append]
  cases h : l.put t <;> simp [puts, h]

theorem reports_snoc :
    reports t (ls ++ [l]) = reports t ls ++ (l.move t).elim [] fun move => move.2.2 := by
  rw [reports, List.filterMap_append, List.flatMap_append]
  cases h : l.move t <;> simp [reports, h]

/-- A step that tells nothing, is offered nothing and puts nothing into the list. -/
structure IsSilent (t : ThreadId) (l : Label) : Prop where
  offer : l.offer t = none
  events : (l.move t).elim [] (fun move => move.2.2) = []
  put : l.put t = none

theorem isSilent_of_thread_ne (h : l.thread ≠ some t) : IsSilent t l := by
  refine ⟨?_, by rw [System.move_of_thread_ne h]; rfl, if_neg h⟩
  cases l with
  | did u offer before after events =>
    have hne : u ≠ t := fun heq => h (congrArg some heq)
    cases before with
    | discover aim => exact if_neg hne
    | look | wait | giveUp | lookAgain | extend | swap | publish | release | fetch | read
    | waitToReset | empty | retract | releaseReset | fetched | loaded | cleared => rfl
  | called | locked | gaveUp | dropped | interrupted | calmed => rfl

theorem isSilent_did (hoffer : (Label.did t offer before after []).offer t = none)
    (hadds : (Label.did t offer before after []).addition = none) :
    IsSilent t (.did t offer before after []) :=
  ⟨hoffer, by simp [Label.move], by simp [Label.put, hadds]⟩

theorem IsSilent.offers_snoc (hl : IsSilent t l) : offers t (ls ++ [l]) = offers t ls := by
  rw [ProviderRegistry.offers_snoc, hl.offer, Option.toList_none, List.append_nil]

theorem IsSilent.reports_snoc (hl : IsSilent t l) : reports t (ls ++ [l]) = reports t ls := by
  rw [ProviderRegistry.reports_snoc, hl.events, List.append_nil]

theorem IsSilent.puts_snoc (hl : IsSilent t l) : puts t (ls ++ [l]) = puts t ls := by
  rw [ProviderRegistry.puts_snoc, hl.put, Option.toList_none, List.append_nil]

theorem Idle.snoc (h : Idle t ls) (hl : IsSilent t l) : Idle t (ls ++ [l]) :=
  ⟨hl.offers_snoc.trans h.offers, hl.reports_snoc.trans h.reports, hl.puts_snoc.trans h.puts⟩

theorem Read.snoc {put : List (List Provider)} (h : Read t context ls offer put)
    (hl : IsSilent t l) : Read t context (ls ++ [l]) offer put :=
  ⟨hl.offers_snoc.trans h.offers, hl.reports_snoc.trans h.reports, hl.puts_snoc.trans h.puts⟩

/-- Discovery is offered candidates and tells what becomes of them. -/
theorem Idle.discovers (h : Idle t ls) (context : LoadingContext)
    (offer : List (Except LoadError Source)) (aim : Aim) (found : List Provider) :
    Read t context (ls ++ [.did t offer (.discover aim) (.extend (.found aim found))
      (Provider.announceAll context offer).events]) offer [] := by
  constructor
  · rw [offers_snoc, h.offers]
    simp [Label.offer]
  · rw [reports_snoc, h.reports, Provider.events_announceAll]
    simp [Label.move]
  · rw [puts_snoc, h.puts]
    simp [Label.put, Label.addition]

/-- What discovery found is put into the list at once. -/
theorem Read.installs {found seen : List Provider} {edition : Nat} (h : Read t context ls offer [])
    (other : List (Except LoadError Source)) :
    Read t context
      (ls ++ [.did t other (.swap (.found aim found) seen edition) (.publish aim) []]) offer
      [found] := by
  constructor
  · rw [offers_snoc, h.offers]
    simp [Label.offer]
  · rw [reports_snoc, h.reports]
    simp [Label.move]
  · rw [puts_snoc, h.puts]
    simp [Label.put, Label.thread, Label.addition, Addition.providers]

theorem foundDone_snoc (h : (∃ aim, before = .look aim ∧ after = .fetch aim) ∨
    ∃ aim, before = .lookAgain aim ∧ after = .release aim) :
    FoundDone t (ls ++ [.did t offer before after events]) := by
  refine ⟨(before, after, events), ?_, h⟩
  rw [List.filterMap_append]
  exact List.mem_append_right _ (by simp [Label.move])

theorem FoundDone.snoc (h : FoundDone t ls) (l : Label) : FoundDone t (ls ++ [l]) := by
  obtain ⟨move, hmove, hfound⟩ := h
  refine ⟨move, ?_, hfound⟩
  rw [List.filterMap_append]
  exact List.mem_append_left _ hmove

theorem IsThrough.snoc (h : IsThrough t context ls) (hl : IsSilent t l) :
    IsThrough t context (ls ++ [l]) := by
  rcases h with ⟨hfound, hidle⟩ | ⟨offer, hread⟩
  · exact .inl ⟨hfound.snoc l, hidle.snoc hl⟩
  · exact .inr ⟨offer, hread.snoc hl⟩

end Snoc

namespace Progress

/-- The steps of others do not count. -/
theorem of_silent (h : Progress t context ls stage) (hl : IsSilent t l) :
    Progress t context (ls ++ [l]) stage := by
  cases stage with
  | look | wait | lookAgain | discover => exact Idle.snoc h hl
  | extend new | swap new =>
    cases new with
    | found aim providers =>
      obtain ⟨offer, hread, hproviders⟩ := h
      exact ⟨offer, hread.snoc hl, hproviders⟩
    | installed p => exact h
  | publish =>
    obtain ⟨offer, hread⟩ := h
    exact ⟨offer, hread.snoc hl⟩
  | release | fetch | fetched => exact IsThrough.snoc h hl
  | giveUp | read | waitToReset | empty | retract | releaseReset | loaded | cleared => exact h

theorem of_step {offer : List (Except LoadError Source)} {r : ProviderRegistry}
    {next : Traced (Stage × ProviderRegistry)} (h : Progress t context ls stage)
    (step : step? (Provider.announceAll context offer) t stage r = some next)
    (hgives : (Label.did t offer stage next.value.1 next.events).givesUp ≠ some t) :
    Progress t context (ls ++ [.did t offer stage next.value.1 next.events]) next.value.1 := by
  cases stage with
  | look aim =>
    cases step
    cases r.isInitialized with
    | true =>
      exact .inl ⟨foundDone_snoc (.inl ⟨aim, rfl, rfl⟩), Idle.snoc h (isSilent_did rfl rfl)⟩
    | false => exact Idle.snoc h (isSilent_did rfl rfl)
  | wait aim =>
    simp only [step?] at step
    split at step
    · cases step
      exact absurd rfl hgives
    · cases step
      exact Idle.snoc h (isSilent_did rfl rfl)
    · cases step
  | lookAgain aim =>
    cases step
    cases r.isInitialized with
    | true =>
      exact .inl ⟨foundDone_snoc (.inr ⟨aim, rfl, rfl⟩), Idle.snoc h (isSilent_did rfl rfl)⟩
    | false => exact Idle.snoc h (isSilent_did rfl rfl)
  | discover aim =>
    cases step
    have hread := h.discovers context offer aim (Provider.announceAll context offer).value
    refine ⟨offer, ?_, Provider.value_announceAll context offer⟩
    simpa only [bind_pure_comp, Traced.value_map, Traced.events_map] using hread
  | extend new =>
    cases step
    cases new with
    | found aim providers =>
      obtain ⟨offer', hread, hproviders⟩ := h
      exact ⟨offer', hread.snoc (isSilent_did rfl rfl), hproviders⟩
    | installed p => exact h.elim
  | swap new seen edition =>
    cases step
    cases new with
    | found aim providers =>
      obtain ⟨offer', hread, hproviders⟩ := h
      simp only [Traced.value_pure, Traced.events_pure]
      split
      · subst hproviders
        exact ⟨offer', hread.installs offer⟩
      · exact ⟨offer', hread.snoc (isSilent_did rfl rfl), hproviders⟩
    | installed p => exact h.elim
  | publish aim =>
    cases step
    obtain ⟨offer', hread⟩ := h
    exact .inr ⟨offer', hread.snoc (isSilent_did rfl rfl)⟩
  | release aim =>
    cases step
    exact IsThrough.snoc h (isSilent_did rfl rfl)
  | fetch aim =>
    cases aim <;>
    · cases step
      exact IsThrough.snoc h (isSilent_did rfl rfl)
  | fetched => cases step
  | giveUp | read | waitToReset | empty | retract | releaseReset | loaded | cleared => exact h.elim

end Progress

namespace System

variable {s s' a b : System}

theorem not_gaveUp_of_snoc (h : ¬ GaveUp t (ls ++ [l])) : ¬ GaveUp t ls ∧ l.givesUp ≠ some t := by
  constructor
  · rintro ⟨m, hm, hgives⟩
    exact h ⟨m, List.mem_append_left _ hm, hgives⟩
  · intro hgives
    exact h ⟨l, List.mem_append_right _ (List.mem_singleton_self l), hgives⟩

theorem context_of_within (h : Run (Within t) s ls a) : a.context = s.context :=
  h.preserves (I := fun b => b.context = s.context) rfl fun _ _ _ _ hstep ha => by
    obtain ⟨hstep, -, -⟩ := hstep
    cases hstep <;> exact ha

/-- What a call that does not give up has done at each moment. -/
theorem InCall.progress (h : InCall t aim s ls a) (hgave : ¬ GaveUp t ls) :
    ∃ stage, a.stage t = some stage ∧ Progress t s.context ls stage := by
  obtain ⟨hs, hrun⟩ := h
  -- a step of the call itself moves it on, and a step of another thread is silent
  induction hrun with
  | nil => exact ⟨_, hs, rfl, rfl, rfl⟩
  | @snoc ls l a b hrun hstep ih =>
    obtain ⟨hbefore, hgives⟩ := not_gaveUp_of_snoc hgave
    obtain ⟨stage, ha, hprogress⟩ := ih hbefore
    by_cases hl : l.thread = some t
    · obtain ⟨offer, stage', next, ha', step, rfl, rfl⟩ := hstep.did_of_thread hl
      cases Option.some.inj (ha.symm.trans ha')
      rw [context_of_within hrun] at step
      exact ⟨_, stage_move_self .., hprogress.of_step step hgives⟩
    · exact ⟨stage, (stage_of_thread_ne hstep.1 hl).trans ha,
        hprogress.of_silent (isSilent_of_thread_ne hl)⟩

theorem InCall.isThrough (h : InCall t aim s ls s') (hgave : ¬ GaveUp t ls) (ends : s'.IsIdle t) :
    IsThrough t s.context ls := by
  obtain ⟨stage, hstage, hprogress⟩ := h.progress hgave
  have hdone := ends stage hstage
  cases stage with
  | fetched => exact hprogress
  | loaded | cleared => exact hprogress.elim
  | look | wait | giveUp | lookAgain | discover | extend | swap | publish | release | fetch | read
  | waitToReset | empty | retract | releaseReset => cases hdone

/-- The steps of a call leave the list or put something behind it. -/
theorem InCall.providers_of_takes (h : InCall t aim s ls s') (current : s.Current)
    (hgave : ¬ GaveUp t ls) (htakes : Run.Takes (Within t) s ls s' a l b)
    (hl : l.thread = some t) :
    b.registry.providers = a.registry.providers ++ (l.put t).getD [] := by
  obtain ⟨as, bs, rfl, hbefore, hstep, -⟩ := htakes
  have hcurrent : a.Current :=
    hbefore.preserves current fun _ _ _ _ hwithin ha => ha.of_step hwithin.1
  have hnot : ¬ GaveUp t as := by
    rintro ⟨m, hm, hgives⟩
    exact hgave ⟨m, List.mem_append_left _ hm, hgives⟩
  obtain ⟨stage, hstage, hprogress⟩ := InCall.progress ⟨h.begins, hbefore⟩ hnot
  obtain ⟨offer, stage', next, ha, -, hlabel, -⟩ := hstep.did_of_thread hl
  cases Option.some.inj (hstage.symm.trans ha)
  have hempties : l.empties = false := by
    rw [hlabel]
    cases stage with
    | empty => exact hprogress.elim
    | look | wait | giveUp | lookAgain | discover | extend | swap | publish | release | fetch | read
    | waitToReset | retract | releaseReset | fetched | loaded | cleared => rfl
  have hadded : l.added = (l.put t).getD [] := by
    rw [Label.put, if_pos hl, Label.added]
    cases l.addition <;> rfl
  rw [providers_of_step hstep.1 hcurrent, hempties, hadded]
  rfl

/-- A call that found discovery done came upon a registry that said so. -/
theorem InCall.exists_done (h : InCall t aim s ls s') (hfound : FoundDone t ls) :
    ∃ a l b, Run.Takes (Within t) s ls s' a l b ∧ l.thread = some t ∧
      a.registry.isInitialized = true := by
  obtain ⟨⟨before, after, events⟩, hmem, hfound⟩ := hfound
  obtain ⟨l, hl, hmove⟩ := List.mem_filterMap.mp hmem
  have hthread : l.thread = some t := by
    by_contra hne
    rw [move_of_thread_ne hne] at hmove
    cases hmove
  obtain ⟨as, bs, rfl⟩ := List.append_of_mem hl
  obtain ⟨a, b, ha, hstep, hb⟩ := h.run.split_cons
  refine ⟨a, l, b, ⟨as, bs, rfl, ha, hstep, hb⟩, hthread, ?_⟩
  obtain ⟨offer, stage, next, -, step, rfl, -⟩ := hstep.did_of_thread hthread
  rw [Label.move, if_pos rfl, Option.some.injEq, Prod.mk.injEq, Prod.mk.injEq] at hmove
  obtain ⟨rfl, rfl, -⟩ := hmove
  -- both ways to find it done have read the flag in this step
  rcases hfound with ⟨aim, rfl, hafter⟩ | ⟨aim, rfl, hafter⟩
  · cases step
    by_contra hdone
    simp [hdone] at hafter
  · cases step
    by_contra hdone
    simp [hdone] at hafter

/-- Candidates that fail do not touch the others. A first call that is not interrupted, by a thread
whose neighbours rest, puts the providers that the valid candidates announce behind the list, in
their order, and tells one message for each candidate, in their order. Amid the steps of others a
call that does not give up either comes upon a registry whose discovery is done, and leaves the list
and tells nothing, or it does all this: it puts those providers behind the list as it then is, in
one step, and no other step of it changes the list. With failing candidates anywhere among the
others or without them, every call ends in the same way and with the same registry. -/
theorem failing_candidates_are_isolated (current : s.Current) :
    (∀ context offer me aim r lock, r.isInitialized = false → r.interrupts.isRaised me = false →
      r.lock.claim? me = some lock →
      ask (Provider.announceAll context offer) me aim r =
        ⟨(aim.result (r.providers ++ offer.filterMap (Provider.valid? context)),
          { r with
            lock := lock.release
            isInitialized := true
            providers := r.providers ++ offer.filterMap (Provider.valid? context)
            edition := r.edition + 1 }),
          offer.map fun c => .status (Provider.entry context c)⟩) ∧
    (∀ t aim ls s', InCall t aim s ls s' → ¬ GaveUp t ls → s'.IsIdle t →
      (∀ a l b, Run.Takes (Within t) s ls s' a l b → l.thread = some t →
        b.registry.providers = a.registry.providers ++ (l.put t).getD []) ∧
      ((offers t ls = [] ∧ reports t ls = [] ∧ puts t ls = [] ∧
        ∃ a l b, Run.Takes (Within t) s ls s' a l b ∧ l.thread = some t ∧
          a.registry.isInitialized = true) ∨
      ∃ offer, offers t ls = [offer] ∧
        reports t ls = (offer.map fun c => .status (Provider.entry s.context c)) ∧
        puts t ls = [offer.filterMap (Provider.valid? s.context)])) ∧
    ∀ context before failing after, (∀ c ∈ failing, Provider.valid? context c = none) →
      ∀ me aim r, (ask (Provider.announceAll context (before ++ failing ++ after)) me aim r).value =
        (ask (Provider.announceAll context (before ++ after)) me aim r).value := by
  refine ⟨?_, ?_, ?_⟩
  · intro context offer me aim r lock hdone hcalm hclaim
    rw [ask_of_not_initialized aim hdone hcalm hclaim, Provider.value_announceAll,
      Provider.events_announceAll]
  · intro t aim ls s' h hgave ends
    refine ⟨fun a l b => h.providers_of_takes current hgave, ?_⟩
    rcases h.isThrough hgave ends with ⟨hfound, hidle⟩ | ⟨offer, hread⟩
    · exact .inl ⟨hidle.offers, hidle.reports, hidle.puts, h.exists_done hfound⟩
    · exact .inr ⟨offer, hread.offers, hread.reports, hread.puts⟩
  · intro context before failing after hfailing me aim r
    rw [ask, ask, run, run]
    refine value_runFor_congr ?_ 9 (.look aim) r
    rw [Provider.value_announceAll, Provider.value_announceAll,
      Provider.filterMap_valid?_of_failing before after hfailing]

/-- The steps of a whole call of a thread whose neighbours rest, while the candidates stay the
same. -/
theorem exists_within_of_runFor (s : System) (t : ThreadId) (offer : List (Except LoadError Source))
    (n : Nat) (stage : Stage) (r : ProviderRegistry) :
    ∃ ls, (∀ other ∈ offers t ls, other = offer) ∧
      reports t ls = (runFor (Provider.announceAll s.context offer) t n stage r).events ∧
      Run (Within t) (s.move r t stage) ls
        (s.move (runFor (Provider.announceAll s.context offer) t n stage r).value.2 t
          (runFor (Provider.announceAll s.context offer) t n stage r).value.1) := by
  induction n generalizing stage r with
  | zero => exact ⟨[], fun _ hother => absurd hother List.not_mem_nil, rfl, .nil⟩
  | succ n ih =>
    rw [runFor]
    cases hstep : step? (Provider.announceAll s.context offer) t stage r with
    | none => exact ⟨[], fun _ hother => absurd hother List.not_mem_nil, rfl, .nil⟩
    | some next =>
      obtain ⟨ls, hoffers, hreports, hrest⟩ := ih next.value.1 next.value.2
      refine ⟨[.did t offer stage next.value.1 next.events] ++ ls, fun other hother => ?_, ?_,
        (Run.single (within_move offer hstep)).append hrest⟩
      · rw [offers, List.filterMap_append, List.mem_append] at hother
        rcases hother with hother | hother
        · obtain ⟨l, hl, hoffer⟩ := List.mem_filterMap.mp hother
          rw [List.mem_singleton.mp hl] at hoffer
          cases stage <;> simp_all [Label.offer]
        · exact hoffers other hother
      · rw [Traced.events_bind, ← hreports]
        simp [reports, Label.move]

/-- A manifest that cannot be opened, a valid one, and one of another version. -/
def mixedCandidates : List (Except LoadError Source) :=
  [.error (.notFound "a.yaml"), .ok (.ofBytes (Utf8.encode "Log4jAPIVersion: 2.6.0")),
    .ok (.ofBytes (Utf8.encode "Log4jAPIVersion: 2.5.0"))]

/-- A host has installed a provider; the first call then puts behind it the one that is valid among
three candidates, and tells all three. -/
theorem one_of_three_is_listed :
    ∃ s ls s' p q, s.registry.providers = [p] ∧ InCall 0 .list s ls s' ∧
      offers 0 ls = [mixedCandidates] ∧ puts 0 ls = [[q]] ∧ s'.registry.providers = [p, q] ∧
      (reports 0 ls).map (fun e => (statusOf [e]).map StatusMessage.level) =
        [[.error], [.debug], [.warn]] := by
  let context : LoadingContext := ⟨"main", 0⟩
  let p : Provider := ⟨"2.6.0", 7, none, none, .unknown, context⟩
  let q : Provider := ⟨"2.6.0", -1, none, none, .unknown, context⟩
  let r : ProviderRegistry := ⟨.free, .none, false, [p], 1⟩
  let s := (rested context).move r 0 (.look .list)
  have current : s.Current := by
    intro t new seen edition hstage
    by_cases ht : t = 0
    · subst ht
      cases (stage_move_self ..).symm.trans hstage
    · rw [show s.stage t = none from Function.update_of_ne ht ..] at hstage
      cases hstage
  have hfound : mixedCandidates.filterMap (Provider.valid? context) = [q] := by decide +kernel
  obtain ⟨halone, hamid, -⟩ := failing_candidates_are_isolated current
  have hcall := halone context mixedCandidates 0 .list r ⟨some 0, 1⟩ rfl rfl rfl
  rw [hfound] at hcall
  obtain ⟨ls, hoffers, hreports, hrun⟩ :=
    exists_within_of_runFor (rested context) 0 mixedCandidates 9 (.look .list) r
  change runFor (Provider.announceAll (rested context).context mixedCandidates) 0 9
    (.look .list) r = _ at hcall
  rw [hcall] at hreports hrun
  let s' := (rested context).move ⟨.free, .none, true, [p, q], 2⟩ 0 (Aim.list.result [p, q])
  have hin : InCall 0 .list s ls s' := ⟨stage_move_self .., hrun⟩
  have ends : s'.IsIdle 0 := isIdle_of_isDone (stage_move_self ..) rfl
  have hgave : ¬ GaveUp 0 ls := fun hgave =>
    Bool.false_ne_true (hin.isRaised_of_gaveUp ends hgave)
  obtain ⟨-, ⟨-, hnone, -⟩ | ⟨offer, hoffer, hentries, hputs⟩⟩ := hamid 0 .list ls _ hin hgave ends
  · rw [hreports] at hnone
    cases hnone
  · obtain rfl : offer = mixedCandidates := hoffers offer (hoffer ▸ List.mem_singleton_self _)
    refine ⟨s, ls, s', p, q, rfl, hin, hoffer, hputs.trans ?_, rfl, ?_⟩
    · exact congrArg (fun x => [x]) hfound
    · rw [hreports]
      decide +kernel

end System

end ProviderRegistry

end LogSetup
