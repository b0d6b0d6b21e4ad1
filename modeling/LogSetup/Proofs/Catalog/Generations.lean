import LogSetup.Proofs.Catalog.Alone
import LogSetup.Proofs.Catalog.Builds

/-!
# Generations of the list

From one reset to the next the list of factories is discovered at most once, and all calls in
between get the list that this discovery made.

## Main definitions

- `Catalog.Label.beginsDiscovery`, `Catalog.Label.endsDiscovery` : the first and the last step of
  discovery
- `Catalog.buildsIn` : how often a run built a candidate
- `Catalog.System.IsRestarted` : the catalog was reset and has not been called since

## Main statements

- `Catalog.System.discovered_once_per_generation` : discovery, its list, and what it builds
-/

namespace LogSetup.Catalog

namespace Label

def beginsDiscovery : Label → Bool
  | .did _ .discover _ _ => true
  | _ => false

/-- The factory that the settings named was built. -/
def buildsNamed : Label → Bool
  | .did _ (.build _) _ _ => true
  | _ => false

def endsDiscovery : Label → Bool
  | .did _ (.rank _) _ _ => true
  | _ => false

def events : Label → List Event
  | .did _ _ _ events => events
  | _ => []

end Label

/-- How often a run built a candidate. -/
def buildsIn (id : Nat) (ls : List Label) : Nat := buildsOf id (ls.flatMap Label.events)

/-! ### What a run builds -/

section Builds

variable {plugins : PluginTable Factory} {settings : Settings} {me : ThreadId} {stage : Stage}
  {c : Catalog} {next : Traced (Stage × Catalog)} {l : Label} {ls : List Label} {id : Nat}

theorem buildsIn_cons (id : Nat) (l : Label) (ls : List Label) :
    buildsIn id (l :: ls) = buildsOf id l.events + buildsIn id ls := by
  rw [buildsIn, List.flatMap_cons, buildsOf_append, buildsIn]

theorem buildsIn_singleton (id : Nat) (l : Label) : buildsIn id [l] = buildsOf id l.events := by
  rw [buildsIn_cons]
  rfl

theorem buildsOf_of_step (h : step? plugins settings me stage c = some next) :
    buildsOf id next.events =
      match stage with
      | .build name => buildsOf id (factoryNamed plugins name).events
      | .rank _ => (plugins.candidates factoryCategory).countP fun c => c.id == id
      | _ => 0 := by
  cases stage with
  | build =>
    cases h
    rw [Traced.events_bind, Traced.events_pure, List.append_nil]
  | rank =>
    cases h
    rw [Traced.events_bind, Traced.events_pure, List.append_nil, buildsOf_rankFactories]
  | wait | waitToReset =>
    simp only [step?] at h
    split at h
    · cases h
      rfl
    · cases h
  | fetched | cleared => cases h
  | look | lookAgain | discover | store | publish | release | fetch | empty | retract
  | releaseReset =>
    cases h
    rfl

/-- Candidates are built in two steps of discovery only. -/
theorem buildsIn_eq_add
    (hother : ∀ l ∈ ls, l.buildsNamed = false → l.endsDiscovery = false →
      buildsOf id l.events = 0) :
    buildsIn id ls =
      buildsIn id (ls.filter Label.buildsNamed) + buildsIn id (ls.filter Label.endsDiscovery) := by
  -- no label is of both kinds, so none is counted twice
  induction ls with
  | nil => rfl
  | cons l ls ih =>
    have hrest := ih fun l hl => hother l (List.mem_cons_of_mem _ hl)
    have hfirst := hother l (List.mem_cons_self ..)
    cases hnamed : l.buildsNamed with
    | true =>
      have hends : l.endsDiscovery = false := by
        cases l with
        | did t before after events => cases before <;> first | rfl | cases hnamed
        | asked | reset | changed => rfl
      simp only [List.filter_cons, hnamed, hends, buildsIn_cons, hrest, if_true]
      simp only [Bool.false_eq_true, if_false]
      omega
    | false =>
      cases hends : l.endsDiscovery with
      | true =>
        simp only [List.filter_cons, hnamed, hends, buildsIn_cons, hrest, if_true]
        simp only [Bool.false_eq_true, if_false]
        omega
      | false =>
        simp only [List.filter_cons, hnamed, hends, buildsIn_cons, hrest, Bool.false_eq_true,
          if_false, hfirst hnamed hends, Nat.zero_add]

theorem filter_of_countP_le_one {p : Label → Bool} (h : ls.countP p ≤ 1) :
    ls.filter p = [] ∨ ∃ l ∈ ls, p l = true ∧ ls.filter p = [l] := by
  rw [List.countP_eq_length_filter] at h
  cases hfilter : ls.filter p with
  | nil => exact .inl rfl
  | cons l rest =>
    rw [hfilter, List.length_cons] at h
    have hrest : rest = [] := List.eq_nil_of_length_eq_zero (by omega)
    have hl : l ∈ ls.filter p := hfilter ▸ List.mem_cons_self ..
    exact .inr ⟨l, (List.mem_filter.mp hl).1, (List.mem_filter.mp hl).2, by rw [hrest]⟩

end Builds

namespace System

variable {s s' start : System} {l : Label} {ls past : List Label} {t u : ThreadId} {id : Nat}
  {list : List Descriptor}

/-- Discovery is under way in a thread. -/
def Discovers (s : System) (t : ThreadId) : Prop :=
  s.stage t = some .discover ∨ (∃ name, s.stage t = some (.build name)) ∨
    ∃ named, s.stage t = some (.rank named)

theorem Discovers.phase_ne_away (h : s.Discovers t) : s.view.phase t ≠ .away := by
  rcases h with hstage | ⟨name, hstage⟩ | ⟨named, hstage⟩ <;>
    simp [phase_view hstage, Stage.phase]

namespace Stretch

theorem act_ne_undone (h : s.Stretch ls s') : .undone ∉ ls.map Label.act := by
  intro hmem
  obtain ⟨l, hl, hact⟩ := List.mem_map.mp hmem
  obtain ⟨as, a, b, -, ha, hstep⟩ := h.of_mem hl
  cases hstep with
  | @act t stage next at_ step =>
    have hretract : stage = .retract := by
      cases stage <;> first | rfl | cases hact
    subst hretract
    exact not_isCalm_of_retract at_ ha.calm_last
  | ask | reset | change => cases hact

/-- No step of discovery is taken twice. -/
theorem countP_le_one (h : s.Stretch ls s') {n : Nat} {p : Label → Bool}
    (hp : ∀ l : Label, p l = (l.act == .worked n)) : ls.countP p ≤ 1 := by
  have hcount := OneTime.count_worked_le_one (n := n) h.inv (seen_of_run h.run) h.act_ne_undone
  rw [List.count, List.countP_map] at hcount
  rwa [funext hp]

theorem countP_beginsDiscovery (h : s.Stretch ls s') : ls.countP Label.beginsDiscovery ≤ 1 := by
  refine h.countP_le_one (n := 3) fun l => ?_
  cases l with
  | did t before after events => cases before <;> rfl
  | asked | reset | changed => rfl

theorem countP_buildsNamed (h : s.Stretch ls s') : ls.countP Label.buildsNamed ≤ 1 := by
  refine h.countP_le_one (n := 2) fun l => ?_
  cases l with
  | did t before after events => cases before <;> rfl
  | asked | reset | changed => rfl

theorem countP_endsDiscovery (h : s.Stretch ls s') : ls.countP Label.endsDiscovery ≤ 1 := by
  refine h.countP_le_one (n := 1) fun l => ?_
  cases l with
  | did t before after events => cases before <;> rfl
  | asked | reset | changed => rfl

theorem buildsIn_buildsNamed (h : s.Stretch ls s') (id : Nat) :
    buildsIn id (ls.filter Label.buildsNamed) = 0 ∨
      buildsIn id (ls.filter Label.buildsNamed) = 1 ∧ ∃ as a t name,
        as <+: ls ∧ Run Step s as a ∧ a.stage t = some (.build name) ∧ Names a.plugins name id := by
  rcases filter_of_countP_le_one h.countP_buildsNamed with hnone | ⟨l, hl, hnamed, hone⟩
  · rw [hnone]
    exact .inl rfl
  · obtain ⟨as, a, b, has, ha, hstep⟩ := h.of_mem hl
    rw [hone, buildsIn_singleton]
    cases hstep with
    | @act t stage next at_ step =>
      cases stage with
      | build name =>
        rw [Label.events, buildsOf_of_step step]
        obtain ⟨hle, hzero⟩ := buildsOf_factoryNamed a.plugins name id
        by_cases hnames : Names a.plugins name id
        · rcases Nat.le_one_iff_eq_zero_or_eq_one.mp hle with heq | heq
          · exact .inl heq
          · exact .inr ⟨heq, as, a, t, name, has, ha.run, at_, hnames⟩
        · exact .inl (hzero hnames)
      | look | wait | lookAgain | discover | rank | store | publish | release | fetch | waitToReset
      | empty | retract | releaseReset | fetched | cleared => cases hnamed
    | ask | reset | change => cases hnamed

theorem buildsIn_endsDiscovery (h : s.Stretch ls s') (id : Nat) :
    ∃ as a, as <+: ls ∧ Run Step s as a ∧ buildsIn id (ls.filter Label.endsDiscovery) ≤
      (a.plugins.candidates factoryCategory).countP fun c => c.id == id := by
  rcases filter_of_countP_le_one h.countP_endsDiscovery with hnone | ⟨l, hl, hends, hone⟩
  · rw [hnone]
    exact ⟨[], s, List.nil_prefix, .nil, Nat.zero_le _⟩
  · obtain ⟨as, a, b, has, ha, hstep⟩ := h.of_mem hl
    rw [hone, buildsIn_singleton]
    refine ⟨as, a, has, ha.run, ?_⟩
    cases hstep with
    | @act t stage next at_ step =>
      rw [Label.events, buildsOf_of_step step]
      cases stage with
      | rank => exact Nat.le_refl _
      | look | wait | lookAgain | discover | build | store | publish | release | fetch | waitToReset
      | empty | retract | releaseReset | fetched | cleared => cases hends
    | ask | reset | change => cases hends

theorem buildsIn_eq (h : s.Stretch ls s') (id : Nat) :
    buildsIn id ls =
      buildsIn id (ls.filter Label.buildsNamed) + buildsIn id (ls.filter Label.endsDiscovery) := by
  refine buildsIn_eq_add fun l hl hnamed hends => ?_
  obtain ⟨as, a, b, -, -, hstep⟩ := h.of_mem hl
  cases hstep with
  | @act t stage next at_ step =>
    rw [Label.events, buildsOf_of_step step]
    cases stage with
    | build => cases hnamed
    | rank => cases hends
    | look | wait | lookAgain | discover | store | publish | release | fetch | waitToReset | empty
    | retract | releaseReset | fetched | cleared => rfl
  | ask | reset | change => rfl

end Stretch

/-! ### After a reset -/

/-- The last call that did something reset the catalog, and nobody is in a call. -/
structure IsRestarted (s : System) (past : List Label) : Prop where
  reset : ∃ before t events after, past = before ++ .did t .releaseReset .cleared events :: after ∧
    ∀ l ∈ after, l.asks = false
  idle : ∀ t, s.IsIdle t

/-- Only calls for the list tell that it is made. -/
theorem flag_of_not_asks (h : Step s l s') (hl : l.asks = false)
    (flag : s.catalog.isInitialized = false) : s'.catalog.isInitialized = false := by
  cases h with
  | ask | reset | change => exact flag
  | @act t stage next at_ step =>
    have hflag := flag_of_step step
    cases stage with
    | publish => cases hl
    | retract => exact hflag
    | look | wait | lookAgain | discover | build | rank | store | release | fetch | waitToReset
    | empty | releaseReset | fetched | cleared => exact hflag.trans flag

theorem IsRestarted.flag (h : s.IsRestarted past) (inv : start.view.Inv)
    (reached : Run Step start past s) : s.catalog.isInitialized = false := by
  obtain ⟨before, t, events, after, rfl, hafter⟩ := h.reset
  obtain ⟨a, b, ha, hstep, hb⟩ := reached.split_cons
  have hagrees := (inv.of_run (seen_of_run ha)).agrees t
  obtain ⟨next, at_, step, -, -, rfl⟩ := step_of_did hstep
  rw [phase_view at_] at hagrees
  -- the flag was cleared when the reset released the lock, and nobody has set it since
  refine hb.preserves (I := fun x => x.catalog.isInitialized = false) ?_
    fun _ l _ hl hstep hx => flag_of_not_asks hstep (hafter l hl) hx
  exact (flag_of_step step).trans hagrees

/-- A reset by a thread whose neighbours rest comes to its end. -/
theorem exists_isRestarted (idle : ∀ t, s.IsIdle t) (free : s.catalog.holder = none)
    (t : ThreadId) :
    ∃ past s', Run Step s past s' ∧ s'.IsRestarted past ∧ s'.plugins = s.plugins ∧
      s'.settings = s.settings := by
  have hcall : Step s (.reset t) (s.enter t .waitToReset) := .reset (idle t)
  have hlock : step? s.plugins s.settings t .waitToReset s.catalog =
      some (pure (.empty, { s.catalog with holder := some t })) := by
    simp only [step?, free, Option.isNone_none, if_true]
  have hempty (c : Catalog) : step? s.plugins s.settings t .empty c =
      some (pure (.retract, { c with list := [] })) := rfl
  have hretract (c : Catalog) : step? s.plugins s.settings t .retract c =
      some (pure (.releaseReset, { c with isInitialized := false })) := rfl
  have hrelease (c : Catalog) : step? s.plugins s.settings t .releaseReset c =
      some (pure (.cleared, { c with holder := none })) := rfl
  let d := s.move ⟨none, false, []⟩ t .cleared
  have hrun := ((((Run.single hcall).snoc (step_move hlock)).snoc (step_move (hempty _))).snoc
    (step_move (hretract _))).snoc (step_move (hrelease _))
  refine ⟨_, d, hrun, ⟨?_, ?_⟩, rfl, rfl⟩
  · exact ⟨_, t, [], [], rfl, fun l hl => absurd hl List.not_mem_nil⟩
  · intro u stage hstage
    by_cases hut : u = t
    · simp only [d, move, hut, Function.update_self, Option.some.injEq] at hstage
      rw [← hstage]
      rfl
    · simp only [d, move, Function.update_of_ne hut] at hstage
      exact idle u stage hstage

/-! ### One generation -/

/-- What holds in any state that threads have brought about.
Discovery is under way in one thread at most. In a stretch of the run during which no reset is at
work it begins once at most and ends once at most; all calls get the same list, which stays for as
long as no reset is at work, whatever happens to plug-ins and settings; and each candidate is built
as often as it stands in the table, the one that the settings name once more. A thread that calls
first after a reset, and alone, gets the list that discovery makes of the plug-ins and settings that
are there. -/
theorem discovered_once_per_generation (fresh : start.IsFresh) (reached : Run Step start past s) :
    (∀ t u, s.Discovers t → s.Discovers u → t = u) ∧
    (s.IsCalm → ∀ ls s', Run Step s ls s' → (∀ l ∈ ls, l.entersReset = false) →
      (ls.countP Label.beginsDiscovery ≤ 1 ∧ ls.countP Label.endsDiscovery ≤ 1) ∧
      (∀ t u list list', Gets ls t list → Gets ls u list' → list = list') ∧
      (∀ t list, Gets ls t list → ∀ later s'', Run Step s' later s'' →
        (∀ l ∈ later, l.entersReset = false) →
        s''.catalog.isInitialized = true ∧ s''.catalog.list = list) ∧
      ∀ id, ∃ as a, as <+: ls ∧ Run Step s as a ∧
        buildsIn id ls ≤ ((a.plugins.candidates factoryCategory).countP fun c => c.id == id) + 1 ∧
        ((∀ bs b t name, bs <+: ls → Run Step s bs b → b.stage t = some (.build name) →
            ¬ Names b.plugins name id) →
          buildsIn id ls ≤ (a.plugins.candidates factoryCategory).countP fun c => c.id == id)) ∧
    (s.IsRestarted past → ∀ t,
      (∃ ls s', Alone t ls ∧ Run Step s ls s' ∧
        Gets ls t (discoverFactories s.plugins s.settings).value) ∧
      ∀ ls s' list, Alone t ls → Run Step s ls s' → Gets ls t list →
        list = (discoverFactories s.plugins s.settings).value) := by
  have inv : s.view.Inv := inv_of_run fresh reached
  refine ⟨fun t u ht hu => inv.unique ht.phase_ne_away hu.phase_ne_away, ?_, ?_⟩
  · intro calm ls s' hrun hquiet
    have h : s.Stretch ls s' := ⟨hrun, inv, calm, hquiet⟩
    refine ⟨⟨h.countP_beginsDiscovery, h.countP_endsDiscovery⟩, ?_, ?_, ?_⟩
    · intro t u list list' hlist hlist'
      exact (h.list_of_gets hlist).2.symm.trans (h.list_of_gets hlist').2
    · intro t list hgets later s'' hlater hlaterQuiet
      obtain ⟨hflag, hlist⟩ := h.list_of_gets hgets
      have hstays : s'.Stretch later s'' := ⟨hlater, h.inv_last, h.calm_last, hlaterQuiet⟩
      obtain ⟨hflag', hlist'⟩ := hstays.frozen hflag
      exact ⟨hflag', hlist'.trans hlist⟩
    · intro id
      obtain ⟨as, a, has, ha, hranked⟩ := h.buildsIn_endsDiscovery id
      refine ⟨as, a, has, ha, ?_⟩
      rw [h.buildsIn_eq id]
      rcases h.buildsIn_buildsNamed id with hzero | ⟨hone, bs, b, t, name, hbs, hb, at_, hnames⟩
      · rw [hzero]
        exact ⟨by omega, fun _ => by omega⟩
      · rw [hone]
        exact ⟨by omega, fun hnone => absurd hnames (hnone bs b t name hbs hb at_)⟩
  · intro restarted t
    have flag := restarted.flag fresh.inv reached
    constructor
    · obtain ⟨ls, s', alone, hrun, hgets⟩ :=
        exists_gets (restarted.idle t) (holder_of_idle fresh reached restarted.idle)
      have hlist : (s.catalog.factories (discoverFactories s.plugins s.settings)).value.1 =
          (discoverFactories s.plugins s.settings).value := by
        rw [factories, flag]
        rfl
      exact ⟨ls, s', alone, hrun, hlist ▸ hgets⟩
    · intro ls s' list alone hrun hgets
      exact list_of_alone inv restarted.idle flag hrun alone hgets

/-- The first list after a reset, where one plug-in is registered and nobody else calls. -/
theorem names_after_first_reset :
    ∃ past s, Run Step (rested oneFactory (.memory [])) past s ∧ s.IsRestarted past ∧
      (∃ ls s' list, Run Step s ls s' ∧ Gets ls 1 list) ∧
      ∀ ls s' list, Alone 1 ls → Run Step s ls s' → Gets ls 1 list →
        list.map Descriptor.name = ["xml"] := by
  have fresh := isFresh_rested oneFactory (.memory [])
  obtain ⟨past, s, hrun, hrestarted, hplugins, hsettings⟩ :=
    exists_isRestarted (s := rested oneFactory (.memory []))
      (fun t stage hstage => by cases hstage) rfl 0
  obtain ⟨⟨ls, s', -, hls, hgets⟩, hall⟩ :=
    (discovered_once_per_generation fresh hrun).2.2 hrestarted 1
  refine ⟨past, s, hrun, hrestarted, ⟨ls, s', _, hls, hgets⟩, fun ls s' list alone hls hgets => ?_⟩
  rw [hall ls s' list alone hls hgets, hplugins, hsettings]
  decide

end System

end LogSetup.Catalog
