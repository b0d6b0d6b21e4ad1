import LogSetup.Proofs.Loader.Scopes
import LogSetup.World.Basic

/-!
# The loading context that a thread finds

Threads enter loading contexts and drop the scopes. What a thread finds depends on its own scopes
alone: the context in effect, or the one of the process when all scopes are dropped. When a scope is
dropped before a later one, the context in effect is no longer that of the latest scope.

## Main definitions

- `World.ScopeStep` : some thread enters a context or drops a scope
- `World.ownSteps` : what a thread did itself
- `World.FollowsScopes` : the context in effect is that of the latest scope, at every moment

## Main statements

- `World.run_ownSteps` : a thread is not affected by the scopes of others
- `World.findContext_of_scopes` : which context a thread finds
- `World.not_forall_current_eq_latest` : one that is not the context of the latest scope
-/

namespace LogSetup.World

open ContextScopes hiding none

/-- A thread enters a context, or drops a scope that it has not dropped. -/
inductive ScopeStep : World → ThreadId × Label → World → Prop
  | enter (w : World) (t : ThreadId) (c : LoadingContext) :
      ScopeStep w (t, .entered (w.scopes t).made c) (w.enter t c)
  | drop {w : World} {t : ThreadId} {scope : Nat} (live : scope ∈ (w.scopes t).live) :
      ScopeStep w (t, .dropped scope) (w.dropScope t scope)

/-- What a thread did itself. -/
def ownSteps (t : ThreadId) (ls : List (ThreadId × Label)) : List Label :=
  ls.filterMap fun l => if l.1 = t then some l.2 else none

variable {w w' : World} {t : ThreadId} {l : ThreadId × Label} {ls : List (ThreadId × Label)}

theorem ownSteps_snoc_self {own : Label} :
    ownSteps t (ls ++ [(t, own)]) = ownSteps t ls ++ [own] := by
  rw [ownSteps, List.filterMap_append]
  simp [ownSteps]

theorem ownSteps_snoc_of_ne (h : l.1 ≠ t) : ownSteps t (ls ++ [l]) = ownSteps t ls := by
  rw [ownSteps, List.filterMap_append]
  simp [ownSteps, h]

/-- A step is one of the thread itself, or leaves its scopes. -/
theorem scopes_of_step (h : ScopeStep w l w') (t : ThreadId) :
    (∃ own, l = (t, own) ∧ ContextScopes.Step (w.scopes t) own (w'.scopes t)) ∨
      l.1 ≠ t ∧ w'.scopes t = w.scopes t := by
  cases h with
  | enter u c =>
    by_cases hut : t = u
    · subst hut
      have hstep : (w.enter t c).scopes t = (w.scopes t).enter c := if_pos rfl
      exact .inl ⟨_, rfl, hstep ▸ .enter (w.scopes t) c⟩
    · exact .inr ⟨fun heq => hut heq.symm, if_neg hut⟩
  | @drop u scope live =>
    by_cases hut : t = u
    · subst hut
      have hstep : (w.dropScope t scope).scopes t = (w.scopes t).drop scope := if_pos rfl
      exact .inl ⟨_, rfl, hstep ▸ .drop live⟩
    · exact .inr ⟨fun heq => hut heq.symm, if_neg hut⟩

theorem run_ownSteps (h : Run ScopeStep w ls w') (t : ThreadId) :
    Run ContextScopes.Step (w.scopes t) (ownSteps t ls) (w'.scopes t) := by
  induction h with
  | nil => exact .nil
  | @snoc ls l a b _ hstep ih =>
    rcases scopes_of_step hstep t with ⟨own, rfl, hown⟩ | ⟨hne, hscopes⟩
    · rw [ownSteps_snoc_self]
      exact ih.snoc hown
    · rw [ownSteps_snoc_of_ne hne, hscopes]
      exact ih

theorem eq_of_run (h : Run ScopeStep w ls w') : w' = { w with scopes := w'.scopes } := by
  induction h with
  | nil => rfl
  | @snoc ls l a b _ hstep ih =>
    cases hstep <;> rw [ih] <;> rfl

/-- The context in effect is that of the latest scope, at every moment. -/
def FollowsScopes (w : World) (t : ThreadId) (ls : List (ThreadId × Label)) : Prop :=
  ∀ as a, as <+: ls → Run ScopeStep w as a → a.currentContext t = latest (ownSteps t as)

theorem followsScopes_of_isNested (fresh : w.scopes t = .none) (nested : IsNested (ownSteps t ls)) :
    w.FollowsScopes t ls := by
  intro as a hfront hrun
  have hown := run_ownSteps hrun t
  rw [fresh] at hown
  exact current_of_isNested hown (nested.mono (hfront.filterMap _))

/-- Where no context is entered twice, the context of the latest scope can be found at every moment
only if the latest scope is dropped first. -/
theorem isNested_of_followsScopes (fresh : w.scopes t = .none) (h : Run ScopeStep w ls w')
    (distinct : ((entries (ownSteps t ls)).map Prod.snd).Nodup) (follows : w.FollowsScopes t ls) :
    IsNested (ownSteps t ls) := by
  induction h with
  | nil =>
    intro as n hfront
    simp [ownSteps] at hfront
  | @snoc ls l a b hrun hstep ih =>
    have hfollows : w.FollowsScopes t ls := fun as a hfront =>
      follows as a (hfront.trans (List.prefix_append ..))
    have hown := run_ownSteps hrun t
    rw [fresh] at hown
    rcases scopes_of_step hstep t with ⟨own, rfl, hownStep⟩ | ⟨hne, -⟩
    · have hcurrent := follows _ b List.prefix_rfl (hrun.snoc hstep)
      rw [ownSteps_snoc_self] at distinct hcurrent ⊢
      have hnested := ih (distinct.sublist
        (((List.sublist_append_left _ _).filterMap _).map _)) hfollows
      refine isNested_snoc hnested fun n hn => ?_
      subst hn
      exact head_of_current_eq_latest hown hnested
        (distinct.sublist ((List.sublist_append_left _ _).filterMap _ |>.map _)) hownStep hcurrent
    · rw [ownSteps_snoc_of_ne hne] at distinct ⊢
      exact ih distinct hfollows

/-- Which context a thread finds, after any threads have entered contexts and dropped scopes. It is
the one in effect for the thread, or the one of the process when there is none, which is so just if
all scopes of the thread are dropped. The context in effect is the one that was entered when the
thread had fewer scopes than now, and since when it never had fewer than now. That is the context of
the latest scope if the latest scope is always dropped first; and where no context is entered twice,
it is that at every moment only if the latest scope is always dropped first. All else is as it was. -/
theorem findContext_of_scopes (fresh : w.scopes t = .none) (h : Run ScopeStep w ls w') :
    w' = { w with scopes := w'.scopes } ∧
    w'.findContext t = (w'.currentContext t).getD w.context ∧
    (w'.currentContext t = none ↔ undropped (ownSteps t ls) = []) ∧
    (undropped (ownSteps t ls) ≠ [] → ∃ as n c bs, ownSteps t ls = as ++ .entered n c :: bs ∧
      w'.currentContext t = some c ∧ (undropped as).length + 1 = (undropped (ownSteps t ls)).length ∧
      ∀ cs, cs <+: bs →
        (undropped (ownSteps t ls)).length ≤ (undropped (as ++ .entered n c :: cs)).length) ∧
    (IsNested (ownSteps t ls) → w.FollowsScopes t ls) ∧
    (((entries (ownSteps t ls)).map Prod.snd).Nodup → w.FollowsScopes t ls →
      IsNested (ownSteps t ls)) := by
  have hown : Run ContextScopes.Step .none (ownSteps t ls) (w'.scopes t) := fresh ▸ run_ownSteps h t
  have hrecorded : Recorded (w'.scopes t) (ownSteps t ls) := recorded_of_run hown
  refine ⟨eq_of_run h, ?_, hrecorded.current_eq_none_iff, fun hsome => ?_,
    followsScopes_of_isNested fresh, isNested_of_followsScopes fresh h⟩
  · have hcontext : w'.context = w.context := by rw [eq_of_run h]
    rw [findContext, hcontext]
  · have hpos : 0 < (undropped (ownSteps t ls)).length := List.length_pos_iff.mpr hsome
    have hstack := hrecorded.stack
    obtain ⟨as, n, c, bs, hls, hc, hdepth, hbs⟩ :=
      exists_entered hown (k := (w'.scopes t).stack.length - 1) (by omega)
    refine ⟨as, n, c, bs, hls, ?_, by omega, fun cs hcs => ?_⟩
    · have htop : (w'.scopes t).stack.reverse[(w'.scopes t).stack.length - 1]? =
          (w'.scopes t).stack.head? := by
        rw [← List.length_reverse, ← List.getLast?_eq_getElem?, List.getLast?_reverse]
      rw [currentContext, current, ← htop, hc]
    · have hdeeper := hbs cs hcs
      omega

def bare : World :=
  { disk := .empty []
    stores := []
    settings := .memory []
    plugins := .empty
    catalog := .initial
    active := none
    context := ⟨"main", 0⟩
    manifestName := ""
    registry := .initial
    scopes := fun _ => .none }

/-- The scope of the outer context is dropped before that of the inner one. -/
def outerFirst : List (ThreadId × Label) :=
  [(0, .entered 0 ⟨"outer", 1⟩), (0, .entered 1 ⟨"inner", 2⟩), (0, .dropped 0)]

theorem run_outerFirst : ∃ w', Run ScopeStep bare outerFirst w' ∧
    w'.currentContext 0 = some ⟨"outer", 1⟩ := by
  have houter := Run.single (ScopeStep.enter bare 0 ⟨"outer", 1⟩)
  have hinner := houter.snoc (.enter _ 0 ⟨"inner", 2⟩)
  have hlive : 0 ∈ (((bare.enter 0 ⟨"outer", 1⟩).enter 0 ⟨"inner", 2⟩).scopes 0).live := by decide
  exact ⟨_, hinner.snoc (.drop hlive), rfl⟩

/-- The context in effect need not be that of the latest scope. -/
theorem not_forall_current_eq_latest :
    ¬ ∀ w t ls w', w.scopes t = .none → Run ScopeStep w ls w' →
      w'.currentContext t = latest (ownSteps t ls) := by
  intro hall
  obtain ⟨w', hrun, hcurrent⟩ := run_outerFirst
  have hlatest : latest (ownSteps 0 outerFirst) = some ⟨"inner", 2⟩ := by decide
  have houter := hall bare 0 outerFirst w' rfl hrun
  rw [hcurrent, hlatest] at houter
  revert houter
  decide

/-- The thread finds the outer context although its scope is dropped. -/
theorem outer_context_is_found :
    ∃ w', Run ScopeStep bare outerFirst w' ∧ w'.findContext 0 = ⟨"outer", 1⟩ ∧
      ¬ bare.FollowsScopes 0 outerFirst := by
  obtain ⟨w', hrun, hcurrent⟩ := run_outerFirst
  obtain ⟨-, hfind, -, -, -, hnested⟩ := findContext_of_scopes (t := 0) rfl hrun
  have hdistinct : ((entries (ownSteps 0 outerFirst)).map Prod.snd).Nodup := by decide
  refine ⟨w', hrun, ?_, fun hfollows => ?_⟩
  · rw [hfind, hcurrent]
    rfl
  · have hhead := hnested hdistinct hfollows
      [.entered 0 ⟨"outer", 1⟩, .entered 1 ⟨"inner", 2⟩] 0 List.prefix_rfl
    revert hhead
    decide

end LogSetup.World
