import LogSetup.Proofs.Threads.Runs
import LogSetup.Startup.Interrupts
import Mathlib.Logic.Function.Basic

/-!
# Work that is done once

Work that must not be done twice is done under a lock. A thread that has taken the lock looks
whether the work is done. If it is not, the thread does it, and tells that it is done before it
releases the lock. Threads that find the work done need no lock. Undoing the work takes the same lock.

The lock may be held for other purposes too, and may be taken again by its holder.

## Main definitions

- `Phase` : how far a thread is
- `OneTime`, `OneTime.Step` : the state of the work, and what steps may do to it
- `OneTime.Inv` : only the holder of the lock is at work, and its phase agrees with what is told
- `OneTime.Spent` : from now on a step of the work may not be taken until the work is undone

## Main statements

- `OneTime.Inv.of_step` : the invariant is kept
- `OneTime.count_worked_le_one` : no step of the work is taken twice unless the work is undone
- `OneTime.count_published_le_one` : nor is it told twice that the work is done
-/

namespace LogSetup

/-- How far a thread is with one-time work. -/
inductive Phase where
  /-- Not at work. -/
  | away
  /-- About to look whether the work is done. -/
  | checking
  /-- Doing the work, of which so many steps are left. -/
  | working (left : Nat)
  /-- It is told that the work is done. -/
  | finished
  /-- About to tell that the work is not done. -/
  | undoing
  /-- It is told that the work is not done. -/
  | undone
  deriving DecidableEq

/-- Whether a phase agrees with what is told about the work. -/
def Phase.Agrees : Phase → Bool → Prop
  | .working _, isDone => isDone = false
  | .finished, isDone => isDone = true
  | .undone, isDone => isDone = false
  | _, _ => True

/-- The state of one-time work. -/
structure OneTime where
  /-- The thread that holds the lock. -/
  holder : Option ThreadId
  /-- Whether it is told that the work is done. -/
  isDone : Bool
  phase : ThreadId → Phase

namespace OneTime

/-- What a step does for the work. -/
inductive Act where
  /-- A step of the work, after which so many are left. -/
  | worked (left : Nat)
  /-- It is told that the work is done. -/
  | published
  /-- It is told that the work is not done. -/
  | undone
  | other
  deriving DecidableEq

/-- The steps that threads may take. -/
inductive Step : OneTime → Act → OneTime → Prop
  | stay (w : OneTime) : Step w .other w
  /-- A thread that is not at work takes or releases the lock. -/
  | hand {w : OneTime} {t : ThreadId} (holder : Option ThreadId)
      (free : w.holder = none ∨ w.holder = some t) (ht : w.phase t = .away) :
      Step w .other { w with holder }
  | enter {w : OneTime} {t : ThreadId} {p : Phase} (free : w.holder = none ∨ w.holder = some t)
      (ht : w.phase t = .away) (hp : p = .checking ∨ p = .undoing) :
      Step w .other ⟨some t, w.isDone, Function.update w.phase t p⟩
  | skip {w : OneTime} {t : ThreadId} (ht : w.phase t = .checking) (done : w.isDone = true) :
      Step w .other { w with phase := Function.update w.phase t .finished }
  | start {w : OneTime} {t : ThreadId} (left : Nat) (ht : w.phase t = .checking)
      (done : w.isDone = false) :
      Step w .other { w with phase := Function.update w.phase t (.working left) }
  | work {w : OneTime} {t : ThreadId} {left : Nat} (ht : w.phase t = .working (left + 1)) :
      Step w (.worked left) { w with phase := Function.update w.phase t (.working left) }
  | publish {w : OneTime} {t : ThreadId} (ht : w.phase t = .working 0) :
      Step w .published ⟨w.holder, true, Function.update w.phase t .finished⟩
  | retract {w : OneTime} {t : ThreadId} (ht : w.phase t = .undoing) :
      Step w .undone ⟨w.holder, false, Function.update w.phase t .undone⟩
  /-- A thread gives up a hold of the lock; whether that frees the lock does not matter. -/
  | leave {w : OneTime} {t : ThreadId} (holder : Option ThreadId)
      (ht : w.phase t = .finished ∨ w.phase t = .undone) :
      Step w .other ⟨holder, w.isDone, Function.update w.phase t .away⟩

/-- Only the holder of the lock is at work, and its phase agrees with what is told. -/
structure Inv (w : OneTime) : Prop where
  held : ∀ t, w.phase t ≠ .away → w.holder = some t
  agrees : ∀ t, (w.phase t).Agrees w.isDone

variable {w w' : OneTime} {act : Act} {acts : List Act} {t u : ThreadId} {n : Nat}

theorem Step.same {p : Phase} (ht : w.phase t = p) :
    Step w .other { w with phase := Function.update w.phase t p } := by
  rw [← ht, Function.update_eq_self]
  exact .stay w

theorem inv_of_forall_away (h : ∀ t, w.phase t = .away) : w.Inv := by
  constructor
  · intro t ht
    exact absurd (h t) ht
  · intro t
    rw [h t]
    trivial

namespace Inv

theorem unique (h : w.Inv) (ht : w.phase t ≠ .away) (hu : w.phase u ≠ .away) : t = u :=
  Option.some.inj ((h.held t ht).symm.trans (h.held u hu))

/-- While a thread has the lock or may take it, no other thread is at work. -/
theorem away_of_free (h : w.Inv) (free : w.holder = none ∨ w.holder = some t) (hu : u ≠ t) :
    w.phase u = .away := by
  by_contra hat
  have hheld := h.held u hat
  rcases free with hnone | hsome
  · rw [hnone] at hheld
    cases hheld
  · rw [hsome] at hheld
    exact hu (Option.some.inj hheld).symm

theorem away_of_ne (h : w.Inv) (ht : w.phase t ≠ .away) (hu : u ≠ t) : w.phase u = .away :=
  h.away_of_free (.inr (h.held t ht)) hu

theorem update {p : Phase} {isDone : Bool} (others : ∀ u, u ≠ t → w.phase u = .away)
    (hp : p.Agrees isDone) : Inv ⟨some t, isDone, Function.update w.phase t p⟩ := by
  constructor
  · intro u hu
    by_cases hut : u = t
    · rw [hut]
    · simp only [Function.update_of_ne hut] at hu
      exact absurd (others u hut) hu
  · intro u
    by_cases hut : u = t
    · subst hut
      simpa only [Function.update_self] using hp
    · simp only [Function.update_of_ne hut, others u hut]
      trivial

theorem advance {p : Phase} {isDone : Bool} (h : w.Inv) (ht : w.phase t ≠ .away)
    (hp : p.Agrees isDone) : Inv ⟨w.holder, isDone, Function.update w.phase t p⟩ := by
  rw [h.held t ht]
  exact update (fun u hu => h.away_of_ne ht hu) hp

theorem of_step (h : w.Inv) (hstep : Step w act w') : w'.Inv := by
  -- the thread that takes the step has the lock or takes it, so all others are away
  cases hstep with
  | stay => exact h
  | @hand t holder free ht =>
    refine inv_of_forall_away fun u => ?_
    by_cases hut : u = t
    · rw [hut]
      exact ht
    · exact h.away_of_free free hut
  | enter free _ hp =>
    refine update (fun u hu => h.away_of_free free hu) ?_
    rcases hp with rfl | rfl <;> trivial
  | skip ht done => exact h.advance (by simp [ht]) done
  | start left ht done => exact h.advance (by simp [ht]) done
  | @work t left ht =>
    have hdone : w.isDone = false := by simpa [ht, Phase.Agrees] using h.agrees t
    exact h.advance (by simp [ht]) hdone
  | publish ht => exact h.advance (by simp [ht]) rfl
  | retract ht => exact h.advance (by simp [ht]) rfl
  | @leave t holder ht =>
    have hat : w.phase t ≠ .away := by rcases ht with ht | ht <;> simp [ht]
    refine inv_of_forall_away fun u => ?_
    by_cases hut : u = t
    · rw [hut]
      exact Function.update_self ..
    · exact (Function.update_of_ne hut ..).trans (h.away_of_ne hat hut)

theorem of_run (h : w.Inv) (hrun : Run Step w acts w') : w'.Inv :=
  hrun.preserves h fun _ _ _ _ hstep ha => ha.of_step hstep

end Inv

/-- What is told stays told until the work is undone. -/
theorem isDone_of_step (hstep : Step w act w') (hact : act ≠ .undone) (done : w.isDone = true) :
    w'.isDone = true := by
  cases hstep with
  | retract => exact absurd rfl hact
  | publish => rfl
  | stay | hand | enter | skip | start | work | leave => exact done

/-! ### Each step of the work is taken once -/

/-- The step of the work after which `n` are left has been taken, and the work was not undone
since. -/
def Spent (w : OneTime) (n : Nat) : Prop :=
  w.isDone = true ∨ ∃ t left, w.phase t = .working left ∧ left ≤ n

theorem spent_of_worked (hstep : Step w (.worked n) w') : w'.Spent n := by
  cases hstep with
  | @work t _ ht => exact .inr ⟨t, n, Function.update_self .., Nat.le_refl n⟩

theorem Spent.not_worked (h : w.Inv) (hspent : w.Spent n) : ¬ Step w (.worked n) w' := by
  intro hstep
  cases hstep with
  | @work t _ ht =>
    have hdone : w.isDone = false := by simpa [ht, Phase.Agrees] using h.agrees t
    rcases hspent with done | ⟨u, left, hu, hleft⟩
    · rw [hdone] at done
      cases done
    · -- the thread that took the step is the one that is about to take it
      have htu : t = u := h.unique (by simp [ht]) (by simp [hu])
      rw [htu, hu] at ht
      cases ht
      omega

theorem spent_of_update {p : Phase} {holder : Option ThreadId} (hspent : w.Spent n)
    (ht : ∀ left, w.phase t ≠ .working left) :
    Spent ⟨holder, w.isDone, Function.update w.phase t p⟩ n := by
  rcases hspent with done | ⟨u, left, hu, hleft⟩
  · exact .inl done
  · have hut : u ≠ t := fun heq => ht left (heq ▸ hu)
    exact .inr ⟨u, left, (Function.update_of_ne hut ..).trans hu, hleft⟩

theorem Spent.of_step (hspent : w.Spent n) (hstep : Step w act w') (hact : act ≠ .undone) :
    w'.Spent n := by
  cases hstep with
  | stay => exact hspent
  | hand => exact hspent
  | enter _ ht => exact spent_of_update hspent (by simp [ht])
  | skip ht => exact spent_of_update hspent (by simp [ht])
  | start _ ht => exact spent_of_update hspent (by simp [ht])
  | @work t k ht =>
    rcases hspent with done | ⟨u, left, hu, hleft⟩
    · exact .inl done
    · by_cases hut : u = t
      · rw [hut, ht] at hu
        cases hu
        exact .inr ⟨t, k, Function.update_self .., by omega⟩
      · exact .inr ⟨u, left, (Function.update_of_ne hut ..).trans hu, hleft⟩
  | publish => exact .inl rfl
  | retract => exact absurd rfl hact
  | leave _ ht => exact spent_of_update hspent (by rcases ht with ht | ht <;> simp [ht])

/-- A step that is possible only before something holds, which then holds until the work is undone,
is not taken twice unless the work is undone. -/
theorem count_le_one {P : OneTime → Prop} (h : w.Inv) (hrun : Run Step w acts w')
    (hacts : .undone ∉ acts) (once : ∀ a b, a.Inv → Step a act b → ¬ P a ∧ P b)
    (kept : ∀ a b next, P a → Step a next b → next ≠ .undone → P b) : acts.count act ≤ 1 := by
  -- once the step is taken, what it brings about keeps it from being taken again
  suffices acts.count act = 0 ∨ acts.count act = 1 ∧ P w' by
    rcases this with h | ⟨h, -⟩ <;> omega
  induction hrun with
  | nil => exact .inl rfl
  | @snoc acts last a b hrun hstep ih =>
    have hlast : last ≠ .undone := fun heq => hacts (by simp [heq])
    have hfront := ih fun hmem => hacts (List.mem_append_left _ hmem)
    rw [List.count_append, List.count_singleton]
    by_cases hact : last = act
    · subst hact
      obtain ⟨hbefore, hafter⟩ := once a b (h.of_run hrun) hstep
      rcases hfront with hzero | ⟨-, hp⟩
      · exact .inr ⟨by simp [hzero], hafter⟩
      · exact absurd hp hbefore
    · rcases hfront with hzero | ⟨hone, hp⟩
      · exact .inl (by simp [hzero, hact])
      · exact .inr ⟨by simp [hone, hact], kept a b last hp hstep hlast⟩

/-- No step of the work is taken twice unless the work is undone. -/
theorem count_worked_le_one (h : w.Inv) (hrun : Run Step w acts w') (hacts : .undone ∉ acts) :
    acts.count (.worked n) ≤ 1 :=
  count_le_one (P := fun a => a.Spent n) h hrun hacts
    (fun _ _ ha hstep => ⟨fun hspent => hspent.not_worked ha hstep, spent_of_worked hstep⟩)
    fun _ _ _ hspent hstep hnext => hspent.of_step hstep hnext

/-- It is not told twice that the work is done unless the work is undone. -/
theorem count_published_le_one (h : w.Inv) (hrun : Run Step w acts w') (hacts : .undone ∉ acts) :
    acts.count .published ≤ 1 := by
  refine count_le_one (P := fun a => a.isDone = true) h hrun hacts (fun a b ha hstep => ?_)
    fun _ _ _ done hstep hnext => isDone_of_step hstep hnext done
  cases hstep with
  | @publish t ht =>
    have hdone : a.isDone = false := by simpa [ht, Phase.Agrees] using ha.agrees t
    exact ⟨by simp [hdone], rfl⟩

end OneTime

end LogSetup
