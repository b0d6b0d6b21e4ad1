import LogSetup.Startup.Lock

/-!
# Holds of the start-up lock

## Main definitions

- `StartupLock.holdsOf` : how often a thread holds the lock
- `StartupLock.IsSound` : a lock with an owner is held

## Main statements

- `StartupLock.holdsOf_claim`, `StartupLock.holdsOf_release` : taking and releasing count one hold
-/

namespace LogSetup.StartupLock

variable {l l' : StartupLock} {t u : ThreadId} {raised : Bool}

/-- How often a thread holds the lock. -/
def holdsOf (l : StartupLock) (t : ThreadId) : Nat := if l.owner = some t then l.holds else 0

/-- A lock with an owner is held at least once. -/
def IsSound (l : StartupLock) : Prop := ∀ t, l.owner = some t → 0 < l.holds

theorem owner_of_holdsOf_pos (h : 0 < l.holdsOf t) : l.owner = some t := by
  rw [holdsOf] at h
  split at h
  · assumption
  · exact absurd h (Nat.lt_irrefl 0)

theorem isSound_free : free.IsSound := fun _ h => by cases h

theorem claim?_eq_some_iff :
    l.claim? t = some l' ↔ l.owner = none ∧ l' = ⟨some t, 1⟩ ∨
      l.owner = some t ∧ l' = ⟨some t, l.holds + 1⟩ := by
  obtain ⟨owner, holds⟩ := l
  cases owner with
  | none => simp [claim?, eq_comm]
  | some u =>
    by_cases hut : u = t
    · simp [claim?, hut, eq_comm]
    · simp [claim?, hut]

theorem owner_claim (h : l.claim? t = some l') : l'.owner = some t := by
  rcases claim?_eq_some_iff.mp h with ⟨-, rfl⟩ | ⟨-, rfl⟩ <;> rfl

theorem isSound_claim (h : l.claim? t = some l') : l'.IsSound := by
  rcases claim?_eq_some_iff.mp h with ⟨-, rfl⟩ | ⟨-, rfl⟩
  · exact fun _ _ => Nat.zero_lt_one
  · exact fun _ _ => Nat.succ_pos _

theorem free_of_claim (h : l.claim? t = some l') : l.owner = none ∨ l.owner = some t :=
  (claim?_eq_some_iff.mp h).imp And.left And.left

/-- Taking the lock is one more hold of the thread. -/
theorem holdsOf_claim (h : l.claim? t = some l') (u : ThreadId) :
    l'.holdsOf u = l.holdsOf u + if u = t then 1 else 0 := by
  rcases claim?_eq_some_iff.mp h with ⟨howner, rfl⟩ | ⟨howner, rfl⟩
  · by_cases hut : u = t
    · simp [holdsOf, howner, hut]
    · simp [holdsOf, howner, hut, Ne.symm hut]
  · by_cases hut : u = t
    · simp [holdsOf, howner, hut]
    · simp [holdsOf, howner, hut, Ne.symm hut]

/-- Releasing the lock is one hold of its owner less. -/
theorem holdsOf_release (h : l.owner = some t) (u : ThreadId) :
    l.release.holdsOf u = l.holdsOf u - if u = t then 1 else 0 := by
  -- with the last hold the lock loses its owner, and then nobody holds it
  by_cases hlast : l.holds - 1 = 0
  · by_cases hut : u = t
    · simp [release, holdsOf, h, hut, hlast]
    · simp [release, holdsOf, h, hlast, Ne.symm hut]
  · by_cases hut : u = t
    · simp [release, holdsOf, h, hut, hlast]
    · simp [release, holdsOf, h, hlast, Ne.symm hut]

theorem isSound_release (l : StartupLock) : l.release.IsSound := by
  intro t ht
  rw [release] at ht ⊢
  split at ht
  · cases ht
  · have hpos : 0 < l.holds - 1 := Nat.pos_of_ne_zero ‹_›
    simpa [‹¬ l.holds - 1 = 0›] using hpos

theorem claim_of_attempt (h : l.attempt t raised = .taken l') : l.claim? t = some l' := by
  rw [attempt] at h
  split at h
  · cases h
  · split at h
    · cases h
      assumption
    · cases h

end LogSetup.StartupLock
