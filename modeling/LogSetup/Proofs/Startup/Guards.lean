import LogSetup.Proofs.Startup.Lock
import LogSetup.Proofs.Threads.Runs
import Mathlib.Data.List.Nodup
import Mathlib.Logic.Function.Basic

/-!
# Guards of the start-up lock

Any number of threads ask for the lock, each in one of three ways, and drop the guards that they got,
in any order. Who holds the lock, and how often, is kept under a mutex of its own: every attempt to
take the lock and every release is one step. A thread that waits attempts again and again.

## Main definitions

- `GuardedLock.IsKept` : a lock that is held by its live guards, once for each
- `GuardedLock.Demand`, `GuardedLock.Outcome` : how a thread asks, and how an attempt ends
- `GuardedLock.System`, `GuardedLock.System.Step` : the threads, and their steps
- `GuardedLock.IsLive` : a guard that was acquired and not dropped in a history

## Main statements

- `GuardedLock.IsKept.take`, `GuardedLock.IsKept.drop` : a guard more, and a guard less
- `GuardedLock.System.Recorded.of_step` : the guards that the lock counts are the live ones
- `GuardedLock.System.live_guards_hold_lock` : who holds the lock at any moment, and how often
-/

namespace LogSetup.GuardedLock

/-! ### Guards and holds -/

/-- The lock is held by the live guards: they belong to its owner, there is no owner without a guard,
each guard has a number of its own and is counted once. -/
structure IsKept (g : GuardedLock) : Prop where
  owner : ∀ h ∈ g.guards, g.lock.owner = some h.2
  free : g.guards = [] → g.lock.owner = none
  count : g.lock.holds = g.guards.length
  distinct : (g.guards.map Prod.fst).Nodup

variable {g g' : GuardedLock} {n m : Nat} {t u : ThreadId}

theorem isKept_free : free.IsKept := by
  refine ⟨fun h hh => ?_, fun _ => rfl, rfl, List.nodup_nil⟩
  exact absurd hh List.not_mem_nil

theorem take?_eq_some_iff : g.take? n t = some g' ↔
    ∃ lock, g.lock.claim? t = some lock ∧ ⟨lock, (n, t) :: g.guards⟩ = g' := by
  rw [take?, Option.map_eq_some_iff]

theorem guards_take (h : g.take? n t = some g') : g'.guards = (n, t) :: g.guards := by
  obtain ⟨lock, -, rfl⟩ := take?_eq_some_iff.mp h
  rfl

theorem drop_eq (hlive : (n, t) ∈ g.guards) :
    g.drop n = ⟨g.lock.release, g.guards.filter fun guard => guard.1 != n⟩ := by
  have hany : (g.guards.any fun guard => guard.1 == n) = true :=
    List.any_eq_true.mpr ⟨_, hlive, by simp⟩
  rw [GuardedLock.drop, if_pos hany]

theorem mem_drop (hlive : (n, t) ∈ g.guards) :
    (m, u) ∈ (g.drop n).guards ↔ (m, u) ∈ g.guards ∧ m ≠ n := by
  rw [drop_eq hlive, List.mem_filter]
  simp

namespace IsKept

theorem guards_eq_nil (h : g.IsKept) (hfree : g.lock.owner = none) : g.guards = [] := by
  apply List.eq_nil_iff_forall_not_mem.mpr
  intro guard hguard
  have howner := h.owner guard hguard
  rw [hfree] at howner
  cases howner

theorem eq_of_mem (h : g.IsKept) (ht : (n, t) ∈ g.guards) (hu : (n, u) ∈ g.guards) : t = u := by
  have ht' := h.owner _ ht
  have hu' := h.owner _ hu
  rw [ht'] at hu'
  exact Option.some.inj hu'

/-- Taking the lock is one guard more. -/
theorem take (h : g.IsKept) (htake : g.take? n t = some g') (hnew : n ∉ g.guards.map Prod.fst) :
    g'.IsKept := by
  obtain ⟨lock, hclaim, rfl⟩ := take?_eq_some_iff.mp htake
  have hdistinct : (((n, t) :: g.guards).map Prod.fst).Nodup := List.nodup_cons.mpr ⟨hnew, h.distinct⟩
  rcases StartupLock.claim?_eq_some_iff.mp hclaim with ⟨hfree, rfl⟩ | ⟨howner, rfl⟩
  · rw [h.guards_eq_nil hfree] at hdistinct ⊢
    refine ⟨fun guard hguard => ?_, fun hnil => ?_, rfl, hdistinct⟩
    · rw [List.mem_singleton.mp hguard]
    · cases hnil
  · refine ⟨fun guard hguard => ?_, fun hnil => ?_, ?_, hdistinct⟩
    · rcases List.mem_cons.mp hguard with rfl | hguard
      · rfl
      · rw [← h.owner guard hguard, howner]
    · cases hnil
    · show g.lock.holds + 1 = g.guards.length + 1
      rw [h.count]

/-- As the numbers are distinct, dropping a guard drops no other. -/
theorem length_filter (h : g.IsKept) (hlive : (n, t) ∈ g.guards) :
    (g.guards.filter fun guard => guard.1 != n).length + 1 = g.guards.length := by
  have hone : g.guards.countP (fun guard => guard.1 == n) = 1 := by
    have hmem : n ∈ g.guards.map Prod.fst := List.mem_map.mpr ⟨_, hlive, rfl⟩
    have hcount := List.count_eq_one_of_mem h.distinct hmem
    rw [List.count, List.countP_map] at hcount
    exact hcount
  have hsplit := List.length_eq_countP_add_countP (fun guard => guard.1 == n) (l := g.guards)
  rw [hone] at hsplit
  rw [← List.countP_eq_length_filter, hsplit, Nat.add_comm]
  congr 1
  apply List.countP_congr
  intro guard _
  simp

/-- A release is one hold less; there is always one to give up. -/
theorem holds_drop (h : g.IsKept) (hlive : (n, t) ∈ g.guards) :
    (g.drop n).lock.holds + 1 = g.lock.holds := by
  have hlength := h.length_filter hlive
  rw [drop_eq hlive, StartupLock.release, h.count]
  split <;> simp only <;> omega

/-- Dropping a guard leaves the lock to the others, if there are any. -/
theorem drop (h : g.IsKept) (hlive : (n, t) ∈ g.guards) : (g.drop n).IsKept := by
  have hlength := h.length_filter hlive
  have hholds := h.holds_drop hlive
  have hcount := h.count
  rw [drop_eq hlive] at hholds ⊢
  have howner : g.lock.release.owner = if g.lock.holds - 1 = 0 then none else g.lock.owner := by
    rw [StartupLock.release]
    split <;> rfl
  refine ⟨fun guard hguard => ?_, fun hnil => ?_, ?_, ?_⟩
  · simp only at hguard ⊢
    have hpos := List.length_pos_of_mem hguard
    rw [howner, if_neg (by omega)]
    exact h.owner guard (List.mem_filter.mp hguard).1
  · simp only at hnil ⊢
    rw [hnil, List.length_nil] at hlength
    rw [howner, if_pos (by omega)]
  · simp only at hholds ⊢
    omega
  · exact h.distinct.sublist (List.filter_sublist.map _)

end IsKept

/-! ### Threads -/

/-- How a thread asks for the lock. -/
inductive Demand where
  /-- It waits until it gets the lock. -/
  | lock
  /-- It takes the lock or does without. -/
  | tryLock
  /-- It waits until it gets the lock or is interrupted. -/
  | lockInterruptibly
  deriving DecidableEq, Repr

/-- How an attempt to take the lock ends. -/
inductive Outcome where
  | acquired (guard : Nat)
  | refused
  | interrupted
  | waiting
  deriving DecidableEq, Repr

/-- The lock, and the threads that ask for it. -/
structure System where
  held : GuardedLock
  interrupts : Interrupts
  /-- What a thread that is in a call asks for. -/
  demand : ThreadId → Option Demand
  /-- The number of the next guard. -/
  next : Nat

/-- What a step did. -/
inductive Label where
  | asked (t : ThreadId) (d : Demand)
  | tried (t : ThreadId) (d : Demand) (o : Outcome)
  | dropped (t : ThreadId) (guard : Nat)
  /-- The flag of a thread was set. -/
  | interrupted (t : ThreadId)
  /-- A thread cleared its own flag. -/
  | calmed (t : ThreadId)

/-- A thread acquired a guard and has not dropped it. -/
def IsLive (ls : List Label) (n : Nat) (t : ThreadId) : Prop :=
  (∃ d, .tried t d (.acquired n) ∈ ls) ∧ .dropped t n ∉ ls

namespace System

/-- A thread takes the lock for a guard of its own, unless another one holds the lock. -/
def take (s : System) (t : ThreadId) (otherwise : Outcome) : Outcome × System :=
  match s.held.take? s.next t with
  | some held => (.acquired s.next, { s with held, next := s.next + 1 })
  | none => (otherwise, s)

/-- One attempt of a thread to take the lock. -/
def attempt (s : System) (t : ThreadId) : Demand → Outcome × System
  | .lock => s.take t .waiting
  | .tryLock => s.take t .refused
  | .lockInterruptibly =>
    match s.held.lock.attempt t (s.interrupts.isRaised t) with
    | .interrupted => (.interrupted, { s with interrupts := s.interrupts.clear t })
    | .taken _ | .waiting => s.take t .waiting

/-- A thread comes to ask for the lock, or no longer does. -/
def ask (s : System) (t : ThreadId) (d : Option Demand) : System :=
  { s with demand := Function.update s.demand t d }

/-- The steps that may be taken. A thread that asks for the lock drops no guards meanwhile, and drops
only its own. -/
inductive Step : System → Label → System → Prop
  | ask {s : System} {t : ThreadId} (d : Demand) (idle : s.demand t = none) :
      Step s (.asked t d) (s.ask t (some d))
  | attempt {s : System} {t : ThreadId} {d : Demand} (asks : s.demand t = some d) :
      Step s (.tried t d (s.attempt t d).1)
        ((s.attempt t d).2.ask t (if (s.attempt t d).1 = .waiting then some d else none))
  | drop {s : System} {t : ThreadId} {n : Nat} (idle : s.demand t = none)
      (live : (n, t) ∈ s.held.guards) : Step s (.dropped t n) { s with held := s.held.drop n }
  | interrupt (s : System) (t : ThreadId) :
      Step s (.interrupted t) { s with interrupts := s.interrupts.raise t }
  | calm {s : System} {t : ThreadId} (idle : s.demand t = none) :
      Step s (.calmed t) { s with interrupts := s.interrupts.clear t }

/-- Nobody has asked for the lock yet. -/
structure IsFresh (s : System) : Prop where
  held : s.held = .free
  demand : ∀ t, s.demand t = none

variable {s s' start : System} {l : Label} {ls : List Label} {t u : ThreadId} {d : Demand}

/-- An interrupt ends an attempt; otherwise the ways to ask differ in what comes of a lock that
another thread holds. -/
theorem attempt_eq (s : System) (t : ThreadId) (d : Demand) :
    (∃ otherwise, (∀ n, otherwise ≠ .acquired n) ∧ s.attempt t d = s.take t otherwise) ∨
    s.attempt t d = (.interrupted, { s with interrupts := s.interrupts.clear t }) := by
  cases d with
  | lock => exact .inl ⟨.waiting, fun _ => Outcome.noConfusion, rfl⟩
  | tryLock => exact .inl ⟨.refused, fun _ => Outcome.noConfusion, rfl⟩
  | lockInterruptibly =>
    rw [attempt]
    cases s.held.lock.attempt t (s.interrupts.isRaised t) with
    | interrupted => exact .inr rfl
    | taken | waiting => exact .inl ⟨.waiting, fun _ => Outcome.noConfusion, rfl⟩

/-- An attempt takes the lock for a guard, or leaves it alone. -/
theorem attempt_cases (s : System) (t : ThreadId) (d : Demand) :
    (∃ held, s.held.take? s.next t = some held ∧
      s.attempt t d = (.acquired s.next, { s with held, next := s.next + 1 })) ∨
    ((∀ n, (s.attempt t d).1 ≠ .acquired n) ∧ (s.attempt t d).2.held = s.held ∧
      (s.attempt t d).2.next = s.next) := by
  rcases attempt_eq s t d with ⟨otherwise, hotherwise, htakes⟩ | hinterrupted
  · rw [htakes, take]
    cases s.held.take? s.next t with
    | some held => exact .inl ⟨held, rfl, rfl⟩
    | none => exact .inr ⟨hotherwise, rfl, rfl⟩
  · rw [hinterrupted]
    exact .inr ⟨fun _ => Outcome.noConfusion, rfl, rfl⟩

/-- The guards that the lock counts are the live ones of the history. -/
structure Recorded (ls : List Label) (s : System) : Prop where
  kept : s.held.IsKept
  live : ∀ n t, (n, t) ∈ s.held.guards ↔ IsLive ls n t
  /-- The next number is that of no guard so far. -/
  acquired : ∀ n t d, .tried t d (.acquired n) ∈ ls → n < s.next
  dropped : ∀ n t, .dropped t n ∈ ls → n < s.next

theorem IsFresh.recorded (h : start.IsFresh) : Recorded [] start := by
  refine ⟨?_, fun n t => ?_, fun n t d hl => ?_, fun n t hl => ?_⟩
  · rw [h.held]
    exact isKept_free
  · rw [h.held]
    refine iff_of_false List.not_mem_nil ?_
    rintro ⟨⟨d, hl⟩, -⟩
    exact absurd hl List.not_mem_nil
  · exact absurd hl List.not_mem_nil
  · exact absurd hl List.not_mem_nil

namespace Recorded

theorem next_not_mem (h : Recorded ls s) : s.next ∉ s.held.guards.map Prod.fst := by
  intro hmem
  obtain ⟨⟨n, t⟩, hlive, hn⟩ := List.mem_map.mp hmem
  obtain ⟨⟨d, hl⟩, -⟩ := (h.live n t).mp hlive
  have hlt := h.acquired n t d hl
  simp only at hn
  omega

/-- A step that neither acquires nor drops a guard changes nothing that is recorded. -/
theorem of_quiet (h : Recorded ls s) (hheld : s'.held = s.held) (hnext : s'.next = s.next)
    (hacquired : ∀ t d n, l ≠ .tried t d (.acquired n)) (hdropped : ∀ t n, l ≠ .dropped t n) :
    Recorded (ls ++ [l]) s' := by
  have hmem : ∀ {m : Label}, m ≠ l → (m ∈ ls ++ [l] ↔ m ∈ ls) := by
    intro m hm
    simp [hm]
  refine ⟨hheld ▸ h.kept, fun n t => ?_, fun n t d hl => ?_, fun n t hl => ?_⟩
  · rw [hheld, h.live n t, IsLive, IsLive, hmem (hdropped t n).symm]
    simp only [hmem (hacquired t _ n).symm]
  · rw [hmem (hacquired t d n).symm] at hl
    exact hnext ▸ h.acquired n t d hl
  · rw [hmem (hdropped t n).symm] at hl
    exact hnext ▸ h.dropped n t hl

theorem of_take (h : Recorded ls s) {held : GuardedLock} (htake : s.held.take? s.next t = some held)
    (d : Demand) (after : Option Demand) : Recorded (ls ++ [.tried t d (.acquired s.next)])
      (({ s with held, next := s.next + 1 } : System).ask t after) := by
  have hnever : ∀ u, Label.dropped u s.next ∉ ls := by
    intro u hl
    exact absurd (h.dropped _ _ hl) (Nat.lt_irrefl _)
  refine ⟨h.kept.take htake h.next_not_mem, fun n u => ?_, fun n u d' hl => ?_, fun n u hl => ?_⟩
  · have hlive := h.live n u
    show (n, u) ∈ held.guards ↔ _
    rw [guards_take htake, List.mem_cons, Prod.mk.injEq, hlive, IsLive, IsLive]
    constructor
    · rintro (⟨rfl, rfl⟩ | ⟨⟨d', hd'⟩, hdrop⟩)
      · exact ⟨⟨d, by simp⟩, by simpa using hnever u⟩
      · exact ⟨⟨d', by simp [hd']⟩, by simpa using hdrop⟩
    · rintro ⟨⟨d', hd'⟩, hdrop⟩
      rcases List.mem_append.mp hd' with hd' | hd'
      · exact .inr ⟨⟨d', hd'⟩, by simpa using hdrop⟩
      · cases List.mem_singleton.mp hd'
        exact .inl ⟨rfl, rfl⟩
  · show n < s.next + 1
    rcases List.mem_append.mp hl with hl | hl
    · have hlt := h.acquired n u d' hl
      omega
    · cases List.mem_singleton.mp hl
      exact Nat.lt_succ_self _
  · show n < s.next + 1
    have hlt := h.dropped n u (by simpa using hl)
    omega

theorem of_drop (h : Recorded ls s) {n : Nat} (hlive : (n, t) ∈ s.held.guards) :
    Recorded (ls ++ [.dropped t n]) { s with held := s.held.drop n } := by
  refine ⟨h.kept.drop hlive, fun m u => ?_, fun m u d hl => ?_, fun m u hl => ?_⟩
  · show (m, u) ∈ (s.held.drop n).guards ↔ _
    rw [mem_drop hlive, h.live m u, IsLive, IsLive]
    constructor
    · rintro ⟨⟨⟨d, hd⟩, hdrop⟩, hne⟩
      exact ⟨⟨d, by simp [hd]⟩, by simp [hdrop, hne]⟩
    · rintro ⟨⟨d, hd⟩, hdrop⟩
      simp only [List.mem_append, List.mem_singleton, reduceCtorEq, or_false] at hd
      simp only [List.mem_append, List.mem_singleton, Label.dropped.injEq, not_or] at hdrop
      refine ⟨⟨⟨d, hd⟩, hdrop.1⟩, ?_⟩
      -- the guard of that number belongs to the thread that drops it
      rintro rfl
      have hu : (m, u) ∈ s.held.guards := (h.live m u).mpr ⟨⟨d, hd⟩, hdrop.1⟩
      exact hdrop.2 ⟨h.kept.eq_of_mem hu hlive, rfl⟩
  · exact h.acquired m u d (by simpa using hl)
  · rcases List.mem_append.mp hl with hl | hl
    · exact h.dropped m u hl
    · cases List.mem_singleton.mp hl
      obtain ⟨⟨d, hd⟩, -⟩ := (h.live n t).mp hlive
      exact h.acquired n t d hd

theorem of_step (h : Recorded ls s) (hstep : Step s l s') : Recorded (ls ++ [l]) s' := by
  cases hstep with
  | @attempt t d _ =>
    rcases attempt_cases s t d with ⟨held, htake, hattempt⟩ | ⟨houtcome, hheld, hnext⟩
    · rw [hattempt]
      exact h.of_take htake d _
    · refine h.of_quiet hheld hnext (fun u d' n heq => ?_) fun _ _ => Label.noConfusion
      injection heq with _ _ hacquired
      exact houtcome n hacquired
  | drop _ live => exact h.of_drop live
  | ask | interrupt | calm =>
    exact h.of_quiet rfl rfl (fun _ _ _ => Label.noConfusion) fun _ _ => Label.noConfusion

theorem of_run (fresh : start.IsFresh) (h : Run Step start ls s) : Recorded ls s := by
  induction h with
  | nil => exact fresh.recorded
  | snoc _ hstep ih => exact ih.of_step hstep

end Recorded

/-- Who holds the lock at any moment, and how often. All live guards belong to one thread. That
thread owns the lock, and without live guards nobody does. The lock counts each live guard once, so
that each release has a hold to give up. An attempt that does not acquire the lock, be it refused,
interrupted or to be made again, leaves it as it was. -/
theorem live_guards_hold_lock (fresh : start.IsFresh) (h : Run Step start ls s) :
    (∀ n m t u, IsLive ls n t → IsLive ls m u → t = u) ∧
    (∀ t, s.held.lock.owner = some t ↔ ∃ n, IsLive ls n t) ∧
    (s.held.lock.owner = none ↔ ∀ n t, ¬ IsLive ls n t) ∧
    (s.held.guards.Nodup ∧ (∀ n t, (n, t) ∈ s.held.guards ↔ IsLive ls n t) ∧
      s.held.lock.holds = s.held.guards.length) ∧
    (∀ n t, IsLive ls n t → (s.held.drop n).lock.holds + 1 = s.held.lock.holds) ∧
    ∀ t d, (∀ n, (s.attempt t d).1 ≠ .acquired n) → (s.attempt t d).2.held = s.held := by
  have hrecorded : Recorded ls s := .of_run fresh h
  have hkept : s.held.IsKept := hrecorded.kept
  have howner : ∀ {n t}, IsLive ls n t → s.held.lock.owner = some t := by
    intro n t hlive
    exact hkept.owner _ ((hrecorded.live n t).mpr hlive)
  have hexists : ∀ {t}, s.held.lock.owner = some t → ∃ n, IsLive ls n t := by
    intro t ht
    have hguards : s.held.guards ≠ [] := by
      intro hnil
      rw [hkept.free hnil] at ht
      cases ht
    obtain ⟨⟨n, u⟩, hmem⟩ := List.exists_mem_of_ne_nil _ hguards
    have hlive := (hrecorded.live n u).mp hmem
    have hu := howner hlive
    rw [ht] at hu
    exact ⟨n, Option.some.inj hu ▸ hlive⟩
  refine ⟨?_, fun t => ⟨hexists, fun ⟨n, hlive⟩ => howner hlive⟩, ?_, ?_, ?_, ?_⟩
  · intro n m t u ht hu
    have hsame := (howner ht).symm.trans (howner hu)
    exact Option.some.inj hsame
  · constructor
    · intro hnone n t hlive
      rw [howner hlive] at hnone
      cases hnone
    · intro hnobody
      apply Option.eq_none_iff_forall_ne_some.mpr
      intro t ht
      obtain ⟨n, hlive⟩ := hexists ht
      exact hnobody n t hlive
  · exact ⟨hkept.distinct.of_map _, hrecorded.live, hkept.count⟩
  · intro n t hlive
    exact hkept.holds_drop ((hrecorded.live n t).mpr hlive)
  · intro t d houtcome
    rcases attempt_cases s t d with ⟨held, -, hattempt⟩ | ⟨-, hheld, -⟩
    · rw [hattempt] at houtcome
      exact absurd rfl (houtcome s.next)
    · exact hheld

/-- A thread that has locked twice keeps the lock when it drops its first guard first. -/
theorem first_guard_dropped_first :
    ∃ start ls s, IsFresh start ∧ Run Step start ls s ∧ .tried 2 .tryLock .refused ∈ ls ∧
      .dropped 1 0 ∈ ls ∧ s.held.lock = ⟨some 1, 1⟩ ∧ ∀ n t, IsLive ls n t → t = 1 := by
  have hfresh : IsFresh ⟨.free, .none, fun _ => none, 0⟩ := ⟨rfl, fun _ => rfl⟩
  have hrun := ((((((Run.single (Step.ask (s := ⟨.free, .none, fun _ => none, 0⟩) (t := 1) .lock
    rfl)).snoc (Step.attempt (t := 1) (d := .lock) rfl)).snoc
    (Step.ask (t := 1) .lockInterruptibly rfl)).snoc
    (Step.attempt (t := 1) (d := .lockInterruptibly) rfl)).snoc
    (Step.ask (t := 2) .tryLock rfl)).snoc
    (Step.attempt (t := 2) (d := .tryLock) rfl)).snoc
    (Step.drop (t := 1) (n := 0) rfl (List.mem_cons_of_mem _ List.mem_cons_self))
  obtain ⟨hone, howner, -⟩ := live_guards_hold_lock hfresh hrun
  obtain ⟨m, hm⟩ := (howner 1).mp rfl
  refine ⟨_, _, _, hfresh, hrun, ?_, ?_, rfl, fun n t hlive => hone n m t 1 hlive hm⟩
  · apply List.mem_append_left
    exact List.mem_append_right _ (List.mem_singleton_self _)
  · exact List.mem_append_right _ (List.mem_singleton_self _)

end System

end LogSetup.GuardedLock
