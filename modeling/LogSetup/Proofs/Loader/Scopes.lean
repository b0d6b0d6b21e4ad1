import LogSetup.Loader.Scopes
import LogSetup.Proofs.Threads.Runs
import Mathlib.Data.List.Nodup

/-!
# Which context is in effect

A thread enters contexts and drops the scopes that it got for them, each of them once, in any order.
Every drop leaves the context on top of the stack, whichever scope is dropped. So the context in
effect is that of the latest scope that is not dropped as long as the latest scope is dropped first;
when an earlier one is dropped instead, the wrong context is left.

## Main definitions

- `ContextScopes.Step`, `ContextScopes.Label` : entering and dropping
- `ContextScopes.undropped` : the scopes that are not dropped in a history, with their contexts
- `ContextScopes.latest` : the context of the latest of these
- `ContextScopes.IsNested` : a history in which the latest scope is always dropped first

## Main statements

- `ContextScopes.Recorded.of_step` : the stack has one context for each scope that is not dropped
- `ContextScopes.stack_of_isNested` : in nested histories the contexts are those of the scopes
- `ContextScopes.exists_entered` : where a context in the stack comes from, in any history
-/

namespace LogSetup.ContextScopes

/-! ### Histories -/

/-- What a step did. -/
inductive Label where
  | entered (scope : Nat) (c : LoadingContext)
  | dropped (scope : Nat)
  deriving DecidableEq, Repr

/-- A thread enters a context, or drops a scope that it has not dropped. -/
inductive Step : ContextScopes → Label → ContextScopes → Prop
  | enter (s : ContextScopes) (c : LoadingContext) : Step s (.entered s.made c) (s.enter c)
  | drop {s : ContextScopes} {scope : Nat} (live : scope ∈ s.live) :
      Step s (.dropped scope) (s.drop scope)

/-- The scope that was made, with its context. -/
def Label.entry : Label → Option (Nat × LoadingContext)
  | .entered scope c => some (scope, c)
  | .dropped _ => Option.none

/-- The scopes that were made in a history, with their contexts. -/
def entries (ls : List Label) : List (Nat × LoadingContext) := ls.filterMap Label.entry

/-- The scopes that are not dropped in a history, with their contexts, the latest first. -/
def undropped (ls : List Label) : List (Nat × LoadingContext) :=
  (entries ls).reverse.filter fun e => .dropped e.1 ∉ ls

/-- The context of the latest scope that is not dropped. -/
def latest (ls : List Label) : Option LoadingContext := (undropped ls).head?.map Prod.snd

/-- Each scope that is dropped is the latest one at that time. -/
def IsNested (ls : List Label) : Prop :=
  ∀ as n, as ++ [.dropped n] <+: ls → (undropped as).head?.map Prod.fst = some n

variable {s s' : ContextScopes} {l : Label} {ls as bs : List Label} {n : Nat} {c : LoadingContext}

theorem IsNested.mono (h : IsNested ls) (hfront : as <+: ls) : IsNested as :=
  fun bs n hbs => h bs n (hbs.trans hfront)

theorem isNested_snoc (h : IsNested ls)
    (hl : ∀ n, l = .dropped n → (undropped ls).head?.map Prod.fst = some n) :
    IsNested (ls ++ [l]) := by
  intro as n hfront
  rcases List.prefix_concat_iff.mp hfront with heq | hfront
  · obtain ⟨rfl, hlast⟩ := List.append_inj' heq rfl
    cases hlast
    exact hl n rfl
  · exact h as n hfront

theorem entries_entered : entries (ls ++ [.entered n c]) = entries ls ++ [(n, c)] :=
  List.filterMap_append

theorem entries_dropped : entries (ls ++ [.dropped n]) = entries ls := by
  rw [entries, List.filterMap_append]
  exact List.append_nil _

theorem drop_of_step (h : Step s (.dropped n) s') : n ∈ s.live ∧ s' = s.drop n := by
  cases h with
  | drop live => exact ⟨live, rfl⟩

theorem stack_drop (live : n ∈ s.live) : (s.drop n).stack = s.stack.tail := by
  rw [drop, if_pos live]

theorem undropped_entered (hn : .dropped n ∉ ls) :
    undropped (ls ++ [.entered n c]) = (n, c) :: undropped ls := by
  have hmem : ∀ m, Label.dropped m ∈ ls ++ [.entered n c] ↔ .dropped m ∈ ls := by simp
  simp only [undropped, hmem]
  rw [entries_entered, List.reverse_append]
  exact List.filter_cons_of_pos (by simpa using hn)

theorem undropped_dropped : undropped (ls ++ [.dropped n]) =
    (undropped ls).filter fun e => e.1 != n := by
  have hmem : ∀ m, Label.dropped m ∈ ls ++ [.dropped n] ↔ .dropped m ∈ ls ∨ m = n := by simp
  simp only [undropped, hmem, entries_dropped, List.filter_filter]
  refine List.filter_congr fun e _ => ?_
  by_cases hdropped : .dropped e.1 ∈ ls <;> by_cases he : e.1 = n <;> simp [hdropped, he]

/-! ### The stack -/

/-- What a history tells of the scopes: those that are not dropped are live, each with a number of its
own, and the stack has one context for each. -/
structure Recorded (s : ContextScopes) (ls : List Label) : Prop where
  live : s.live = (undropped ls).map Prod.fst
  stack : s.stack.length = (undropped ls).length
  made : ∀ e ∈ entries ls, e.1 < s.made
  dropped : ∀ n, .dropped n ∈ ls → n < s.made
  distinct : ((undropped ls).map Prod.fst).Nodup

theorem recorded_none : Recorded none [] := by
  refine ⟨rfl, rfl, fun e he => ?_, fun n hn => ?_, List.nodup_nil⟩
  · cases he
  · cases hn

namespace Recorded

theorem made_not_mem (h : Recorded s ls) : .dropped s.made ∉ ls := by
  intro hmem
  exact absurd (h.dropped _ hmem) (Nat.lt_irrefl _)

theorem undropped_enter (h : Recorded s ls) (c : LoadingContext) :
    undropped (ls ++ [.entered s.made c]) = (s.made, c) :: undropped ls :=
  undropped_entered h.made_not_mem

theorem of_enter (h : Recorded s ls) (c : LoadingContext) :
    Recorded (s.enter c) (ls ++ [.entered s.made c]) := by
  have hnew : s.made ∉ (undropped ls).map Prod.fst := by
    intro hmem
    obtain ⟨e, he, hn⟩ := List.mem_map.mp hmem
    have hlt := h.made e (List.mem_reverse.mp (List.mem_filter.mp he).1)
    omega
  constructor
  · rw [h.undropped_enter, List.map_cons, ← h.live]
    rfl
  · rw [h.undropped_enter, List.length_cons, ← h.stack]
    rfl
  · intro e he
    rw [entries_entered] at he
    show e.1 < s.made + 1
    rcases List.mem_append.mp he with he | he
    · have hlt := h.made e he
      omega
    · cases List.mem_singleton.mp he
      exact Nat.lt_succ_self _
  · intro n hn
    have hlt := h.dropped n (by simpa using hn)
    exact Nat.lt_succ_of_lt hlt
  · rw [h.undropped_enter, List.map_cons]
    exact List.nodup_cons.mpr ⟨hnew, h.distinct⟩

theorem live_drop (h : Recorded s ls) (n : Nat) :
    s.live.erase n = (undropped (ls ++ [.dropped n])).map Prod.fst := by
  rw [undropped_dropped, h.live, h.distinct.erase_eq_filter, List.filter_map]
  rfl

theorem of_drop (h : Recorded s ls) (live : n ∈ s.live) :
    Recorded (s.drop n) (ls ++ [.dropped n]) := by
  have hlive := h.live_drop n
  have hlength : (undropped (ls ++ [.dropped n])).length = s.live.length - 1 := by
    rw [← List.length_map (f := Prod.fst), ← hlive, List.length_erase_of_mem live]
  have hstack : s.stack.length = s.live.length := by rw [h.stack, h.live, List.length_map]
  rw [drop, if_pos live]
  constructor
  · exact hlive
  · rw [List.length_tail, hlength, hstack]
  · intro e he
    rw [entries_dropped] at he
    exact h.made e he
  · intro m hm
    rcases List.mem_append.mp hm with hm | hm
    · exact h.dropped m hm
    · cases List.mem_singleton.mp hm
      rw [h.live] at live
      obtain ⟨e, he, rfl⟩ := List.mem_map.mp live
      exact h.made e (List.mem_reverse.mp (List.mem_filter.mp he).1)
  · rw [← hlive, h.live]
    exact h.distinct.erase n

theorem of_step (h : Recorded s ls) (hstep : Step s l s') : Recorded s' (ls ++ [l]) := by
  cases hstep with
  | enter => exact h.of_enter _
  | drop live => exact h.of_drop live

theorem current_eq_none_iff (h : Recorded s ls) : s.current = Option.none ↔ undropped ls = [] := by
  rw [current, List.head?_eq_none_iff, ← List.length_eq_zero_iff, h.stack, List.length_eq_zero_iff]

end Recorded

theorem recorded_of_run (h : Run Step none ls s) : Recorded s ls := by
  induction h with
  | nil => exact recorded_none
  | snoc _ hstep ih => exact ih.of_step hstep

/-! ### Nested histories -/

theorem undropped_dropped_head (h : Recorded s ls) {rest : List (Nat × LoadingContext)}
    (hls : undropped ls = (n, c) :: rest) : undropped (ls ++ [.dropped n]) = rest := by
  have hdistinct := h.distinct
  rw [hls, List.map_cons, List.nodup_cons] at hdistinct
  rw [undropped_dropped, hls, List.filter_cons_of_neg (by simp)]
  refine List.filter_eq_self.mpr fun e he => ?_
  have hne : e.1 ≠ n := fun heq => hdistinct.1 (List.mem_map.mpr ⟨e, he, heq⟩)
  simpa using hne

/-- In a nested history, the contexts on the stack are those of the scopes that are not dropped. -/
theorem stack_of_isNested (h : Run Step none ls s) (nested : IsNested ls) :
    s.stack = (undropped ls).map Prod.snd := by
  induction h with
  | nil => rfl
  | @snoc ls l a b hrun hstep ih =>
    have hrecorded := recorded_of_run hrun
    have hstack := ih (nested.mono (List.prefix_append ..))
    cases hstep with
    | enter c =>
      rw [hrecorded.undropped_enter, List.map_cons, ← hstack]
      rfl
    | @drop n live =>
      have hhead := nested ls n List.prefix_rfl
      cases hls : undropped ls with
      | nil =>
        rw [hls] at hhead
        cases hhead
      | cons e rest =>
        rw [hls] at hhead hstack
        cases hhead
        rw [undropped_dropped_head hrecorded hls, stack_drop live, hstack, List.map_cons,
          List.tail_cons]

theorem current_of_isNested (h : Run Step none ls s) (nested : IsNested ls) :
    s.current = latest ls := by
  rw [current, stack_of_isNested h nested, List.head?_map, latest]

/-- If the right context is left when a scope is dropped, it was the latest one, provided that a
context is entered once only. -/
theorem head_of_current_eq_latest (h : Run Step none ls s) (nested : IsNested ls)
    (distinct : ((entries ls).map Prod.snd).Nodup) (hstep : Step s (.dropped n) s')
    (hcurrent : s'.current = latest (ls ++ [.dropped n])) :
    (undropped ls).head?.map Prod.fst = some n := by
  obtain ⟨live, rfl⟩ := drop_of_step hstep
  have hrecorded := recorded_of_run h
  have hdistinct : ((undropped ls).map Prod.snd).Nodup := by
    have hreverse : ((entries ls).reverse.map Prod.snd).Nodup := by
      rw [List.map_reverse]
      exact List.nodup_reverse.mpr distinct
    exact hreverse.sublist (List.filter_sublist.map _)
  have hlive := live
  rw [hrecorded.live] at hlive
  rw [current, stack_drop live, stack_of_isNested h nested, latest, undropped_dropped] at hcurrent
  cases hls : undropped ls with
  | nil =>
    rw [hls] at hlive
    cases hlive
  | cons e rest =>
    by_contra hne
    have he : e.1 ≠ n := fun heq => hne (congrArg some heq)
    -- the latest scope stays, but its context is the one that is left
    rw [hls, List.map_cons, List.tail_cons, List.filter_cons_of_pos (by simpa using he)] at hcurrent
    rw [hls, List.map_cons, List.nodup_cons] at hdistinct
    exact hdistinct.1 (List.mem_of_mem_head? hcurrent)

/-! ### Any histories -/

/-- Where the context at some height of the stack comes from: it was entered when the stack was just
so high, and ever since there were more scopes. -/
theorem exists_entered (h : Run Step none ls s) {k : Nat} (hk : k < s.stack.length) :
    ∃ as n c bs, ls = as ++ .entered n c :: bs ∧ s.stack.reverse[k]? = some c ∧
      (undropped as).length = k ∧
      ∀ cs, cs <+: bs → k < (undropped (as ++ .entered n c :: cs)).length := by
  induction h with
  | nil => cases hk
  | @snoc ls l a b hrun hstep ih =>
    have hlength := ((recorded_of_run hrun).of_step hstep).stack
    have holder (hstack : k < a.stack.length) (hsame : b.stack.reverse[k]? = a.stack.reverse[k]?) :
        ∃ as n c bs, ls ++ [l] = as ++ .entered n c :: bs ∧ b.stack.reverse[k]? = some c ∧
          (undropped as).length = k ∧
          ∀ cs, cs <+: bs → k < (undropped (as ++ .entered n c :: cs)).length := by
      obtain ⟨as, n, c, bs, rfl, hc, hdepth, hbs⟩ := ih hstack
      refine ⟨as, n, c, bs ++ [l], by simp, hsame.trans hc, hdepth, fun cs hcs => ?_⟩
      rcases List.prefix_concat_iff.mp hcs with rfl | hcs
      · rw [hlength] at hk
        simpa using hk
      · exact hbs cs hcs
    cases hstep with
    | enter c =>
      have hreverse : (a.enter c).stack.reverse = a.stack.reverse ++ [c] := List.reverse_cons
      by_cases hlt : k < a.stack.length
      · refine holder hlt ?_
        rw [hreverse, List.getElem?_append_left (by simpa using hlt)]
      · have hk' : k < a.stack.length + 1 := hk
        have hkeq : k = a.stack.length := by omega
        refine ⟨ls, a.made, c, [], rfl, ?_, ?_, fun cs hcs => ?_⟩
        · rw [hreverse, hkeq, ← List.length_reverse, List.getElem?_concat_length]
        · rw [hkeq, (recorded_of_run hrun).stack]
        · rw [List.prefix_nil.mp hcs]
          rw [hlength] at hk
          exact hk
    | @drop n live =>
      rw [stack_drop live, List.length_tail] at hk
      refine holder (by omega) ?_
      rw [stack_drop live]
      cases hstack : a.stack with
      | nil => rfl
      | cons c rest =>
        rw [hstack, List.length_cons] at hk
        rw [List.tail_cons, List.reverse_cons, List.getElem?_append_left]
        rw [List.length_reverse]
        omega

end LogSetup.ContextScopes
