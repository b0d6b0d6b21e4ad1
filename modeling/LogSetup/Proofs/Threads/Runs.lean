import Mathlib.Data.List.Induction

/-!
# Runs

Threads take steps one at a time, in any order. A run is a sequence of steps from one state to
another. Each step has a label that tells what was done, and the labels of a run are its history.

## Main definitions

- `Run` : a sequence of steps with their labels
- `Run.Takes` : a step on the way of a run

## Main statements

- `Run.preserves` : what every step keeps, a run keeps
- `Run.split_cons` : the state before a step of a run, and the state after it
-/

namespace LogSetup

/-- Steps one after another, with their labels in order. -/
inductive Run {σ ℓ : Type} (step : σ → ℓ → σ → Prop) (s : σ) : List ℓ → σ → Prop
  | nil : Run step s [] s
  | snoc {ls : List ℓ} {l : ℓ} {a b : σ} : Run step s ls a → step a l b → Run step s (ls ++ [l]) b

namespace Run

variable {σ ℓ : Type} {step : σ → ℓ → σ → Prop} {s a b c : σ} {l : ℓ} {ls as bs : List ℓ}

theorem single (h : step s l a) : Run step s [l] a := snoc nil h

theorem append (ha : Run step s as a) (hb : Run step a bs b) : Run step s (as ++ bs) b := by
  induction hb with
  | nil => rwa [List.append_nil]
  | snoc _ hstep ih =>
    rw [← List.append_assoc]
    exact ih.snoc hstep

theorem eq_of_nil (h : Run step s [] a) : a = s := by
  generalize hnil : ([] : List ℓ) = ls at h
  cases h with
  | nil => rfl
  | snoc => simp at hnil

theorem last (h : Run step s (ls ++ [l]) b) : ∃ a, Run step s ls a ∧ step a l b := by
  generalize hls : ls ++ [l] = history at h
  cases h with
  | nil => simp at hls
  | snoc hrun hstep =>
    obtain ⟨rfl, hl⟩ := List.append_inj' hls rfl
    cases hl
    exact ⟨_, hrun, hstep⟩

theorem split (h : Run step s (as ++ bs) b) : ∃ a, Run step s as a ∧ Run step a bs b := by
  induction bs using List.reverseRecOn generalizing b with
  | nil =>
    rw [List.append_nil] at h
    exact ⟨b, h, nil⟩
  | append_singleton bs l ih =>
    rw [← List.append_assoc] at h
    obtain ⟨c, hc, hstep⟩ := h.last
    obtain ⟨a, ha, hbs⟩ := ih hc
    exact ⟨a, ha, hbs.snoc hstep⟩

theorem split_cons (h : Run step s (as ++ l :: bs) c) :
    ∃ a b, Run step s as a ∧ step a l b ∧ Run step b bs c := by
  rw [← List.singleton_append, ← List.append_assoc] at h
  obtain ⟨b, hb, hbs⟩ := h.split
  obtain ⟨a, ha, hstep⟩ := hb.last
  exact ⟨a, b, ha, hstep, hbs⟩

theorem append_cons (ha : Run step s as a) (hstep : step a l b) (hb : Run step b bs c) :
    Run step s (as ++ l :: bs) c := by
  rw [← List.singleton_append, ← List.append_assoc]
  exact (ha.snoc hstep).append hb

/-- The run takes this step on its way. -/
def Takes (step : σ → ℓ → σ → Prop) (s : σ) (ls : List ℓ) (e a : σ) (l : ℓ) (b : σ) : Prop :=
  ∃ as bs, ls = as ++ l :: bs ∧ Run step s as a ∧ step a l b ∧ Run step b bs e

theorem step_of_mem (h : Run step s ls c) (hl : l ∈ ls) : ∃ a b, step a l b := by
  obtain ⟨as, bs, rfl⟩ := List.append_of_mem hl
  obtain ⟨a, b, -, hstep, -⟩ := h.split_cons
  exact ⟨a, b, hstep⟩

/-- What every step of a run keeps holds after the run. -/
theorem preserves {I : σ → Prop} (h : Run step s ls b) (hs : I s)
    (keep : ∀ a l b, l ∈ ls → step a l b → I a → I b) : I b := by
  induction h with
  | nil => exact hs
  | @snoc ls l a b _ hstep ih =>
    have ha : I a := ih fun a l b hl => keep a l b (List.mem_append_left _ hl)
    exact keep a l b (List.mem_append_right _ (List.mem_singleton_self l)) hstep ha

/-- A run as seen by a view of the states: each of its steps is seen as a step. -/
theorem view {τ κ : Type} {step' : τ → κ → τ → Prop} {f : σ → τ} {g : ℓ → κ} {I : σ → Prop}
    (h : Run step s ls b) (hs : I s) (keep : ∀ a l b, step a l b → I a → I b)
    (seen : ∀ a l b, step a l b → I a → step' (f a) (g l) (f b)) :
    Run step' (f s) (ls.map g) (f b) := by
  induction h with
  | nil => exact nil
  | @snoc ls l a b hrun hstep ih =>
    have ha : I a := hrun.preserves hs fun a l b _ => keep a l b
    rw [List.map_append]
    exact ih.snoc (seen a l b hstep ha)

end Run

end LogSetup
