import LogSetup.Disk.Path
import LogSetup.Proofs.Text.Pieces
import Mathlib.Data.List.Infix
import Mathlib.Logic.Function.Iterate

/-!
# Where a path leads by its text

Read by its text alone, a path leads some folders up from where it starts and from there down
through names: two dots undo the name before them, at the root they do nothing, and where no name is
left to be undone they lead up. Following a path from the place to which another one leads first goes up as
far as it leads up, and then down.

## Main definitions

- `Spot` : how far up, and down through which names
- `Spot.follow` : the spot at the end of a way
- `Spot.IsWithin` : a spot in or below another
- `FilePath.spot` : where a path leads

## Main statements

- `Spot.follow_eq` : a way from anywhere, up and down
- `Spot.isWithin_follow_iff` : ways that end below where they begin
- `Spot.ups_follow_eq_iff` : ways that never lead up
- `FilePath.spot_join` : where a path below another leads
-/

namespace LogSetup

/-- Where a path leads by its text. -/
structure Spot where
  /-- The way begins at the root. -/
  rooted : Bool
  /-- How far the spot is above the start of a way that does not begin at the root. -/
  ups : Nat
  /-- The names on the way down. -/
  names : List Bytes
  deriving DecidableEq, Repr

namespace Spot

open FilePath (Component)

variable {s t : Spot} {steps : List Component} {ns : List Bytes}

/-- The start of a way. -/
def start : Spot := ⟨false, 0, []⟩

/-- One step up. -/
def up (s : Spot) : Spot :=
  if s.names ≠ [] then { s with names := s.names.dropLast }
  else if s.rooted then s
  else { s with ups := s.ups + 1 }

/-- Down through names. -/
def down (s : Spot) (ns : List Bytes) : Spot := { s with names := s.names ++ ns }

/-- One step of a path. -/
def step (s : Spot) : Component → Spot
  | .root => ⟨true, 0, []⟩
  | .here => s
  | .parent => s.up
  | .name n => s.down [n]

/-- The spot at the end of a way. -/
def follow (s : Spot) (steps : List Component) : Spot := steps.foldl step s

/-- In the folder to which the other spot leads, or below it. -/
def IsWithin (s t : Spot) : Prop := s.rooted = t.rooted ∧ s.ups = t.ups ∧ t.names <+: s.names

instance (s t : Spot) : Decidable (s.IsWithin t) :=
  inferInstanceAs (Decidable (_ ∧ _ ∧ _))

theorem follow_append (s : Spot) (steps more : List Component) :
    s.follow (steps ++ more) = (s.follow steps).follow more :=
  List.foldl_append

theorem up_down (hns : ns ≠ []) : (s.down ns).up = s.down ns.dropLast := by
  have hne : s.names ++ ns ≠ [] := List.append_ne_nil_of_right_ne_nil _ hns
  rw [up, down, down, if_pos hne, List.dropLast_append_of_ne_nil hns]

theorem up_of_names_eq_nil (h : s.names = []) (hrooted : s.rooted = false) :
    s.up = { s with ups := s.ups + 1 } := by
  rw [up, if_neg (not_not_intro h), hrooted, if_neg Bool.false_ne_true]

theorem rooted_up (s : Spot) : s.up.rooted = s.rooted := by
  rw [up]
  split
  · rfl
  · split <;> rfl

theorem rooted_follow (s : Spot) (h : .root ∉ steps) : (s.follow steps).rooted = s.rooted := by
  induction steps generalizing s with
  | nil => rfl
  | cons c rest ih =>
    show ((s.step c).follow rest).rooted = s.rooted
    rw [ih _ (List.not_mem_of_not_mem_cons h)]
    cases c with
    | root => exact absurd rfl (List.ne_of_not_mem_cons h)
    | here => rfl
    | parent => exact rooted_up s
    | name n => rfl

/-- A way leads from anywhere first as far up as it leads up, and then down. -/
theorem follow_eq (s : Spot) (h : .root ∉ steps) :
    s.follow steps = (up^[(start.follow steps).ups] s).down (start.follow steps).names := by
  induction steps using List.reverseRecOn with
  | nil =>
    show s = s.down []
    rw [down, List.append_nil]
  | append_singleton steps c ih =>
    have hsteps : .root ∉ steps := fun hroot => h (List.mem_append_left _ hroot)
    have hlast : ∀ r : Spot, r.follow (steps ++ [c]) = (r.follow steps).step c :=
      fun r => follow_append r steps [c]
    have hrooted : (start.follow steps).rooted = false := rooted_follow start hsteps
    rw [hlast, hlast, ih hsteps]
    generalize start.follow steps = way at hrooted
    cases c with
    | root => exact absurd (List.mem_append_right _ (List.mem_singleton_self _)) h
    | here => rfl
    | name n =>
      show ((up^[way.ups] s).down way.names).down [n] = (up^[way.ups] s).down (way.names ++ [n])
      rw [down, down, down, List.append_assoc]
    | parent =>
      by_cases hnames : way.names = []
      · have hup := up_of_names_eq_nil hnames hrooted
        show ((up^[way.ups] s).down way.names).up = (up^[way.up.ups] s).down way.up.names
        rw [hup, hnames, Function.iterate_succ_apply', down, down, List.append_nil, List.append_nil]
      · show ((up^[way.ups] s).down way.names).up = (up^[way.up.ups] s).down way.up.names
        rw [up_down hnames, up, if_pos hnames]

/-- Going up undoes names as long as there are any. -/
theorem iterate_up_of_le {k : Nat} (h : k ≤ s.names.length) :
    up^[k] s = { s with names := s.names.take (s.names.length - k) } := by
  induction k with
  | zero => simp
  | succ k ih =>
    have hne : s.names.take (s.names.length - k) ≠ [] := by
      rw [Ne, List.take_eq_nil_iff, ← List.length_eq_zero_iff]
      omega
    have hless : s.names.length - k - 1 = s.names.length - (k + 1) := by omega
    rw [Function.iterate_succ_apply', ih (by omega), up, if_pos hne, List.dropLast_eq_take,
      List.take_take, List.length_take, Nat.min_eq_left (Nat.sub_le _ _), hless,
      Nat.min_eq_left (by omega)]

theorem iterate_up_of_rooted {k : Nat} (h : s.names.length ≤ k) (hrooted : s.rooted = true) :
    up^[k] s = { s with names := [] } := by
  induction k, h using Nat.le_induction with
  | base => rw [iterate_up_of_le le_rfl, Nat.sub_self, List.take_zero]
  | succ k _ ih => rw [Function.iterate_succ_apply', ih, up, if_neg (by simp), if_pos hrooted]

/-- Where no name is left to be undone, a way that does not begin at the root leads up. -/
theorem iterate_up_of_not_rooted {k : Nat} (h : s.names.length ≤ k) (hrooted : s.rooted = false) :
    up^[k] s = { s with names := [], ups := s.ups + (k - s.names.length) } := by
  induction k, h using Nat.le_induction with
  | base => rw [iterate_up_of_le le_rfl, Nat.sub_self, List.take_zero, Nat.add_zero]
  | succ k hk ih =>
    have hmore : s.ups + (k - s.names.length) + 1 = s.ups + (k + 1 - s.names.length) := by omega
    rw [Function.iterate_succ_apply', ih, up_of_names_eq_nil (s := ⟨_, _, []⟩) rfl hrooted, hmore]

/-- A way from a spot ends in or below it when it goes up through names of the spot only, and then
down again through these same names. -/
theorem isWithin_follow_iff (s : Spot) (h : .root ∉ steps) :
    (s.follow steps).IsWithin s ↔
      ((start.follow steps).ups ≤ s.names.length ∨ s.rooted = true) ∧
        s.names.drop (s.names.length - (start.follow steps).ups) <+:
          (start.follow steps).names := by
  rw [follow_eq s h]
  generalize start.follow steps = way
  by_cases hups : way.ups ≤ s.names.length
  · rw [iterate_up_of_le hups, IsWithin, down]
    -- both lists begin with the names that the way leaves alone
    have hback : s.names <+: s.names.take (s.names.length - way.ups) ++ way.names ↔
        s.names.drop (s.names.length - way.ups) <+: way.names := by
      conv_lhs => lhs; rw [← List.take_append_drop (s.names.length - way.ups) s.names]
      exact List.prefix_append_right_inj _
    exact ⟨fun hwithin => ⟨.inl hups, hback.mp hwithin.2.2⟩,
      fun hback' => ⟨rfl, rfl, hback.mpr hback'.2⟩⟩
  · have hle : s.names.length ≤ way.ups := by omega
    rw [Nat.sub_eq_zero_of_le hle, List.drop_zero]
    cases hrooted : s.rooted with
    | true =>
      rw [iterate_up_of_rooted hle hrooted, IsWithin, down, List.nil_append]
      exact ⟨fun hwithin => ⟨.inr rfl, hwithin.2.2⟩, fun hback => ⟨rfl, rfl, hback.2⟩⟩
    | false =>
      rw [iterate_up_of_not_rooted hle hrooted, IsWithin, down]
      constructor
      · rintro ⟨-, hsame, -⟩
        have hmore : s.ups + (way.ups - s.names.length) = s.ups := hsame
        omega
      · rintro ⟨habove | hnot, -⟩
        · exact absurd habove hups
        · cases hnot

theorem le_ups_follow (s : Spot) (h : .root ∉ steps) : s.ups ≤ (s.follow steps).ups := by
  induction steps generalizing s with
  | nil => exact le_rfl
  | cons c rest ih =>
    have hrest : (s.step c).ups ≤ ((s.step c).follow rest).ups :=
      ih _ (List.not_mem_of_not_mem_cons h)
    show s.ups ≤ ((s.step c).follow rest).ups
    cases c with
    | root => exact absurd rfl (List.ne_of_not_mem_cons h)
    | here => exact hrest
    | name n => exact hrest
    | parent =>
      have hup : s.ups ≤ s.up.ups := by
        rw [up]
        split
        · exact le_rfl
        · split
          · exact le_rfl
          · exact Nat.le_succ _
      exact hup.trans hrest

end Spot

namespace FilePath

/-- A step down. -/
def Component.isName : Component → Bool
  | .name _ => true
  | _ => false

end FilePath

namespace Spot

open FilePath (Component)

variable {s t : Spot} {steps : List Component} {ns : List Bytes}

/-- A way never leads up from where it begins when, wherever it is broken off, it has gone up no
more often than there were names to be undone. -/
theorem ups_follow_eq_iff (s : Spot) (h : .root ∉ steps) (hrooted : s.rooted = false) :
    (s.follow steps).ups = s.ups ↔ ∀ front, front <+: steps →
      front.count .parent ≤ s.names.length + front.countP Component.isName := by
  induction steps generalizing s with
  | nil => simp [follow]
  | cons c rest ih =>
    have hrest := List.not_mem_of_not_mem_cons h
    have hfronts : (∀ front, front <+: c :: rest →
          front.count .parent ≤ s.names.length + front.countP Component.isName) ↔
        ∀ front, front <+: rest →
          (c :: front).count .parent ≤ s.names.length + (c :: front).countP Component.isName := by
      constructor
      · exact fun hall front hfront => hall _ ((List.prefix_cons_inj c).mpr hfront)
      · intro hall front hfront
        rcases List.prefix_cons_iff.mp hfront with rfl | ⟨tail, rfl, htail⟩
        · exact Nat.zero_le _
        · exact hall tail htail
    rw [hfronts]
    cases c with
    | root => exact absurd rfl (List.ne_of_not_mem_cons h)
    | here => exact ih s hrest hrooted
    | name n =>
      rw [show (s.follow (.name n :: rest)).ups = s.ups ↔ _ from ih (s.down [n]) hrest hrooted]
      refine forall₂_congr fun front _ => ?_
      have hcount : (Component.name n :: front).count .parent = front.count .parent :=
        List.count_cons_of_ne (by simp)
      rw [hcount, List.countP_cons_of_pos rfl, down, List.length_append, List.length_singleton]
      omega
    | parent =>
      have hcount : ∀ front : List Component, (Component.parent :: front).count .parent =
          front.count .parent + 1 := fun front => List.count_cons_self
      have hcountP : ∀ front : List Component, (Component.parent :: front).countP Component.isName =
          front.countP Component.isName := fun front => List.countP_cons_of_neg nofun
      by_cases hnames : s.names = []
      · -- the way leads up at once
        have hle : s.ups + 1 ≤ (s.follow (.parent :: rest)).ups := by
          have hup : s.up.ups = s.ups + 1 := congrArg ups (up_of_names_eq_nil hnames hrooted)
          rw [← hup]
          exact le_ups_follow s.up hrest
        refine ⟨fun hsame => by omega, fun hall => ?_⟩
        have hfirst := hall [] List.nil_prefix
        rw [hcount, hcountP, hnames] at hfirst
        cases hfirst
      · have hlen : s.up.names.length = s.names.length - 1 := by
          rw [up, if_pos hnames, List.length_dropLast]
        have hups : s.up.ups = s.ups := by rw [up, if_pos hnames]
        have hpos : 0 < s.names.length := List.length_pos_iff.mpr hnames
        have hstep := ih s.up hrest ((rooted_up s).trans hrooted)
        rw [hups] at hstep
        refine hstep.trans (forall₂_congr fun front _ => ?_)
        rw [hcount, hcountP, hlen]
        omega

end Spot

namespace FilePath

variable {p root name : FilePath}

/-- Where a path leads by its text. -/
def spot (p : FilePath) : Spot := Spot.start.follow p.components

/-- The steps of a path after its start. -/
def stepsOf (p : FilePath) : List Component :=
  (p.names.filter fun n => n ≠ [dot]).map Component.ofName

theorem follow_components (s : Spot) (h : p.isAbsolute = false) :
    s.follow p.components = s.follow p.stepsOf := by
  have hp : p.components =
      if p.names.head? = some [dot] then .here :: p.stepsOf else p.stepsOf := by
    rw [components, h]
    rfl
  rw [hp]
  split <;> rfl

theorem spot_eq (p : FilePath) : p.spot = (⟨p.isAbsolute, 0, []⟩ : Spot).follow p.stepsOf := by
  cases h : p.isAbsolute with
  | false => exact follow_components _ h
  | true =>
    have hp : p.components = .root :: p.stepsOf := by
      rw [components, h]
      rfl
    rw [spot, hp]
    rfl

theorem root_not_mem_stepsOf (p : FilePath) : .root ∉ p.stepsOf := by
  intro h
  obtain ⟨n, -, hn⟩ := List.mem_map.mp h
  rw [Component.ofName] at hn
  split at hn <;> cases hn

theorem root_not_mem_components (h : p.isAbsolute = false) : .root ∉ p.components := by
  have hsteps := p.root_not_mem_stepsOf
  rw [components, h, if_neg Bool.false_ne_true]
  split
  · exact fun hroot => hsteps ((List.mem_cons.mp hroot).resolve_left nofun)
  · exact hsteps

theorem rooted_spot (p : FilePath) : p.spot.rooted = p.isAbsolute := by
  rw [spot_eq, Spot.rooted_follow _ p.root_not_mem_stepsOf]

theorem isAbsolute_join (h : name.isAbsolute = false) :
    (root.join name).isAbsolute = root.isAbsolute := by
  rw [join, h, if_neg Bool.false_ne_true]
  by_cases hempty : root.bytes = []
  · rw [if_pos hempty, h, isAbsolute, hempty]
    rfl
  · have hhead : ∀ more : Bytes, (root.bytes ++ more).head? = root.bytes.head? :=
      fun more => List.head?_append_of_ne_nil _ hempty
    rw [if_neg hempty]
    split
    · rw [isAbsolute, isAbsolute, hhead]
    · rw [isAbsolute, isAbsolute, hhead]

theorem names_join (h : name.isAbsolute = false) :
    (root.join name).names = root.names ++ name.names := by
  have hsep : ∀ front : Bytes, (⟨front ++ slash :: name.bytes⟩ : FilePath).names =
      (⟨front⟩ : FilePath).names ++ name.names := fun front => by
    rw [names, Text.splitOn_append_sep, List.filter_append]
    rfl
  rw [join, h, if_neg Bool.false_ne_true]
  by_cases hempty : root.bytes = []
  · have hnone : root.names = [] := by
      rw [names, hempty]
      rfl
    rw [if_pos hempty, hnone, List.nil_append]
  · rw [if_neg hempty]
    by_cases hslash : root.bytes.getLast? = some slash
    · -- a slash at the end of the root is the one between both
      obtain ⟨front, hfront⟩ := List.getLast?_eq_some_iff.mp hslash
      have hroot : root.names = (⟨front⟩ : FilePath).names := by
        rw [names, hfront, Text.splitOn_append_sep, List.filter_append]
        exact List.append_nil _
      rw [if_pos hslash, hfront, List.append_assoc, List.singleton_append, hsep, hroot]
    · rw [if_neg hslash, hsep]

/-- A path below another leads where its own steps lead from there. -/
theorem spot_join (h : name.isAbsolute = false) :
    (root.join name).spot = root.spot.follow name.components := by
  rw [follow_components _ h, spot_eq, spot_eq, isAbsolute_join h, ← Spot.follow_append, stepsOf,
    names_join h, List.filter_append, List.map_append]
  rfl

end FilePath

end LogSetup
