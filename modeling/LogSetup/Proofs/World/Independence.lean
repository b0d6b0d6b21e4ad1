import LogSetup.Proofs.World.Reports

/-!
# Calls for a configuration do not influence each other

A call for a configuration changes nothing but the catalog, and that only once: the first call that
goes through the stages of resolution makes the list of factories. So the calls of a sequence can be
told apart only by that: each has the answer that it would have alone, and after the first one each
does what it would do had the list been there before.

## Main definitions

- `Inquiry` : a call for a configuration
- `World.inquireAll` : calls one after another
- `World.frozen`, `World.settled` : the state in which the list is made, and the state after a call
- `World.Freezes` : a call beside the same call in the state in which the list is made

## Main statements

- `World.inquiries_independent` : the answers, the state and the events of any sequence of calls
-/

namespace LogSetup

/-- A call for a configuration, in the loading context of a thread or in a given one. -/
inductive Inquiry where
  | here (me : ThreadId) (name raw : Option String)
  | within (name : Option String) (location : Option Location) (context : LoadingContext)

def Catalog.frozen (c : Catalog) (list : List Descriptor) : Catalog :=
  { c with isInitialized := true, list }

namespace World

open Traced

variable {w : World} {α β : Type}

def inquire (w : World) : Inquiry → Traced (Except ResolveError Configuration × World)
  | .here me name raw => w.getConfiguration me name raw
  | .within name location context => w.getConfigurationIn name location context

/-- Make calls one after another. -/
def inquireAll (w : World) :
    List Inquiry → Traced (List (Except ResolveError Configuration) × World)
  | [] => pure ([], w)
  | q :: rest => do
    let (answer, w) ← w.inquire q
    let (answers, w) ← w.inquireAll rest
    pure (answer :: answers, w)

/-- Whether requests go through the stages of resolution, which need the list of factories. -/
def needsList (w : World) : Bool :=
  match w.currentActive with
  | .resolving => true
  | .custom _ => false

/-- The state in which the list of factories is made, and all else is as it is. -/
def frozen (w : World) : World := { w with catalog := w.catalog.frozen w.listed }

/-- The state after a call: the list of factories is made if it was needed, and all else is as it
was. -/
def settled (w : World) : World :=
  { w with catalog := if w.needsList then w.catalog.frozen w.listed else w.catalog }

/-- What happens when a call makes the list of factories. -/
def freezing (w : World) : List Event := if w.needsList then w.factories.events else []

/-! ### The list of factories -/

theorem value_factories (w : World) : w.factories.value = (w.listed, w.frozen) := by
  have hcatalog : (w.catalog.factories w.discovery).value.2 = w.catalog.frozen w.listed := by
    have hlisted : w.listed = (w.catalog.factories w.discovery).value.1 := rfl
    rw [hlisted]
    rcases w.catalog with ⟨holder, initialized, list⟩
    cases initialized <;> rfl
  refine Prod.ext rfl ?_
  show ({ w with catalog := (w.catalog.factories w.discovery).value.2 } : World) = w.frozen
  rw [hcatalog, frozen]

theorem events_factories_frozen (w : World) : w.frozen.factories.events = [] := rfl

theorem settled_of_needsList (h : w.needsList = true) : w.settled = w.frozen := by
  rw [settled, if_pos h, frozen]

theorem settled_of_not_needsList (h : w.needsList = false) : w.settled = w := by
  rw [settled, if_neg (by simp [h])]

/-! ### A call beside the same call with the list made -/

/-- A call beside the same call in the state in which the list of factories is made. They have the
same answer. The first may make the list on its way, and builds plug-ins only to do so. -/
structure Freezes (w : World) (x y : Traced (α × World)) : Prop where
  answer : x.value.1 = y.value.1
  state : x.value.2 = w.settled
  stays : y.value.2 = w.frozen
  events : ∃ front back, x.events = front ++ w.freezing ++ back ∧ y.events = front ++ back
  builds : ∀ candidate, .built candidate ∉ y.events

namespace Freezes

variable {x y : Traced (α × World)}

/-- The calls go on in the same way, whatever state they are in. -/
theorem bind {k : α × World → Traced (β × World)} {z : α → Traced β} (h : w.Freezes x y)
    (hk : ∀ a v, k (a, v) = (z a >>= fun b => pure (b, v)))
    (hz : ∀ a candidate, .built candidate ∉ (z a).events) : w.Freezes (x >>= k) (y >>= k) := by
  have hkx : k x.value = (z x.value.1 >>= fun b => pure (b, x.value.2)) := hk _ _
  have hky : k y.value = (z x.value.1 >>= fun b => pure (b, y.value.2)) := h.answer ▸ hk _ _
  obtain ⟨front, back, hxe, hye⟩ := h.events
  refine ⟨?_, ?_, ?_, ⟨front, back ++ (z x.value.1).events, ?_, ?_⟩, fun candidate => ?_⟩
  · rw [value_bind, value_bind, hkx, hky]
    rfl
  · rw [value_bind, hkx]
    exact h.state
  · rw [value_bind, hky]
    exact h.stays
  · rw [events_bind, hkx, hxe, ← List.append_assoc, events_bind, events_pure, List.append_nil]
  · rw [events_bind, hky, hye, ← List.append_assoc, events_bind, events_pure, List.append_nil]
  · rw [events_bind, hky, events_bind, events_pure, List.append_nil, List.mem_append, not_or]
    exact ⟨h.builds candidate, hz _ candidate⟩

/-- The same is done before the calls. -/
theorem after {z : Traced β} {x y : β → Traced (α × World)} (h : w.Freezes (x z.value) (y z.value))
    (hz : ∀ candidate, .built candidate ∉ z.events) : w.Freezes (z >>= x) (z >>= y) := by
  obtain ⟨front, back, hxe, hye⟩ := h.events
  refine ⟨h.answer, h.state, h.stays, ⟨z.events ++ front, back, ?_, ?_⟩, fun candidate => ?_⟩
  · rw [events_bind, hxe, ← List.append_assoc, ← List.append_assoc]
  · rw [events_bind, hye, List.append_assoc]
  · rw [events_bind, List.mem_append, not_or]
    exact ⟨hz candidate, h.builds candidate⟩

end Freezes

theorem freezes_resolve (h : w.needsList = true) (r : Request) :
    w.Freezes (w.resolve r) (w.frozen.resolve r) := by
  have hfreezing : w.freezing = w.factories.events := by rw [freezing, if_pos h]
  -- with no candidates at hand the stages have nothing to build
  have hreports : (w.frozen.resolve r).Reports ⟨r, w.listed, .empty⟩ :=
    (Resolution.reports_resolve (c := ⟨r, w.listed, .empty⟩) w.settings).bind (reports_pure _)
  refine ⟨rfl, ?_, rfl, ⟨[], (Resolution.resolve w.listed w.settings r).events, ?_, ?_⟩, ?_⟩
  · rw [settled_of_needsList h, resolve, value_bind, value_factories]
    rfl
  · rw [resolve, events_bind, value_factories, hfreezing]
    simp only [events_bind, events_pure, List.append_nil, List.nil_append]
    rfl
  · rw [resolve, events_bind, events_factories_frozen]
    simp only [events_bind, events_pure, List.append_nil, List.nil_append]
    rfl
  · exact hreports.built_not_mem rfl

/-- What the stages of resolution make of their answer as a factory. -/
def asAnswer : Except ResolveError Configuration → Traced Answer
  | .ok c => pure (.ok (some c))
  | .error (.factory e) => pure (.error e)
  | .error e => report .error e.message >>= fun _ => pure (.ok none)

theorem freezes_resolveAsFactory (h : w.needsList = true) (r : Request) :
    w.Freezes (w.resolveAsFactory r) (w.frozen.resolveAsFactory r) := by
  refine (freezes_resolve h r).bind (z := asAnswer) (fun answer v => ?_) fun answer candidate => ?_
  · rcases answer with e | configuration
    · cases e <;> rfl
    · rfl
  · rcases answer with e | configuration
    · cases e <;> simp [asAnswer]
    · exact List.not_mem_nil

theorem getConfigurationIn_of_none (hactive : w.active = none) (name : Option String)
    (location : Option Location) (c : LoadingContext) :
    w.getConfigurationIn name location c = w.resolve (w.request name location c) := by
  rw [getConfigurationIn, hactive]

/-- What a call makes of the answer of a factory. -/
def accept (f : ActiveFactory) : Answer → Except ResolveError Configuration
  | .ok (some c) => .ok c
  | .ok none => .error (.declined f.name)
  | .error e => .error (.factory e)

theorem getConfigurationIn_of_set {f : ActiveFactory} (hactive : w.active = some f)
    (name : Option String) (location : Option Location) (c : LoadingContext) :
    w.getConfigurationIn name location c =
      (w.configurationFor f (w.request name location c) >>= fun answer =>
        pure (accept f answer.1, answer.2)) := by
  rw [getConfigurationIn, hactive]
  refine congrArg (w.configurationFor f (w.request name location c) >>= ·) (funext fun answer => ?_)
  rcases answer with ⟨e | _ | configuration, v⟩ <;> rfl

theorem built_not_mem_configurationFor (f : Factory) (r : Request) (candidate : Nat) :
    .built candidate ∉ (f.configurationFor r).events := by
  have hopened : ∀ location,
      .built candidate ∉ (r.locator.openPreferringContext location).events := fun location =>
    (Locator.reports_openPreferringContext (c := ⟨r, [], .empty⟩) location).built_not_mem rfl _
  have hparsed : .built candidate ∉ (f.openAndParse r).events := by
    rw [Factory.openAndParse]
    split
    · rename_i location _ _
      rw [events_bind, List.mem_append, not_or]
      refine ⟨hopened location, ?_⟩
      cases (r.locator.openPreferringContext location).value <;> simp [Factory.read]
    · exact List.not_mem_nil
  rw [Factory.configurationFor]
  cases f.own r with
  | some answer => simp
  | none => simpa using hparsed

theorem freezes_pure (h : w.needsList = false) (a : α) :
    w.Freezes (pure (a, w)) (pure (a, w.frozen)) := by
  refine ⟨rfl, (settled_of_not_needsList h).symm, rfl, ⟨[], [], ?_, rfl⟩, fun _ => ?_⟩
  · rw [freezing, if_neg (by simp [h])]
    rfl
  · exact List.not_mem_nil

theorem freezes_configurationFor {f : ActiveFactory} (hactive : w.active = some f) (r : Request) :
    w.Freezes (w.configurationFor f r) (w.frozen.configurationFor f r) := by
  have hcurrent : w.currentActive = f := by rw [currentActive, hactive, Option.getD_some]
  cases f with
  | resolving => exact freezes_resolveAsFactory (by rw [needsList, hcurrent]) r
  | custom f =>
    have hneeds : w.needsList = false := by rw [needsList, hcurrent]
    exact Freezes.after (freezes_pure hneeds _) (built_not_mem_configurationFor f r)

theorem freezes_getConfigurationIn (w : World) (name : Option String) (location : Option Location)
    (c : LoadingContext) :
    w.Freezes (w.getConfigurationIn name location c)
      (w.frozen.getConfigurationIn name location c) := by
  cases hactive : w.active with
  | none =>
    have hneeds : w.needsList = true := by rw [needsList, currentActive, hactive, Option.getD_none]
    have hresolve := freezes_resolve hneeds (w.request name location c)
    have hfrozen : w.frozen.active = none := hactive
    rw [getConfigurationIn_of_none hactive, getConfigurationIn_of_none hfrozen]
    exact hresolve
  | some f =>
    have hfrozen : w.frozen.active = some f := hactive
    rw [getConfigurationIn_of_set hactive, getConfigurationIn_of_set hfrozen]
    exact (freezes_configurationFor hactive _).bind (z := fun answer => pure (accept f answer))
      (fun _ _ => rfl) fun _ _ => List.not_mem_nil

theorem freezes_inquire (w : World) (q : Inquiry) :
    w.Freezes (w.inquire q) (w.frozen.inquire q) := by
  cases q with
  | within name location c => exact w.freezes_getConfigurationIn name location c
  | here me name raw =>
    have hread : ∀ candidate, .built candidate ∉ (readLocation raw).events :=
      (reports_readLocation ⟨w.requestOf me name raw, [], .empty⟩ raw).built_not_mem rfl
    have hcall := w.freezes_getConfigurationIn name (readLocation raw).value (w.findContext me)
    exact Freezes.after (z := readLocation raw)
      (x := fun location => w.getConfigurationIn name location (w.findContext me))
      (y := fun location => w.frozen.getConfigurationIn name location (w.findContext me)) hcall hread

/-! ### Calls one after another -/

/-- After a call, each call has the answer that it would have had before, and does what it would do
with the list made. -/
theorem inquire_settled (w : World) (q : Inquiry) :
    w.settled.inquire q = ⟨((w.inquire q).value.1, w.settled), (w.frozen.inquire q).events⟩ := by
  have hcall := w.freezes_inquire q
  by_cases hneeds : w.needsList = true
  · rw [settled_of_needsList hneeds]
    ext1
    · exact Prod.ext hcall.answer.symm hcall.stays
    · rfl
  · have hneeds : w.needsList = false := by simpa using hneeds
    obtain ⟨front, back, hevents, hfrozen⟩ := hcall.events
    rw [settled_of_not_needsList hneeds]
    ext1
    · exact Prod.ext rfl (hcall.state.trans (settled_of_not_needsList hneeds))
    · rw [freezing, if_neg (by simp [hneeds]), List.append_nil] at hevents
      rw [hevents, hfrozen]

theorem inquireAll_settled (w : World) (qs : List Inquiry) :
    w.settled.inquireAll qs =
      ⟨(qs.map fun q => (w.inquire q).value.1, w.settled),
        qs.flatMap fun q => (w.frozen.inquire q).events⟩ := by
  induction qs with
  | nil => rfl
  | cons q rest ih =>
    rw [inquireAll, inquire_settled]
    ext1
    · simp only [value_bind, ih, value_pure, List.map_cons]
    · simp only [events_bind, ih, events_pure, List.append_nil, List.flatMap_cons]

theorem inquireAll_cons (w : World) (q : Inquiry) (rest : List Inquiry) :
    w.inquireAll (q :: rest) =
      ⟨((q :: rest).map fun q => (w.inquire q).value.1, w.settled),
        (w.inquire q).events ++ rest.flatMap fun q => (w.frozen.inquire q).events⟩ := by
  have hstate : (w.inquire q).value = ((w.inquire q).value.1, w.settled) :=
    Prod.ext rfl (w.freezes_inquire q).state
  rw [inquireAll]
  ext1
  · rw [value_bind, hstate]
    simp only [value_bind, inquireAll_settled, value_pure, List.map_cons]
  · rw [events_bind, hstate]
    simp only [events_bind, inquireAll_settled, events_pure, List.append_nil]

theorem buildsOf_eq_zero {es : List Event} {candidate : Nat} (h : .built candidate ∉ es) :
    buildsOf candidate es = 0 := by
  refine List.countP_eq_zero.mpr fun e he => ?_
  rw [beq_iff_eq]
  rintro rfl
  exact h he

theorem Freezes.buildsOf_eq {x y : Traced (α × World)} (h : w.Freezes x y) (candidate : Nat) :
    buildsOf candidate x.events = buildsOf candidate w.freezing ∧
      buildsOf candidate y.events = 0 := by
  have hnone := buildsOf_eq_zero (h.builds candidate)
  obtain ⟨front, back, hx, hy⟩ := h.events
  refine ⟨?_, hnone⟩
  rw [hy, buildsOf_append] at hnone
  rw [hx, buildsOf_append, buildsOf_append]
  omega

/-- Calls for a configuration do not influence each other. A call has the answer that it would have
with the list of factories made, and of the state it leaves all as it is but the list, which it makes
if it needs it; what it does on top of a call with the list made is to make the list. In a sequence of
calls, each thus has the answer that it would have alone, wherever it stands and however often it is
repeated; all of them together change what the first one changes; and each call after the first one
does, and reports, exactly what it would with the list made. Plug-ins are built only when the list is
made. -/
theorem inquiries_independent (w : World) :
    (∀ q, w.Freezes (w.inquire q) (w.frozen.inquire q)) ∧
    (∀ qs, (w.inquireAll qs).value =
      (qs.map fun q => (w.inquire q).value.1, if qs.isEmpty then w else w.settled)) ∧
    (∀ q rest, (w.inquireAll (q :: rest)).events =
      (w.inquire q).events ++ rest.flatMap fun q => (w.frozen.inquire q).events) ∧
    ∀ q rest candidate, buildsOf candidate (w.inquireAll (q :: rest)).events =
      buildsOf candidate w.freezing := by
  refine ⟨w.freezes_inquire, fun qs => ?_, fun q rest => ?_, fun q rest candidate => ?_⟩
  · cases qs with
    | nil => rfl
    | cons q rest => rw [inquireAll_cons, List.isEmpty_cons, if_neg Bool.false_ne_true]
  · rw [inquireAll_cons]
  · have hrest : .built candidate ∉ rest.flatMap fun q => (w.frozen.inquire q).events := by
      intro hmem
      obtain ⟨q, -, hq⟩ := List.mem_flatMap.mp hmem
      exact (w.freezes_inquire q).builds candidate hq
    rw [inquireAll_cons, buildsOf_append, ((w.freezes_inquire q).buildsOf_eq candidate).1,
      buildsOf_eq_zero hrest, Nat.add_zero]

end World

end LogSetup
