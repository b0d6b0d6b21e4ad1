import LogSetup.Factories.Factory
import LogSetup.Plugins.Table
import LogSetup.Proofs.Events.Runs
import Mathlib.Data.List.Forall2

/-!
# Failures and their reports

Set-up code questions a loader, factories and candidates. An answer that is an error is a failure,
and it is noted where it occurs. A history reports its failures when each of them is followed at once
by a status message of its own that contains the wording of the error.

## Main definitions

- `Failure.IsIn` : a message that contains the wording of a failure
- `Callees` : those that set-up code questions during a call
- `Callees.Answers`, `Callees.Raises` : what a question comes to, as they would answer it
- `AllReported` : the errors that they answer with are failures, and each one is reported

## Main statements

- `AllReported.sublistForall₂` : failures and their reports match one to one, in order
-/

namespace LogSetup

/-! ### Messages that contain a wording -/

namespace Text

theorem hasInside_append (front needle : List Char) : hasInside needle (front ++ needle) = true := by
  induction front with
  | nil =>
    cases needle with
    | nil => rfl
    | cons c rest =>
      have hneedle : (c :: rest).isPrefixOf (c :: rest) = true :=
        List.isPrefixOf_iff_prefix.mpr List.prefix_rfl
      rw [List.nil_append, hasInside, hneedle, Bool.true_or]
  | cons c rest ih => rw [List.cons_append, hasInside, ih, Bool.or_true]

theorem contains_append (front needle : String) : contains needle (front ++ needle) = true := by
  rw [contains, String.toList_append]
  exact hasInside_append front.toList needle.toList

end Text

/-- A status message contains the wording of a failure. -/
def Failure.IsIn (f : Failure) (m : StatusMessage) : Prop := Text.contains f.message m.text = true

theorem Failure.isIn_append {f : Failure} (level : Level) (front : String) {text : String}
    (h : text = front ++ f.message) : f.IsIn ⟨level, text⟩ := by
  rw [IsIn, h]
  exact Text.contains_append front f.message

theorem Failure.isIn_self {f : Failure} (level : Level) {text : String} (h : text = f.message) :
    f.IsIn ⟨level, text⟩ :=
  isIn_append level "" (h.trans (String.empty_append).symm)

/-! ### Questions and their answers -/

/-- The failure that an answer is, if it is an error. -/
def failureOf {ε α : Type} (failure : ε → Failure) : Except ε α → Option Failure
  | .ok _ => none
  | .error e => some (failure e)

/-- Those that set-up code questions on behalf of a request. -/
structure Callees where
  request : Request
  listed : List Descriptor
  plugins : PluginTable Factory

namespace Callees

/-- The loader that is questioned, in its loading context. -/
def locator (c : Callees) : Locator := c.request.locator

/-- A question that left this event comes to this failure, or to none. -/
inductive Answers (c : Callees) : Event → Option Failure → Prop
  | resource (name : String) :
      Answers c (.lookup c.locator.context.loader (.resource name))
        (failureOf .load (c.locator.loader.loadResource name))
  | file (p : FilePath) :
      Answers c (.lookup c.locator.context.loader (.file p))
        (failureOf .load (c.locator.loader.openFile p))
  | url (u : Url) :
      Answers c (.lookup c.locator.context.loader (.url u))
        (failureOf .load (c.locator.loader.openUrl u))
  | parsed {d : Descriptor} (s : Source) (h : d ∈ c.listed) :
      Answers c (.parsed d.factory.id s) (failureOf .factory (d.factory.parse s))
  /-- A factory that has no answer of its own goes on to open the location of the request. -/
  | asked {d : Descriptor} (h : d ∈ c.listed) :
      Answers c (.asked d.factory.id) ((d.factory.own c.request).bind (failureOf .factory))
  | built {k : Candidate Factory} (h : k ∈ c.plugins.candidates factoryCategory) :
      Answers c (.built k.id) (failureOf .plugin k.outcome)

/-- A failure of a question that leaves no event: a text is no location, or a name is not
registered. -/
inductive Raises (c : Callees) : Failure → Prop
  | location {raw : String} {e : LoadError} (h : Location.parse raw = .error e) : Raises c (.load e)
  | plugin {name : String} {e : PluginError} (h : c.plugins.find factoryCategory name = .error e) :
      Raises c (.plugin e)

end Callees

/-- The errors in a history are those that the callees answered with. Each is noted as a failure
where it occurred, and is followed at once by a status message of its own that contains its
wording. -/
inductive AllReported (c : Callees) : List Event → Prop
  | nil : AllReported c []
  | status {es : List Event} (m : StatusMessage) (rest : AllReported c es) :
      AllReported c (.status m :: es)
  | answered {e : Event} {es : List Event} (h : c.Answers e none) (rest : AllReported c es) :
      AllReported c (e :: es)
  | failed {e : Event} {f : Failure} {m : StatusMessage} {es : List Event}
      (h : c.Answers e (some f)) (hm : f.IsIn m) (rest : AllReported c es) :
      AllReported c (e :: .failed f :: .status m :: es)
  | raised {f : Failure} {m : StatusMessage} {es : List Event} (h : c.Raises f) (hm : f.IsIn m)
      (rest : AllReported c es) : AllReported c (.failed f :: .status m :: es)

namespace AllReported

variable {c : Callees} {es fs : List Event}

theorem append (h : AllReported c es) (h' : AllReported c fs) : AllReported c (es ++ fs) := by
  induction h with
  | nil => exact h'
  | status m _ ih => exact ih.status m
  | answered hanswer _ ih => exact ih.answered hanswer
  | failed hanswer hm _ ih => exact ih.failed hanswer hm
  | raised hraise hm _ ih => exact ih.raised hraise hm

theorem flatMap {α : Type} {as : List α} {f : α → List Event}
    (h : ∀ a ∈ as, AllReported c (f a)) : AllReported c (as.flatMap f) := by
  induction as with
  | nil => exact nil
  | cons a rest ih =>
    rw [List.flatMap_cons]
    exact (h a List.mem_cons_self).append (ih fun b hb => h b (List.mem_cons_of_mem a hb))

/-- No plug-in is built where there are no candidates. -/
theorem built_not_mem (h : AllReported c es)
    (hnone : c.plugins.candidates factoryCategory = []) (candidate : Nat) :
    .built candidate ∉ es := by
  have hquestion {e : Event} {f : Option Failure} (he : c.Answers e f) : .built candidate ≠ e := by
    rintro rfl
    cases he with
    | built hk => simp [hnone] at hk
  induction h with
  | nil => exact List.not_mem_nil
  | status m _ ih => simpa using ih
  | answered hanswer _ ih => simpa [hquestion hanswer] using ih
  | failed hanswer _ _ ih => simpa [hquestion hanswer] using ih
  | raised _ _ _ ih => simpa using ih

end AllReported

namespace Traced

variable {c : Callees} {α β ε : Type}

/-- The failures of a call are reported. -/
def Reports (c : Callees) (x : Traced α) : Prop := AllReported c x.events

theorem reports_pure (a : α) : (pure a : Traced α).Reports c := .nil

theorem reports_report (level : Level) (text : String) : (report level text).Reports c :=
  .status _ .nil

theorem Reports.bind {x : Traced α} {f : α → Traced β} (hx : x.Reports c)
    (hf : (f x.value).Reports c) : (x >>= f).Reports c :=
  AllReported.append hx hf

theorem Reports.firstSome {call : α → Traced (Option β)} {as : List α}
    (h : ∀ a ∈ as, (call a).Reports c) : (firstSome call as).Reports c := by
  rw [Reports, events_firstSome]
  exact .flatMap fun a ha => h a (mem_of_mem_upTo ha)

/-- An error is caught when a message with its wording is reported before anything else is done. -/
def Catches (f : Failure) (x : Traced β) : Prop :=
  ∃ level text, ∃ b : β, f.IsIn ⟨level, text⟩ ∧ x = (report level text >>= fun _ => pure b)

variable {failure : ε → Failure} {answer : Except ε α} {k : Except ε α → Traced β}

theorem reports_settle (hok : ∀ a, answer = .ok a → (k answer).Reports c)
    (hraise : ∀ e, answer = .error e → c.Raises (failure e))
    (hcatch : ∀ e, answer = .error e → Catches (failure e) (k answer)) :
    (settle failure answer >>= k).Reports c := by
  cases answer with
  | ok a => exact hok a rfl
  | error e =>
    obtain ⟨level, text, b, hm, hk⟩ := hcatch e rfl
    rw [Reports, events_bind, value_settle, hk]
    exact .raised (hraise e rfl) hm .nil

/-- A question whose error is caught. -/
theorem reports_question {e : Event} (hanswer : c.Answers e (failureOf failure answer))
    (hok : ∀ a, answer = .ok a → (k answer).Reports c)
    (hcatch : ∀ err, answer = .error err → Catches (failure err) (k answer)) :
    ((emit e >>= fun _ => settle failure answer) >>= k).Reports c := by
  cases answer with
  | ok a => exact .answered hanswer (hok a rfl)
  | error err =>
    obtain ⟨level, text, b, hm, hk⟩ := hcatch err rfl
    rw [Reports, events_bind, value_bind, value_settle, hk]
    exact .failed hanswer hm .nil

end Traced

end LogSetup
