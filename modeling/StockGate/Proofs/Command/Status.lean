import StockGate.Proofs.Gate.Limits
import StockGate.Proofs.Settings.Start

namespace StockGate

theorem Gate.callAll_single (g : Gate) {p : Plan} (h : p.cancelAfter = none) :
    ∃ e time, (g.callAll [p]).2 = [(.evaluated e, time)] := by
  have hmet := Clockwork.met_callAll g [p]
  generalize (g.callAll [p]).2 = results at hmet ⊢
  cases hmet with
  | @cons _ x _ xs hx hxs =>
    cases hxs
    rcases hx with ⟨-, hcancel⟩ | ⟨-, e, he, -⟩
    · exact absurd h hcancel
    · obtain ⟨r, time⟩ := x
      exact ⟨e, time, by rw [show r = .evaluated e from he]⟩

namespace Command

variable {x : Surroundings} {args : List String} {a : Arguments} {s : Settings} {w : Wiring}

def request (x : Surroundings) (a : Arguments) : Except RequestError Request :=
  Request.make a.product a.quantity ⟨x.correlationId, a.user, .empty⟩

/-- How a run ends: at its arguments, at its settings, at its request, or with a verdict. -/
inductive Ended (x : Surroundings) (args : List String) : Except Failure Evaluation → Prop
  | arguments {f : ArgumentFault} (ha : Arguments.parse args = .error f) :
      Ended x args (.error (.arguments f))
  | settings {a : Arguments} {e : LoadError} (ha : Arguments.parse args = .ok a)
      (hs : settings x a.config = .error e) : Ended x args (.error (.settings e))
  | request {a : Arguments} {s : Settings} {e : RequestError} (ha : Arguments.parse args = .ok a)
      (hs : settings x a.config = .ok s) (hq : request x a = .error e) :
      Ended x args (.error (.request e))
  | verdict {a : Arguments} {s : Settings} {w : Wiring} {q : Request} {e : Evaluation} {time : Nat}
      (ha : Arguments.parse args = .ok a) (hs : settings x a.config = .ok s)
      (hw : Wiring.ofSettings s = .ok w) (hq : request x a = .ok q)
      (he : ((w.gate s.policy x.catalog x.flags).callAll [{ request := q, draws := x.draws }]).2 =
        [(.evaluated e, time)]) : Ended x args (.ok e)

theorem ended_validate (ha : Arguments.parse args = .ok a) (hs : settings x a.config = .ok s)
    (hw : Wiring.ofSettings s = .ok w) : Ended x args (validate x a s w).result := by
  unfold validate
  cases hq : Request.make a.product a.quantity ⟨x.correlationId, a.user, .empty⟩ with
  | error e => exact .request ha hs hq
  | ok q =>
    obtain ⟨e, time, he⟩ := (w.gate s.policy x.catalog x.flags).callAll_single
      (p := { request := q, draws := x.draws }) rfl
    simp only [he]
    exact .verdict ha hs hw hq he

/-- Settings that could be loaded always make a gate, and its one call always returns. -/
theorem ended_run (x : Surroundings) (args : List String) : Ended x args (run x args).result := by
  unfold run
  cases ha : Arguments.parse args with
  | error f => exact .arguments ha
  | ok a =>
    cases hs : settings x a.config with
    | error e =>
      simp only [hs]
      exact .settings ha hs
    | ok s =>
      obtain ⟨-, w, -, hw, -⟩ := (Settings.starts_of_errors (settings_errors hs)).wiring
      simp only [hs, hw]
      exact ended_validate ha hs hw

/-- The run comes to an end between its arguments, which can be read, and its validation. -/
def Stopped (x : Surroundings) (args : List String) : Prop :=
  ∃ a, Arguments.parse args = .ok a ∧ ((∃ e, settings x a.config = .error e) ∨
    (∃ s, settings x a.config = .ok s) ∧ ∃ e, request x a = .error e)

namespace Report

variable {r : Report} {e : Evaluation} {f : Failure} {v : Verdict}

def Gives (r : Report) (v : Verdict) : Prop :=
  ∃ e, r.result = .ok e ∧ e.verdict = v

/-- The status alone tells a rejection, and which one, from all else that can become of a run. -/
structure Tells (r : Report) : Prop where
  business : r.code = 2 ↔ ∃ shortage, r.Gives (.rejectBusiness shortage)
  system : r.code = 3 ↔ r.Gives .rejectSystem
  apart : ∀ f, r.result = .error f → f ≠ .arguments .help →
    r.code ≠ 0 ∧ r.code ≠ 2 ∧ r.code ≠ 3

structure Coded (x : Surroundings) (args : List String) (r : Report) : Prop where
  zero : r.code = 0 ↔ (∃ degraded, r.Gives (.allow degraded)) ∨
    Arguments.parse args = .error .help
  one : r.code = 1 ↔ Stopped x args
  two : r.code = 2 ↔ (∃ shortage, r.Gives (.rejectBusiness shortage)) ∨
    ∃ f, Arguments.parse args = .error f ∧ f ≠ .help
  three : r.code = 3 ↔ r.Gives .rejectSystem

theorem code_of_ok (h : r.result = .ok e) : r.code = verdictCode e.verdict := by
  rw [code, h]

theorem code_of_error (h : r.result = .error f) : r.code = failureCode f := by
  rw [code, h]

theorem gives_iff (h : r.result = .ok e) : r.Gives v ↔ e.verdict = v := by
  simp [Gives, h]

theorem not_gives (h : r.result = .error f) (v : Verdict) : ¬ r.Gives v := by
  simp [Gives, h]

theorem coded_of_arguments {fault : ArgumentFault} (ha : Arguments.parse args = .error fault)
    (hr : r.result = .error (.arguments fault)) : Coded x args r := by
  have hcode := code_of_error hr
  constructor <;> cases fault <;> simp [hcode, failureCode, not_gives hr, Stopped, ha]

theorem coded_of_stopped (hs : Stopped x args) (hr : r.result = .error f)
    (hf : failureCode f = 1) : Coded x args r := by
  have hcode := (code_of_error hr).trans hf
  obtain ⟨a, ha, -⟩ := id hs
  constructor <;> simp [hcode, not_gives hr, hs, ha]

theorem coded_of_verdict (ha : Arguments.parse args = .ok a) (hs : ¬ Stopped x args)
    (hr : r.result = .ok e) : Coded x args r := by
  have hcode := code_of_ok hr
  constructor <;> cases hv : e.verdict <;> simp [hcode, verdictCode, gives_iff hr, hv, hs, ha]

theorem coded_of_ended (h : Ended x args r.result) : Coded x args r := by
  generalize hr : r.result = result at h
  cases h with
  | arguments ha => exact coded_of_arguments ha hr
  | settings ha hs => exact coded_of_stopped ⟨_, ha, .inl ⟨_, hs⟩⟩ hr rfl
  | request ha hs hq => exact coded_of_stopped ⟨_, ha, .inr ⟨⟨_, hs⟩, _, hq⟩⟩ hr rfl
  | verdict ha hs _ hq =>
    refine coded_of_verdict ha ?_ hr
    rintro ⟨a', ha', ⟨e, he⟩ | ⟨-, e, he⟩⟩
    all_goals obtain rfl := Except.ok.inj (ha.symm.trans ha')
    · exact absurd (he.symm.trans hs) nofun
    · exact absurd (he.symm.trans hq) nofun

theorem Coded.tells_iff (h : Coded x args r) (hended : Ended x args r.result) :
    r.Tells ↔ ∀ f, Arguments.parse args = .error f → f = .help := by
  -- Only the one status that has two meanings can keep a run from being told by it.
  constructor
  · intro ht f hf
    by_contra hne
    obtain ⟨shortage, e, he, -⟩ := ht.business.mp (h.two.mpr (.inr ⟨f, hf, hne⟩))
    rw [he] at hended
    cases hended with
    | verdict ha => exact absurd (ha.symm.trans hf) nofun
  · intro hread
    refine ⟨?_, h.three, ?_⟩
    · rw [h.two, or_iff_left]
      rintro ⟨f, hf, hne⟩
      exact hne (hread f hf)
    · intro f hr hne
      have hstopped : Stopped x args := by
        rw [hr] at hended
        cases hended with
        | arguments ha => exact absurd (congrArg _ (hread _ ha)) hne
        | settings ha hs => exact ⟨_, ha, .inl ⟨_, hs⟩⟩
        | request ha hs hq => exact ⟨_, ha, .inr ⟨⟨_, hs⟩, _, hq⟩⟩
      rw [h.one.mpr hstopped]
      decide

end Report

/-- Every run ends at its arguments, its settings or its request, or with the verdict of its call.
Its status tells which of the rejections that verdict is, and no other end has the status of one or
of an admission, just if its arguments can be read or ask for help. -/
theorem status_tells_iff (x : Surroundings) (args : List String) :
    ((run x args).Tells ↔ ∀ f, Arguments.parse args = .error f → f = .help) ∧
    (run x args).Coded x args ∧ Ended x args (run x args).result := by
  have hended := ended_run x args
  have hcoded := Report.coded_of_ended hended
  exact ⟨hcoded.tells_iff hended, hcoded, hended⟩

/-- No file, and no answer from anywhere. -/
def nowhere : Surroundings where
  file := fun _ => none
  logFilter := none
  canListen := fun _ => false
  catalog := fun _ _ => .never
  flags := fun _ _ => .never
  correlationId := ⟨0⟩
  draws := fun _ => 0

/-- A quantity in words has the status of a lamp that is out of stock. -/
theorem unreadable_quantity_looks_like_shortage :
    (run nowhere ["lamp", "many"]).result = .error (.arguments .notQuantity) ∧
      (run nowhere ["lamp", "many"]).code = 2 ∧ ¬ (run nowhere ["lamp", "many"]).Tells := by
  have hparse : Arguments.parse ["lamp", "many"] = .error .notQuantity := by decide +kernel
  have hresult : (run nowhere ["lamp", "many"]).result = .error (.arguments .notQuantity) := by
    rw [run, hparse]
  refine ⟨hresult, Report.code_of_error hresult, fun ht => ?_⟩
  exact (ht.apart _ hresult nofun).2.1 (Report.code_of_error hresult)

end Command
end StockGate
