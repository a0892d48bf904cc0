import StockGate.Gate.Basic

namespace StockGate

inductive CallStage where
  | asking (answer : Awaited FlagAnswer)
  | validating (permit : Permit) (v : Validation)

/-- A call first waits for the flag, then for its validation. Between two waits other
calls may use the gate. -/
structure Call where
  request : Request
  /-- The policy in force when the call arrived. -/
  policy : Policy
  /-- The state of the circuit when the call arrived. -/
  circuit : CircuitState
  /-- The jitter drawn before each retry. -/
  draws : Nat → Nat
  stage : CallStage

/-- How a call can end. -/
inductive CallResult where
  | evaluated (e : Evaluation)
  | cancelled
  /-- The delay before a retry was longer than any duration. -/
  | overflown
  deriving DecidableEq

inductive CallAdvance where
  | waiting
  | moved (c : Call)
  | over (r : CallResult)

inductive CallStatus where
  | waiting (c : Call)
  | over (r : CallResult)

namespace Call

/-- The time at which there is something to do again. -/
def wake (c : Call) : Nat :=
  match c.stage with
  | .asking w => w.ends
  | .validating _ v => v.wake

def rank (c : Call) : Nat :=
  match c.stage with
  | .asking _ => 2 * c.policy.maxRetries.toNat + 1
  | .validating _ v => v.rank

def trace (c : Call) (recorded : Option Span) : Trace :=
  ⟨c.request.product, c.request.quantity, c.request.caller.correlationId, c.circuit, recorded⟩

end Call

namespace Gate

def begin (g : Gate) (r : Request) (draws : Nat → Nat) : Gate × Call :=
  let (flags, answer) := g.flag.ask g.now g.flags (g.flag.question r)
  ({ g with flags }, ⟨r, g.policy, g.breaker.state, draws, .asking answer⟩)

def finish (g : Gate) (c : Call) (f : Finding) : Gate × CallAdvance :=
  let outcome := Outcome.of c.request f
  let e : Evaluation := ⟨decideOn outcome c.policy, outcome⟩
  let span := Span.of c.request outcome c.circuit e.verdict.isDegraded
  let g := (g.noteFailure e).emitSpan span
  (g.traced (c.trace (if g.emitter.traces then some span else none)), .over (.evaluated e))

def validate (g : Gate) (c : Call) : Gate × CallAdvance :=
  let (g, admission) := g.enter c.policy
  match admission with
  | .refused state => (g.logged [.lookupShed state]).finish c .shed
  | .granted permit =>
    let (catalog, v) :=
      Validation.start g.now g.catalog c.request (.after g.now c.policy.timeout) c.policy
    ({ g with catalog }, .moved { c with stage := .validating permit v })

/-- The flag's answer, `none` being one that is late. -/
def afterFlag (g : Gate) (c : Call) (answer : Option FlagAnswer) : Gate × CallAdvance :=
  let g := g.logged (g.flag.events g.flag.key answer)
  if FlagGate.enabled answer then g.validate c else g.finish c .skipped

/-- A call that stops before its end leaves a trace without a record. -/
def cancel (g : Gate) (c : Call) : Gate :=
  let g :=
    match c.stage with
    | .asking _ => g
    | .validating permit _ => g.release permit
  g.traced (c.trace none)

/-- The finding goes to the breaker before it becomes a verdict. -/
def afterValidation (g : Gate) (c : Call) (permit : Permit) :
    ValidationAdvance → Gate × CallAdvance
  | .waiting => (g, .waiting)
  | .moved v => (g, .moved { c with stage := .validating permit v })
  | .finished f => (g.record permit (Outcome.of c.request f).healthy).finish c f
  | .overflown => (g.cancel c, .over .overflown)

def step (g : Gate) (c : Call) : Gate × CallAdvance :=
  match c.stage with
  | .asking w => if g.now < w.ends then (g, .waiting) else g.afterFlag c w.answer?
  | .validating permit v =>
    let (catalog, events, advance) := v.step g.now c.draws g.catalog
    ({ g with catalog }.logged events).afterValidation c permit advance

theorem not_moved_of_finish {g : Gate} {c c' : Call} {f : Finding} :
    (g.finish c f).2 ≠ .moved c' := by
  simp [finish]

theorem rank_lt_of_step {g : Gate} {c c' : Call} (h : (g.step c).2 = .moved c') :
    c'.rank < c.rank := by
  unfold step at h
  split at h
  · next w hs =>
    split at h
    · simp at h
    · simp only [afterFlag] at h
      split at h
      · simp only [validate] at h
        split at h
        · exact absurd h not_moved_of_finish
        · simp only [CallAdvance.moved.injEq] at h
          subst h
          simp only [Call.rank, hs, Validation.rank, Validation.start]
          omega
      · exact absurd h not_moved_of_finish
  · next permit v hs =>
    simp only [afterValidation] at h
    split at h
    · simp at h
    · next v' hv =>
      simp only [CallAdvance.moved.injEq] at h
      subst h
      simpa [Call.rank, hs] using Validation.rank_lt_of_step hv
    · exact absurd h not_moved_of_finish
    · simp at h

theorem wake_gt_of_step {g : Gate} {c : Call} (h : (g.step c).2 = .waiting) : g.now < c.wake := by
  unfold step at h
  split at h
  · next w hs =>
    split at h
    · next hn => simpa [Call.wake, hs] using hn
    · simp only [afterFlag] at h
      split at h
      · simp only [validate] at h
        split at h
        · simp [finish] at h
        · simp at h
      · simp [finish] at h
  · next permit v hs =>
    simp only [afterValidation] at h
    split at h
    · next hv => simpa [Call.wake, hs] using Validation.wake_gt_of_step hv
    · simp at h
    · simp [finish] at h
    · simp at h

/-- Goes on with a call until it has to wait or is over. -/
def resume (g : Gate) (c : Call) : Gate × CallStatus :=
  match h : g.step c with
  | (g', .moved c') =>
    have : c'.rank < c.rank := rank_lt_of_step (by rw [h])
    g'.resume c'
  | (g', .waiting) => (g', .waiting c)
  | (g', .over r) => (g', .over r)
termination_by c.rank

theorem rank_le_of_resume {g : Gate} {c c' : Call} (h : (g.resume c).2 = .waiting c') :
    c'.rank ≤ c.rank := by
  fun_induction resume g c with
  | case1 g c g' c₁ hs hlt ih => exact Nat.le_trans (ih h) (Nat.le_of_lt hlt)
  | case2 => simp_all
  | case3 => simp at h

theorem rank_lt_of_resume {g : Gate} {c c' : Call} (h : (g.resume c).2 = .waiting c')
    (hw : c.wake ≤ g.now) : c'.rank < c.rank := by
  rw [resume] at h
  split at h
  · next g' c₁ hs =>
    exact Nat.lt_of_le_of_lt (rank_le_of_resume h) (rank_lt_of_step (by rw [hs]))
  · next g' hs =>
    have := wake_gt_of_step (g := g) (c := c) (by rw [hs])
    omega
  · simp at h

end Gate

end StockGate
