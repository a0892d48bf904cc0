import StockGate.Catalog.Lookup
import StockGate.Deadline
import StockGate.Retry.Plan
import StockGate.Telemetry.Event

namespace StockGate

abbrev LookupAnswer := Except LookupError Product

abbrev Catalog := Service String LookupAnswer

inductive LookupStage where
  | asked (answer : Awaited LookupAnswer)
  | pausing (wake : Nat)

structure Validation where
  request : Request
  policy : Policy
  deadline : Deadline
  started : Nat
  /-- The number of the lookup that is under way, or that follows the pause. Nothing holds it to
  32 bits: whoever counts lookups in 32 bits has to show that they are not outrun. -/
  attempt : Nat
  stage : LookupStage
  attempt_le : attempt ≤ policy.maxRetries.toNat + 1

inductive ValidationAdvance where
  | waiting
  | moved (v : Validation)
  | finished (f : Finding)
  | overflown

namespace Validation

/-- The time at which there is something to do again. -/
def wake (v : Validation) : Nat :=
  match v.stage with
  | .asked w => w.ends
  | .pausing t => t

/-- Steps that are left at most. -/
def rank (v : Validation) : Nat :=
  2 * (v.policy.maxRetries.toNat + 1 - v.attempt) +
    match v.stage with
    | .asked _ => 0
    | .pausing _ => 1

def start (now : Nat) (catalog : Catalog) (r : Request) (d : Deadline) (p : Policy) :
    Catalog × Validation :=
  let (catalog, reply) := catalog.ask r.product
  (catalog, {
    request := r
    policy := p
    deadline := d
    started := now
    attempt := 1
    stage := .asked (.start now reply d.time)
    attempt_le := by omega })

def stock (v : Validation) (answer : LookupAnswer) : Except LookupError UInt32 :=
  answer.bind (·.available v.request.product)

def afterError (v : Validation) (now draw : Nat) (e : LookupError) :
    List Event × ValidationAdvance :=
  let product := v.request.product
  match h : (RetryPlan.ofPolicy v.policy).next v.attempt e (v.deadline.remaining now) draw with
  | .error _ => ([], .overflown)
  | .ok (some delay) =>
    ([.lookupRetried product v.attempt e.message delay],
      .moved { v with
        attempt := v.attempt + 1
        stage := .pausing (now + delay)
        attempt_le := Nat.succ_le_succ (RetryPlan.le_of_next h) })
  | .ok none =>
    ([.lookupFailed product v.request.quantity v.attempt e.message e.isTransient],
      .finished (.failed e.kind (now - v.started) v.attempt))

/-- The end of the wait for a lookup; `none` is an answer that did not come in time. -/
def afterLookup (v : Validation) (now draw : Nat) (answer : Option LookupAnswer) :
    List Event × ValidationAdvance :=
  let product := v.request.product
  match answer.map v.stock with
  | none =>
    ([.lookupTimedOut product v.attempt v.policy.timeout],
      .finished (.failed .timeout (now - v.started) v.attempt))
  | some (.ok available) =>
    ([.lookupSucceeded product available v.request.quantity v.attempt],
      .finished (.checked available (now - v.started) v.attempt))
  | some (.error e) => v.afterError now draw e

/-- One step, up to the next wait, with the jitter drawn for each attempt. -/
def step (v : Validation) (now : Nat) (draws : Nat → Nat) (catalog : Catalog) :
    Catalog × List Event × ValidationAdvance :=
  if now < v.wake then (catalog, [], .waiting)
  else
    match v.stage with
    | .asked w => (catalog, v.afterLookup now (draws v.attempt) w.answer?)
    | .pausing _ =>
      let (catalog, reply) := catalog.ask v.request.product
      (catalog, [], .moved { v with stage := .asked (.start now reply v.deadline.time) })

theorem rank_lt_of_step {v v' : Validation} {now : Nat} {draws : Nat → Nat} {catalog : Catalog}
    (h : (v.step now draws catalog).2.2 = .moved v') : v'.rank < v.rank := by
  unfold step at h
  split at h
  · simp at h
  · split at h
    · next hs =>
      simp only [afterLookup] at h
      split at h
      · simp at h
      · simp at h
      · simp only [afterError] at h
        split at h
        · simp at h
        · next hn =>
          have hle := RetryPlan.le_of_next hn
          simp only [RetryPlan.ofPolicy] at hle
          simp only [ValidationAdvance.moved.injEq] at h
          subst h
          simp only [rank, hs]
          omega
        · simp at h
    · next hs =>
      simp only [ValidationAdvance.moved.injEq] at h
      subst h
      simp [rank, hs]

theorem wake_gt_of_step {v : Validation} {now : Nat} {draws : Nat → Nat} {catalog : Catalog}
    (h : (v.step now draws catalog).2.2 = .waiting) : now < v.wake := by
  unfold step at h
  split at h
  · assumption
  · split at h
    · simp only [afterLookup] at h
      split at h
      · simp at h
      · simp at h
      · simp only [afterError] at h
        split at h <;> simp at h
    · simp at h

structure Ended where
  catalog : Catalog
  log : List Event
  time : Nat
  finding : Except Backoff.Overflow Finding

/-- Runs a validation alone, on a clock that jumps to each wake. -/
def run (v : Validation) (now : Nat) (draws : Nat → Nat) (catalog : Catalog) (log : List Event) :
    Ended :=
  let time := max now v.wake
  match h : v.step time draws catalog with
  | (catalog, events, .moved v') =>
    have : v'.rank < v.rank := rank_lt_of_step (by rw [h])
    v'.run time draws catalog (log ++ events)
  | (catalog, events, .finished f) => ⟨catalog, log ++ events, time, .ok f⟩
  | (catalog, events, .overflown) => ⟨catalog, log ++ events, time, .error .delayTooLong⟩
  | (_, _, .waiting) =>
    absurd (wake_gt_of_step (by rw [h])) (Nat.not_lt.2 (Nat.le_max_right now v.wake))
termination_by v.rank

end Validation

end StockGate
