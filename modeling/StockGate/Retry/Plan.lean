import StockGate.Catalog.Lookup
import StockGate.Policy
import StockGate.Retry.Backoff

namespace StockGate

/-- Times are in milliseconds. -/
structure RetryPlan where
  maxRetries : UInt32
  baseDelay : Nat
  deriving DecidableEq

namespace RetryPlan

def ofPolicy (p : Policy) : RetryPlan :=
  ⟨p.maxRetries, p.retryBackoffMs.toNat⟩

/-- The delay in milliseconds. Base, jitter and remaining time are whole, so there is no rest
to cut off. -/
def delay (plan : RetryPlan) (attempts remaining draw : Nat) : Except Backoff.Overflow Nat :=
  (Backoff.delay attempts (plan.baseDelay * Backoff.nanosPerMilli)
    (remaining * Backoff.nanosPerMilli) draw).map (· / Backoff.nanosPerMilli)

/-- The delay before the next attempt, or `none` to stop: after an error that another attempt
would not mend, when the retries are used up, and when the delay does not fit in the time that
remains. -/
def next (plan : RetryPlan) (attempts : Nat) (error : LookupError) (remaining draw : Nat) :
    Except Backoff.Overflow (Option Nat) :=
  if !error.isTransient ∨ plan.maxRetries.toNat < attempts then .ok none
  else (plan.delay attempts remaining draw).map fun d => if remaining ≤ d then none else some d

theorem le_of_next {plan : RetryPlan} {attempts remaining draw d : Nat} {error : LookupError}
    (h : plan.next attempts error remaining draw = .ok (some d)) :
    attempts ≤ plan.maxRetries.toNat := by
  unfold next at h
  split at h
  · simp at h
  · next hn =>
    simp only [not_or, Nat.not_lt] at hn
    exact hn.2

end RetryPlan

end StockGate
