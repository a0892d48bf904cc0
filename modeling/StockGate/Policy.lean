import StockGate.Document.Shape
import StockGate.Json.Basic

namespace StockGate

structure Policy where
  /-- Limit on a whole lookup, retries included. -/
  timeoutMs : UInt64 := 500
  /-- Failures inside the sampling window that open the circuit. -/
  failureThreshold : UInt32 := 5
  samplingWindowMs : UInt64 := 30000
  /-- Outcomes inside the window below which the circuit stays closed. -/
  minimumThroughput : UInt32 := 5
  /-- How long an open circuit waits before it admits a probe. -/
  breakDurationMs : UInt64 := 30000
  /-- Whether a mutation is admitted when its validation fails. -/
  failOpen : Bool := true
  maxRetries : UInt32 := 1
  retryBackoffMs : UInt64 := 25
  deriving DecidableEq

namespace Policy

def timeout (p : Policy) : Nat :=
  p.timeoutMs.toNat

def samplingWindow (p : Policy) : Nat :=
  p.samplingWindowMs.toNat

def breakDuration (p : Policy) : Nat :=
  p.breakDurationMs.toNat

def fieldNames : List String :=
  ["timeout_ms", "failure_threshold", "sampling_window_ms", "minimum_throughput",
    "break_duration_ms", "fail_open", "max_retries", "retry_backoff_ms"]

open Document in
def read? {α : Type} [Document α] (v : α) : Option Policy := do
  let r ← fields? fieldNames v
  let d : Policy := {}
  return {
    timeoutMs := ← r.withDefault "timeout_ms" word64? d.timeoutMs
    failureThreshold := ← r.withDefault "failure_threshold" word32? d.failureThreshold
    samplingWindowMs := ← r.withDefault "sampling_window_ms" word64? d.samplingWindowMs
    minimumThroughput := ← r.withDefault "minimum_throughput" word32? d.minimumThroughput
    breakDurationMs := ← r.withDefault "break_duration_ms" word64? d.breakDurationMs
    failOpen := ← r.withDefault "fail_open" flag? d.failOpen
    maxRetries := ← r.withDefault "max_retries" word32? d.maxRetries
    retryBackoffMs := ← r.withDefault "retry_backoff_ms" word64? d.retryBackoffMs }

def toJson (p : Policy) : Json.Value :=
  .record [
    ("timeout_ms", .nat p.timeoutMs.toNat),
    ("failure_threshold", .nat p.failureThreshold.toNat),
    ("sampling_window_ms", .nat p.samplingWindowMs.toNat),
    ("minimum_throughput", .nat p.minimumThroughput.toNat),
    ("break_duration_ms", .nat p.breakDurationMs.toNat),
    ("fail_open", .bool p.failOpen),
    ("max_retries", .nat p.maxRetries.toNat),
    ("retry_backoff_ms", .nat p.retryBackoffMs.toNat)]

end Policy

end StockGate
