import StockGate.Telemetry.Store
import StockGate.Text.Seconds

namespace StockGate

inductive SampleValue where
  | count (n : Nat)
  /-- Observations in seconds, in order. -/
  | observations (seconds : List String)
  deriving DecidableEq

structure MetricSample where
  metric : String
  labels : List (String × String)
  value : SampleValue
  deriving DecidableEq

namespace MetricSample

/-- The name with its labels. -/
def name (s : MetricSample) : String :=
  let labels := s.labels.map fun l => l.1 ++ "=" ++ l.2
  s.metric ++ "\x7b" ++ ",".intercalate labels ++ "\x7d"

/-- A counter exists once it has counted something. -/
def counter (metric : String) (labels : List (String × String)) (n : Nat) : List MetricSample :=
  if n = 0 then [] else [⟨metric, labels, .count n⟩]

def histogram (metric : String) (labels : List (String × String)) (durations : List Nat) :
    List MetricSample :=
  if durations = [] then []
  else [⟨metric, labels, .observations (durations.map Text.secondsText)⟩]

end MetricSample

def Transition.all : List Transition :=
  CircuitState.all.flatMap fun source => CircuitState.all.map fun target => ⟨source, target⟩

namespace Metrics

open MetricSample in
def samples (m : Metrics) : List MetricSample :=
  (AttemptLabel.all.flatMap fun l =>
    counter "inventory_gate_validations_total" [("result", l.text)] (m.validations l)) ++
  (AttemptLabel.all.flatMap fun l =>
    histogram "inventory_gate_validation_duration_seconds" [("result", l.text)] (m.durations l)) ++
  (Transition.all.flatMap fun t =>
    counter "inventory_gate_circuit_transitions_total"
      [("from", t.source.label), ("to", t.target.label)] (m.transitions t)) ++
  (ErrorKind.all.flatMap fun k =>
    counter "inventory_gate_degraded_total" [("error", k.label)] (m.degraded k))

end Metrics

end StockGate
