import StockGate.Telemetry.Event

namespace StockGate

inductive Record where
  | span (s : Span)
  | duration (label : AttemptLabel) (d : Nat)
  | result (label : AttemptLabel)
  | transition (t : Transition)
  | degraded (kind : ErrorKind)
  deriving DecidableEq

namespace Record

def channel : Record → Channel
  | .span _ => .span
  | .duration .. => .duration
  | .result _ => .result
  | .transition _ => .transition
  | .degraded _ => .degraded

def ofSpan (s : Span) : List Record :=
  [.span s, .duration s.label s.duration, .result s.label]

end Record

structure Memory where
  spans : List Span := []
  durations : List (AttemptLabel × Nat) := []
  results : List AttemptLabel := []
  transitions : List Transition := []
  degraded : List ErrorKind := []
  deriving DecidableEq

namespace Memory

def keep (m : Memory) : Record → Memory
  | .span s => { m with spans := m.spans ++ [s] }
  | .duration label d => { m with durations := m.durations ++ [(label, d)] }
  | .result label => { m with results := m.results ++ [label] }
  | .transition t => { m with transitions := m.transitions ++ [t] }
  | .degraded kind => { m with degraded := m.degraded ++ [kind] }

def lastSpan? (m : Memory) : Option Span :=
  m.spans.getLast?

def resultCount (m : Memory) (label : AttemptLabel) : Nat :=
  m.results.count label

end Memory

structure Metrics where
  validations : AttemptLabel → Nat := fun _ => 0
  durations : AttemptLabel → List Nat := fun _ => []
  transitions : Transition → Nat := fun _ => 0
  degraded : ErrorKind → Nat := fun _ => 0

namespace Metrics

def bump {α β : Type} [DecidableEq α] (f : α → β) (a : α) (g : β → β) : α → β :=
  fun x => if x = a then g (f x) else f x

/-- Spans are not counted. -/
def count (m : Metrics) : Record → Metrics
  | .span _ => m
  | .duration label d => { m with durations := bump m.durations label (· ++ [d]) }
  | .result label => { m with validations := bump m.validations label (· + 1) }
  | .transition t => { m with transitions := bump m.transitions t (· + 1) }
  | .degraded kind => { m with degraded := bump m.degraded kind (· + 1) }

end Metrics

/-- The trace of one validation: what was known when it began, and its span if one was recorded. -/
structure Trace where
  product : String
  requested : UInt32
  correlationId : Uuid
  circuit : CircuitState
  recorded : Option Span
  deriving DecidableEq

def arrivalFields (product : String) (requested : UInt32) (correlationId : Uuid)
    (circuit : CircuitState) : List (String × Field) :=
  [("product_id", .text product), ("requested_quantity", .number requested.toNat),
    ("correlation_id", .text correlationId.text), ("circuit_state", .text circuit.label)]

/-- What is recorded when a validation ends. Stock and error are there only if they are known. -/
def Span.endFields (s : Span) : List (String × Field) :=
  (s.available.toList.map fun n => ("available_quantity", .number n.toNat)) ++
  (s.errorKind.toList.map fun kind => ("error_kind", .text kind.label)) ++
  [("result", .text s.label.text), ("duration_ms", .number s.duration),
    ("degraded", .flag s.degraded)]

def Span.fields (s : Span) : List (String × Field) :=
  arrivalFields s.product s.requested s.correlationId s.circuit ++ s.endFields

def Trace.fields (t : Trace) : List (String × Field) :=
  arrivalFields t.product t.requested t.correlationId t.circuit ++
    t.recorded.toList.flatMap Span.endFields

structure Telemetry where
  memory : Nat → Memory := fun _ => {}
  metrics : Metrics := {}
  log : List Event := []
  /-- Closed traces, in the order in which they closed. -/
  traces : List Trace := []

namespace Telemetry

def logged (t : Telemetry) (e : Event) : Telemetry :=
  { t with log := t.log ++ [e] }

def traced (t : Telemetry) (tr : Trace) : Telemetry :=
  { t with traces := t.traces ++ [tr] }

end Telemetry

end StockGate
