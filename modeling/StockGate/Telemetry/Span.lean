import StockGate.Breaker.Basic
import StockGate.Outcome

namespace StockGate

/-- The label that spans, histograms and counters share. -/
inductive AttemptLabel where
  | success
  | insufficient
  | error
  | bypassed
  deriving DecidableEq

namespace AttemptLabel

def text : AttemptLabel → String
  | .success => "success"
  | .insufficient => "insufficient"
  | .error => "error"
  | .bypassed => "bypassed"

def all : List AttemptLabel :=
  [.success, .insufficient, .error, .bypassed]

end AttemptLabel

def Outcome.label (o : Outcome) : AttemptLabel :=
  if !o.performed then .bypassed
  else
    match o.errorKind? with
    | none => .success
    | some .insufficientInventory => .insufficient
    | some _ => .error

structure Span where
  product : String
  requested : UInt32
  available : Option UInt32
  label : AttemptLabel
  errorKind : Option ErrorKind
  duration : Nat
  /-- The state of the circuit when the request arrived. -/
  circuit : CircuitState
  correlationId : Uuid
  degraded : Bool
  deriving DecidableEq

def Span.of (r : Request) (o : Outcome) (circuit : CircuitState) (degraded : Bool) : Span where
  product := r.product
  requested := r.quantity
  available := o.available?
  label := o.label
  errorKind := o.errorKind?
  duration := o.duration
  circuit := circuit
  correlationId := r.caller.correlationId
  degraded := degraded

end StockGate
