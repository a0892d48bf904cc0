import StockGate.Flag.Gate
import StockGate.Telemetry.Sink
import StockGate.Validation
import StockGate.Verdict

namespace StockGate

structure Gate where
  now : Nat := 0
  policy : Policy := {}
  breaker : Breaker := {}
  catalog : Catalog
  flags : FlagService
  flag : FlagGate := {}
  emitter : Emitter
  telemetry : Telemetry := {}

/-- What a call that was not cancelled returns. -/
structure Evaluation where
  verdict : Verdict
  outcome : Outcome
  deriving DecidableEq

namespace Gate

def logged (g : Gate) (events : List Event) : Gate :=
  { g with telemetry := events.foldl .logged g.telemetry }

def emit (g : Gate) (rs : List Record) : Gate :=
  { g with telemetry := g.emitter.emit g.telemetry rs }

/-- Puts the breaker's new state; a move of the circuit goes to the log and then to the sinks. -/
def update (g : Gate) (b : Breaker) (t : Option Transition) : Gate :=
  let g := { g with breaker := b }
  match t with
  | none => g
  | some t => (g.logged [.circuitMoved t]).emit [.transition t]

def enter (g : Gate) (p : Policy) : Gate × Admission :=
  let (b, admission, t) := g.breaker.enter g.now p
  (g.update b t, admission)

def record (g : Gate) (permit : Permit) (success : Bool) : Gate :=
  let (b, t) := g.breaker.record g.now permit success
  g.update b t

def release (g : Gate) (permit : Permit) : Gate :=
  let (b, t) := g.breaker.release g.now permit
  (g.logged permit.dropEvents).update b t

def noteFailure (g : Gate) (e : Evaluation) : Gate :=
  match e.verdict with
  | .allow true =>
    match e.outcome.errorKind? with
    | some kind => (g.logged [.failedOpen kind]).emit [.degraded kind]
    | none => g
  | .rejectSystem => g.logged [.failedClosed e.outcome.errorKind?]
  | _ => g

def emitSpan (g : Gate) (s : Span) : Gate :=
  { g with telemetry := g.emitter.emitSpan g.telemetry s }

def traced (g : Gate) (t : Trace) : Gate :=
  { g with telemetry := g.telemetry.traced t }

def waitUntil (g : Gate) (t : Nat) : Gate :=
  { g with now := max g.now t }

end Gate

end StockGate
