import StockGate.Telemetry.Store

namespace StockGate

inductive Destination where
  /-- A memory, by its number. -/
  | memory (i : Nat)
  | metrics
  /-- The current trace and the log. -/
  | trace
  | nowhere
  deriving DecidableEq

structure Sink where
  name : String
  destination : Destination
  refuses : List Channel := []
  deriving DecidableEq

namespace Sink

def memory (i : Nat) : Sink := { name := "memory", destination := .memory i }
def metrics : Sink := { name := "metrics", destination := .metrics }
def trace : Sink := { name := "tracing", destination := .trace }

def deliver (s : Sink) (t : Telemetry) (r : Record) : Telemetry :=
  match s.destination with
  | .memory i => { t with memory := Metrics.bump t.memory i (·.keep r) }
  | .metrics => { t with metrics := t.metrics.count r }
  | .trace =>
    match r with
    | .span sp => t.logged (.attemptFinished sp.label sp.duration)
    | _ => t
  | .nowhere => t

def accept (s : Sink) (t : Telemetry) (r : Record) : Telemetry :=
  if r.channel ∈ s.refuses then t.logged (.recordRefused s.name r.channel) else s.deliver t r

/-- Whether the sink puts spans onto the current trace. -/
def traces (s : Sink) : Bool :=
  s.destination = .trace && !s.refuses.contains .span

end Sink

/-- Hands every record to all sinks, in order. A sink that refuses a record is noted in
the log, and nothing else changes. -/
structure Emitter where
  sinks : List Sink
  deriving DecidableEq

namespace Emitter

def disabled : Emitter := ⟨[]⟩

def production : Emitter := ⟨[Sink.trace, Sink.metrics]⟩

/-- One sink gets all the records before the next one gets any. -/
def emit (e : Emitter) (t : Telemetry) (rs : List Record) : Telemetry :=
  e.sinks.foldl (fun t s => rs.foldl s.accept t) t

def emitSpan (e : Emitter) (t : Telemetry) (s : Span) : Telemetry :=
  e.emit t (Record.ofSpan s)

def traces (e : Emitter) : Bool :=
  e.sinks.any Sink.traces

end Emitter

end StockGate
