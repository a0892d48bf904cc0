import StockGate.Command.Arguments
import StockGate.Command.LogFilter
import StockGate.Gate.Schedule
import StockGate.Gate.Wiring
import StockGate.Settings.Load

namespace StockGate.Command

/-- All that the command finds outside itself. -/
structure Surroundings where
  file : String → Option Text.Bytes
  /-- The log filter that the environment gives. -/
  logFilter : Option String
  /-- Whether an address can be listened on. -/
  canListen : Net.SocketAddress → Bool
  catalog : Network
  flags : Network
  /-- The identity of this call. -/
  correlationId : Uuid
  draws : Nat → Nat

/-- Why the command ends without a verdict. -/
inductive Failure where
  | arguments (f : ArgumentFault)
  | settings (e : LoadError)
  | build (e : BuildError)
  | request (e : RequestError)
  | overflow
  deriving DecidableEq

structure Report where
  result : Except Failure Evaluation
  log : List Event := []
  observability : ObservabilitySettings := {}
  catalogRequests : List HttpRequest := []
  flagRequests : List HttpRequest := []

def version : String := "0.1.0"

/-- Metrics that cannot be exposed do not stop the command. -/
def metricsEvents (s : Surroundings) (o : ObservabilitySettings) : List Event :=
  if !o.metricsEnabled then []
  else
    match Net.SocketAddress.parse? o.metricsAddress with
    | none => [.metricsAddressInvalid o.metricsAddress]
    | some a =>
      if s.canListen a then [.metricsListening o.metricsAddress]
      else [.metricsFailed "address not available"]

def startEvents (s : Surroundings) (x : Settings) : List Event :=
  [.starting version] ++ metricsEvents s x.observability ++
    [.settingsLoaded x.catalog.baseUrl x.flag.flagKey x.policy.timeout x.policy.failOpen]

def settings (s : Surroundings) (config : Option String) : Except LoadError Settings :=
  match config with
  | none => .ok {}
  | some path => Settings.load (s.file path)

def validate (s : Surroundings) (args : Arguments) (x : Settings) (w : Wiring) : Report :=
  let g := w.gate x.policy s.catalog s.flags
  let report (g : Gate) (result : Except Failure Evaluation) : Report :=
    { result
      log := startEvents s x ++ g.telemetry.log
      observability := x.observability
      catalogRequests := w.catalogRequests g
      flagRequests := w.flagRequests g }
  match Request.make args.product args.quantity ⟨s.correlationId, args.user, .empty⟩ with
  | .error e => report g (.error (.request e))
  | .ok request =>
    let (g, results) := g.callAll [{ request, draws := s.draws }]
    match results with
    | (.evaluated e, _) :: _ => report g (.ok e)
    | _ => report g (.error .overflow)

def run (s : Surroundings) (args : List String) : Report :=
  match Arguments.parse args with
  | .error f => { result := .error (.arguments f) }
  | .ok args =>
    match settings s args.config with
    | .error e => { result := .error (.settings e) }
    | .ok x =>
      match Wiring.ofSettings x with
      | .error e =>
        { result := .error (.build e), log := startEvents s x, observability := x.observability }
      | .ok w => validate s args x w

namespace Report

def verdictCode : Verdict → Nat
  | .allow _ => 0
  | .rejectBusiness _ => 2
  | .rejectSystem => 3

def failureCode : Failure → Nat
  | .arguments .help => 0
  | .arguments _ => 2
  | _ => 1

def code (r : Report) : Nat :=
  match r.result with
  | .ok e => verdictCode e.verdict
  | .error f => failureCode f

def verdictText (e : Evaluation) : String :=
  match e.verdict with
  | .allow degraded =>
    let available := (e.outcome.available?.map toString).getD "unknown"
    (if degraded then "admit (degraded)" else "admit") ++ s!" (available: {available})"
  | .rejectBusiness s => "reject: " ++ s.text
  | .rejectSystem => "reject: inventory validation unavailable"

def failureText : Failure → Option String
  | .arguments .help => none
  | .arguments f => some f.message
  | .settings e => some e.message
  | .build e => some e.message
  | .request e => some e.message
  | .overflow => some Backoff.Overflow.delayTooLong.message

def complaint? (r : Report) : Option String :=
  match r.result with
  | .ok _ => none
  | .error f => failureText f

def output (r : Report) : List String :=
  match r.result with
  | .ok e => [verdictText e]
  | .error (.arguments .help) => helpText
  | .error _ => []

def shownLog (r : Report) (s : Surroundings) : List Event :=
  r.log.filter (LogFilter.choose s.logFilter r.observability.logLevel).shows

end Report

end StockGate.Command
