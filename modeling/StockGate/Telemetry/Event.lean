import StockGate.Telemetry.Span

namespace StockGate

inductive Level where
  | error
  | warn
  | info
  | debug
  | trace
  deriving DecidableEq

def Level.label : Level → String
  | .error => "ERROR"
  | .warn => "WARN"
  | .info => "INFO"
  | .debug => "DEBUG"
  | .trace => "TRACE"

/-- Grows with the amount that a log down to this level shows. -/
def Level.rank : Level → Nat
  | .error => 1
  | .warn => 2
  | .info => 3
  | .debug => 4
  | .trace => 5

inductive Channel where
  | span
  | duration
  | result
  | transition
  | degraded
  deriving DecidableEq

def Channel.label : Channel → String
  | .span => "span"
  | .duration => "duration"
  | .result => "result"
  | .transition => "transition"
  | .degraded => "degraded"

def Channel.all : List Channel :=
  [.span, .duration, .result, .transition, .degraded]

inductive Event where
  | circuitMoved (t : Transition)
  | probeDropped
  | flagFailed (flag error : String)
  | flagTimedOut (flag : String) (timeout : Nat)
  | flagEvaluated (flag : String) (enabled : Bool)
  | flagResolved (flag : String) (value : Bool) (reason variant : String)
  | lookupTimedOut (product : String) (attempts timeout : Nat)
  | lookupSucceeded (product : String) (available requested : UInt32) (attempts : Nat)
  | lookupRetried (product : String) (attempts : Nat) (error : String) (delay : Nat)
  | lookupFailed (product : String) (requested : UInt32) (attempts : Nat) (error : String)
    (transient : Bool)
  | lookupShed (circuit : CircuitState)
  | failedOpen (kind : ErrorKind)
  | failedClosed (kind : Option ErrorKind)
  | attemptFinished (label : AttemptLabel) (duration : Nat)
  | recordRefused (sink : String) (channel : Channel)
  | clientReady (baseUrl productPath : String)
  | starting (version : String)
  | metricsListening (address : String)
  | metricsFailed (error : String)
  | metricsAddressInvalid (address : String)
  | settingsLoaded (baseUrl flagKey : String) (timeout : Nat) (failOpen : Bool)
  deriving DecidableEq

def Permit.dropEvents (p : Permit) : List Event :=
  if p.probe then [.probeDropped] else []

inductive Field where
  | text (s : String)
  | number (n : Nat)
  | flag (b : Bool)
  deriving DecidableEq

namespace Event

def level : Event → Level
  | .circuitMoved t => if t.target = .opened then .warn else .info
  | .probeDropped | .flagEvaluated .. | .lookupSucceeded .. | .lookupRetried .. | .lookupShed _
  | .attemptFinished .. => .debug
  | .flagFailed .. | .flagTimedOut .. | .lookupTimedOut .. | .lookupFailed .. | .failedOpen _
  | .failedClosed _ | .recordRefused .. => .warn
  | .flagResolved .. => .trace
  | .clientReady .. | .starting _ | .metricsListening _ | .settingsLoaded .. => .info
  | .metricsFailed _ | .metricsAddressInvalid _ => .error

def message : Event → String
  | .circuitMoved t =>
    if t.target = .opened then "Inventory circuit opened" else "Inventory circuit state changed"
  | .probeDropped => "Breaker probe dropped without outcome"
  | .flagFailed .. => "Flag evaluation failed, using default"
  | .flagTimedOut .. => "Flag evaluation timed out, using default"
  | .flagEvaluated .. => "Feature flag evaluated"
  | .flagResolved .. => "flagd resolved flag"
  | .lookupTimedOut .. => "Inventory lookup timed out"
  | .lookupSucceeded .. => "Inventory lookup succeeded"
  | .lookupRetried .. => "Transient inventory failure, retrying"
  | .lookupFailed .. => "Inventory lookup failed"
  | .lookupShed _ => "Inventory lookup rejected fast"
  | .failedOpen _ => "Inventory validation failed, admitting mutation (fail-open)"
  | .failedClosed _ => "Inventory validation failed, rejecting mutation (fail-closed)"
  | .attemptFinished .. => "Inventory validation attempt finished"
  | .recordRefused .. => "Dropping telemetry record"
  | .clientReady .. => "Inventory client initialized"
  | .starting _ => "inventory-gate starting"
  | .metricsListening _ => "Metrics endpoint listening"
  | .metricsFailed _ => "Failed to start metrics endpoint"
  | .metricsAddressInvalid _ => "Failed to parse metrics address"
  | .settingsLoaded .. => "Configuration loaded"

def kindText : Option ErrorKind → String
  | none => "None"
  | some k => "Some(" ++ k.name ++ ")"

def refusalText (sink : String) (channel : Channel) : String :=
  s!"telemetry sink {sink} failed: {channel.label} refused"

def fields : Event → List (String × Field)
  | .circuitMoved t => [("from", .text t.source.label), ("to", .text t.target.label)]
  | .probeDropped => []
  | .flagFailed flag error => [("flag", .text flag), ("error", .text error)]
  | .flagTimedOut flag timeout => [("flag", .text flag), ("timeout_ms", .number timeout)]
  | .flagEvaluated flag enabled => [("flag", .text flag), ("enabled", .flag enabled)]
  | .flagResolved flag value reason variant =>
    [("flag", .text flag), ("value", .flag value), ("reason", .text reason),
      ("variant", .text variant)]
  | .lookupTimedOut product attempts timeout =>
    [("product_id", .text product), ("attempts", .number attempts), ("timeout_ms", .number timeout)]
  | .lookupSucceeded product available requested attempts =>
    [("product_id", .text product), ("available", .number available.toNat),
      ("requested", .number requested.toNat), ("attempts", .number attempts)]
  | .lookupRetried product attempts error delay =>
    [("product_id", .text product), ("attempts", .number attempts), ("error", .text error),
      ("delay_ms", .number delay)]
  | .lookupFailed product requested attempts error transient =>
    [("product_id", .text product), ("requested", .number requested.toNat),
      ("attempts", .number attempts), ("error", .text error), ("transient", .flag transient)]
  | .lookupShed circuit => [("circuit_state", .text circuit.label)]
  | .failedOpen kind => [("degraded", .flag true), ("error_kind", .text kind.label)]
  | .failedClosed kind => [("error_kind", .text (kindText kind))]
  | .attemptFinished label duration =>
    [("result", .text label.text), ("duration_ms", .number duration)]
  | .recordRefused sink channel =>
    [("sink", .text sink), ("error", .text (refusalText sink channel))]
  | .clientReady baseUrl productPath =>
    [("base_url", .text baseUrl), ("product_path", .text productPath)]
  | .starting version => [("version", .text version)]
  | .metricsListening address => [("address", .text address)]
  | .metricsFailed error => [("error", .text error)]
  | .metricsAddressInvalid address => [("metrics_address", .text address)]
  | .settingsLoaded baseUrl flagKey timeout failOpen =>
    [("base_url", .text baseUrl), ("flag_key", .text flagKey), ("timeout_ms", .number timeout),
      ("fail_open", .flag failOpen)]

end Event

end StockGate
