import StockGate.Net.SocketAddress
import StockGate.Settings.Basic
import StockGate.Text.Blank
import StockGate.Url.Parser

namespace StockGate

inductive Problem where
  | notPositive
  | belowOne
  | notUrl (fault : Url.Fault)
  | unsupportedScheme (scheme : String)
  | noPlaceholder
  | blank
  | serviceUrlMissing
  | notSocketAddress (text : String)
  deriving DecidableEq

def Problem.message : Problem → String
  | .notPositive => "must be greater than zero"
  | .belowOne => "must be at least 1"
  | .notUrl fault => fault.message
  | .unsupportedScheme scheme => "unsupported scheme '" ++ scheme ++ "'"
  | .noPlaceholder => "must contain the \x7bid\x7d placeholder"
  | .blank => "must not be empty"
  | .serviceUrlMissing => "required when provider = \"flagd\""
  | .notSocketAddress text => "'" ++ text ++ "' is not a socket address"

structure SettingError where
  field : String
  problem : Problem
  deriving DecidableEq

def SettingError.text (e : SettingError) : String :=
  e.field ++ ": " ++ e.problem.message

def require (condition : Bool) (field : String) (problem : Problem) : List SettingError :=
  if condition then [] else [⟨field, problem⟩]

def Policy.errors (p : Policy) : List SettingError :=
  require (p.timeoutMs ≠ 0) "policy.timeout_ms" .notPositive ++
  require (p.failureThreshold ≠ 0) "policy.failure_threshold" .belowOne ++
  require (p.samplingWindowMs ≠ 0) "policy.sampling_window_ms" .notPositive ++
  require (p.minimumThroughput ≠ 0) "policy.minimum_throughput" .belowOne ++
  require (p.breakDurationMs ≠ 0) "policy.break_duration_ms" .notPositive

def placeholder : List Char :=
  ['\x7b', 'i', 'd', '\x7d']

def CatalogSettings.urlErrors (c : CatalogSettings) : List SettingError :=
  match Url.parse c.baseUrl with
  | .error fault => [⟨"inventory.base_url", .notUrl fault⟩]
  | .ok url =>
    let scheme := String.ofList url.scheme
    require (scheme = "http" ∨ scheme = "https") "inventory.base_url" (.unsupportedScheme scheme)

def CatalogSettings.errors (c : CatalogSettings) : List SettingError :=
  c.urlErrors ++
  require (Text.contains placeholder c.productPath.toList) "inventory.product_path" .noPlaceholder

def FlagSettings.serviceUrlField : String :=
  "feature_flag.flagd_url"

def FlagSettings.urlErrors (f : FlagSettings) : List SettingError :=
  match f.source, f.serviceUrl with
  | .fixed, _ => []
  | .service, none => [⟨serviceUrlField, .serviceUrlMissing⟩]
  | .service, some url =>
    match Url.parse url with
    | .error fault => [⟨serviceUrlField, .notUrl fault⟩]
    | .ok _ => []

def FlagSettings.errors (f : FlagSettings) : List SettingError :=
  require (!Text.blankText f.flagKey) "feature_flag.flag_key" .blank ++
  require (f.evaluationTimeoutMs ≠ 0) "feature_flag.evaluation_timeout_ms" .notPositive ++
  f.urlErrors

def ObservabilitySettings.errors (o : ObservabilitySettings) : List SettingError :=
  require (!o.metricsEnabled || (Net.SocketAddress.parse? o.metricsAddress).isSome)
    "observability.metrics_address" (.notSocketAddress o.metricsAddress)

/-- Every problem is reported, in a fixed order. -/
def Settings.errors (s : Settings) : List SettingError :=
  s.policy.errors ++ s.catalog.errors ++ s.flag.errors ++ s.observability.errors

end StockGate
