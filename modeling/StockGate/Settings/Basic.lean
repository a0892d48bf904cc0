import StockGate.Policy

namespace StockGate

open Document

structure CatalogSettings where
  baseUrl : String := "http://localhost:3550"
  /-- Path below the base URL, in which `{id}` stands for the product. -/
  productPath : String := "/api/products/\x7bid\x7d"
  connectTimeoutMs : UInt64 := 250
  poolIdleTimeoutSecs : UInt64 := 90
  poolMaxIdlePerHost : UInt64 := 32
  deriving DecidableEq

inductive FlagSource where
  /-- One fixed value. -/
  | fixed
  /-- A flag service asked over HTTP. -/
  | service
  deriving DecidableEq

structure FlagSettings where
  flagKey : String := "cartInventoryValidation"
  source : FlagSource := .fixed
  fixedValue : Bool := true
  serviceUrl : Option String := none
  evaluationTimeoutMs : UInt64 := 100
  deriving DecidableEq

inductive LogFormat where
  | pretty
  | json
  deriving DecidableEq

structure ObservabilitySettings where
  logLevel : String := "info"
  logFormat : LogFormat := .pretty
  metricsEnabled : Bool := true
  metricsAddress : String := "0.0.0.0:9090"
  deriving DecidableEq

/-- Every setting has a default, so a document names only what it changes. -/
structure Settings where
  policy : Policy := {}
  catalog : CatalogSettings := {}
  flag : FlagSettings := {}
  observability : ObservabilitySettings := {}
  deriving DecidableEq

variable {α : Type} [Document α]

namespace CatalogSettings

def fieldNames : List String :=
  ["base_url", "product_path", "connect_timeout_ms", "pool_idle_timeout_secs",
    "pool_max_idle_per_host"]

def read? (v : α) : Option CatalogSettings := do
  let r ← fields? fieldNames v
  let d : CatalogSettings := {}
  return {
    baseUrl := ← r.withDefault "base_url" text? d.baseUrl
    productPath := ← r.withDefault "product_path" text? d.productPath
    connectTimeoutMs := ← r.withDefault "connect_timeout_ms" word64? d.connectTimeoutMs
    poolIdleTimeoutSecs := ← r.withDefault "pool_idle_timeout_secs" word64? d.poolIdleTimeoutSecs
    poolMaxIdlePerHost := ← r.withDefault "pool_max_idle_per_host" word64? d.poolMaxIdlePerHost }

def toJson (c : CatalogSettings) : Json.Value :=
  .record [
    ("base_url", .text c.baseUrl),
    ("product_path", .text c.productPath),
    ("connect_timeout_ms", .nat c.connectTimeoutMs.toNat),
    ("pool_idle_timeout_secs", .nat c.poolIdleTimeoutSecs.toNat),
    ("pool_max_idle_per_host", .nat c.poolMaxIdlePerHost.toNat)]

end CatalogSettings

namespace FlagSource

def names : List (String × FlagSource) :=
  [("static", .fixed), ("flagd", .service)]

def name : FlagSource → String
  | .fixed => "static"
  | .service => "flagd"

end FlagSource

namespace FlagSettings

def fieldNames : List String :=
  ["flag_key", "provider", "static_enabled", "flagd_url", "evaluation_timeout_ms"]

def read? (v : α) : Option FlagSettings := do
  let r ← fields? fieldNames v
  let d : FlagSettings := {}
  return {
    flagKey := ← r.withDefault "flag_key" text? d.flagKey
    source := ← r.withDefault "provider" (variant? FlagSource.names) d.source
    fixedValue := ← r.withDefault "static_enabled" flag? d.fixedValue
    serviceUrl := ← r.withDefault "flagd_url" (maybe? text?) d.serviceUrl
    evaluationTimeoutMs := ← r.withDefault "evaluation_timeout_ms" word64? d.evaluationTimeoutMs }

def toJson (f : FlagSettings) : Json.Value :=
  .record [
    ("flag_key", .text f.flagKey),
    ("provider", .text f.source.name),
    ("static_enabled", .bool f.fixedValue),
    ("flagd_url", .orNull .text f.serviceUrl),
    ("evaluation_timeout_ms", .nat f.evaluationTimeoutMs.toNat)]

end FlagSettings

namespace LogFormat

def names : List (String × LogFormat) :=
  [("pretty", .pretty), ("json", .json)]

def name : LogFormat → String
  | .pretty => "pretty"
  | .json => "json"

end LogFormat

namespace ObservabilitySettings

def fieldNames : List String :=
  ["log_level", "log_format", "metrics_enabled", "metrics_address"]

def read? (v : α) : Option ObservabilitySettings := do
  let r ← fields? fieldNames v
  let d : ObservabilitySettings := {}
  return {
    logLevel := ← r.withDefault "log_level" text? d.logLevel
    logFormat := ← r.withDefault "log_format" (variant? LogFormat.names) d.logFormat
    metricsEnabled := ← r.withDefault "metrics_enabled" flag? d.metricsEnabled
    metricsAddress := ← r.withDefault "metrics_address" text? d.metricsAddress }

def toJson (o : ObservabilitySettings) : Json.Value :=
  .record [
    ("log_level", .text o.logLevel),
    ("log_format", .text o.logFormat.name),
    ("metrics_enabled", .bool o.metricsEnabled),
    ("metrics_address", .text o.metricsAddress)]

end ObservabilitySettings

namespace Settings

def fieldNames : List String :=
  ["policy", "inventory", "feature_flag", "observability"]

def read? (v : α) : Option Settings := do
  let r ← fields? fieldNames v
  return {
    policy := ← r.withDefault "policy" Policy.read? {}
    catalog := ← r.withDefault "inventory" CatalogSettings.read? {}
    flag := ← r.withDefault "feature_flag" FlagSettings.read? {}
    observability := ← r.withDefault "observability" ObservabilitySettings.read? {} }

def toJson (s : Settings) : Json.Value :=
  .record [
    ("policy", s.policy.toJson),
    ("inventory", s.catalog.toJson),
    ("feature_flag", s.flag.toJson),
    ("observability", s.observability.toJson)]

end Settings

end StockGate
