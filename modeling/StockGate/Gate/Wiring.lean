import StockGate.Catalog.Client
import StockGate.Flag.Client
import StockGate.Gate.Basic

namespace StockGate

inductive BuildError where
  | catalog (fault : Url.Fault)
  | flag (error : FlagError)
  deriving DecidableEq

def urlMessage (fault : Url.Fault) : String :=
  "invalid inventory base URL: " ++ fault.message

def BuildError.message : BuildError → String
  | .catalog fault => "inventory client: " ++ urlMessage fault
  | .flag error => "feature flag provider: " ++ error.message

inductive FlagWiring where
  | fixed (value : Bool)
  | client (c : FlagClient)
  deriving DecidableEq

structure Wiring where
  catalog : CatalogClient
  flags : FlagWiring
  flag : FlagGate
  deriving DecidableEq

namespace FlagWiring

def ofSettings (f : FlagSettings) : Except FlagError FlagWiring :=
  match f.source, f.serviceUrl with
  | .fixed, _ => .ok (.fixed f.fixedValue)
  | .service, some url => .ok (.client (.make url f.evaluationTimeoutMs.toNat))
  | .service, none => .error (.notConfigured FlagSettings.serviceUrlField)

def service (net : Network) : FlagWiring → FlagService
  | .fixed value => .fixed value
  | .client c => c.service net

def requests (asked : List FlagQuestion) : FlagWiring → List HttpRequest
  | .fixed _ => []
  | .client c => c.requests asked

end FlagWiring

namespace Wiring

/-- The catalog's URL is looked at first. -/
def ofSettings (s : Settings) : Except BuildError Wiring := do
  let catalog ← (CatalogClient.ofSettings s.catalog).mapError .catalog
  let flags ← (FlagWiring.ofSettings s.flag).mapError .flag
  return ⟨catalog, flags, .ofSettings s.flag⟩

def gate (w : Wiring) (p : Policy) (catalogNet flagNet : Network) : Gate where
  policy := p
  catalog := w.catalog.catalog catalogNet
  flags := w.flags.service flagNet
  flag := w.flag
  emitter := .production
  telemetry := { log := [.clientReady w.catalog.address.base.text w.catalog.address.productPath] }

def catalogRequests (w : Wiring) (g : Gate) : List HttpRequest :=
  w.catalog.requests g.catalog.asked

def flagRequests (w : Wiring) (g : Gate) : List HttpRequest :=
  w.flags.requests g.flags.asked

end Wiring

end StockGate
