namespace StockGate

inductive FlagError where
  | transport (detail : String)
  | status (code : Nat)
  | malformed (detail : String)
  /-- The chosen source lacks a setting. -/
  | notConfigured (field : String)
  deriving DecidableEq

def FlagError.message : FlagError → String
  | .transport detail => s!"flag provider unreachable: {detail}"
  | .status code => s!"flag provider returned HTTP {code}"
  | .malformed detail => s!"malformed flag evaluation: {detail}"
  | .notConfigured field => s!"flag provider not configured: {field} is required"

end StockGate
