import StockGate.Catalog.Product
import StockGate.Json.Document
import StockGate.Json.Parser
import StockGate.Outcome

namespace StockGate

inductive ResponseFault where
  | otherProduct (asked got : String)
  | schemaVersion (n : UInt32)
  | noStock
  /-- The catalog's base URL has no path that a lookup could extend. -/
  | noLookupUrl (base : String)
  | undecodable (detail : String)
  deriving DecidableEq

def ResponseFault.message : ResponseFault → String
  | .otherProduct asked got => s!"asked for product {asked}, got {got}"
  | .schemaVersion n => s!"unsupported inventory schemaVersion {n}"
  | .noStock => "response carries no inventory field"
  | .noLookupUrl base => s!"cannot build lookup URL from {base}"
  | .undecodable detail => detail

inductive LookupError where
  /-- No connection, or one cut short. -/
  | connect (detail : String)
  /-- A status that says the catalog is overloaded or down. -/
  | unavailable (code : Nat)
  | status (code : Nat)
  | notFound (product : String)
  | invalidResponse (fault : ResponseFault)
  deriving DecidableEq

namespace LookupError

def message : LookupError → String
  | .connect detail => s!"connection failed: {detail}"
  | .unavailable code => s!"inventory authority unavailable (HTTP {code})"
  | .status code => s!"inventory authority returned HTTP {code}"
  | .notFound product => s!"product {product} not found"
  | .invalidResponse fault => s!"invalid response: {fault.message}"

/-- Worth another attempt. -/
def isTransient : LookupError → Bool
  | .connect _ | .unavailable _ => true
  | _ => false

def kind : LookupError → ErrorKind
  | .invalidResponse _ => .invalidResponse
  | _ => .unavailable

def ofStatus (code : Nat) (product : String) : LookupError :=
  if code = 404 then .notFound product
  else if 502 ≤ code ∧ code ≤ 504 then .unavailable code
  else .status code

end LookupError

namespace Product

def stockSchemaVersion : UInt32 := 1

/-- What is in stock of the product asked for; nothing is ever guessed. -/
def available (p : Product) (asked : String) : Except LookupError UInt32 :=
  if p.id ≠ asked then .error (.invalidResponse (.otherProduct asked p.id))
  else
    match p.stock with
    | none => .error (.invalidResponse .noStock)
    | some level =>
      if level.schemaVersion = stockSchemaVersion then .ok level.available
      else .error (.invalidResponse (.schemaVersion level.schemaVersion))

def decode? (body : Text.Bytes) : Option Product :=
  (Json.parse? body).bind read?

def compact (p : Product) : String :=
  p.toJson.compact

end Product

end StockGate
