import StockGate.Json.Printer
import StockGate.Request

namespace StockGate

abbrev FlagContext := TextMap

namespace FlagContext

def base (r : Request) : FlagContext :=
  (TextMap.empty.insert "targetingKey" r.caller.correlationId.text).insert "productId" r.product

def withUser (ctx : FlagContext) : Option String → FlagContext
  | none => ctx
  | some user => (ctx.insert "targetingKey" user).insert "userId" user

/-- Attributes of the caller only fill names that are not taken. -/
def ofRequest (r : Request) : FlagContext :=
  r.caller.attributes.entries.foldl (fun ctx e => ctx.insertNew e.1 e.2)
    (withUser (base r) r.caller.user)

def toJson (ctx : FlagContext) : Json.Value :=
  .record (ctx.entries.map fun e => (e.1, .text e.2))

end FlagContext

end StockGate
