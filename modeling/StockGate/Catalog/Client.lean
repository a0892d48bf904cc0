import StockGate.Catalog.Address
import StockGate.Http.Exchange
import StockGate.Validation

namespace StockGate

structure CatalogClient where
  address : CatalogAddress
  /-- A connection that may take no time is never made. -/
  connects : Bool
  deriving DecidableEq

namespace CatalogClient

def ofSettings (c : CatalogSettings) : Except Url.Fault CatalogClient := do
  return ⟨← CatalogAddress.ofSettings c, c.connectTimeoutMs ≠ 0⟩

def request (c : CatalogClient) (product : String) : Except LookupError HttpRequest := do
  let url ← c.address.productUrl product
  match HttpRequest.get? url with
  | some r => if c.connects then return r else throw (.connect "no time to connect")
  | none => throw (.connect "not a web address")

/-- What an exchange says about the product asked for. -/
def interpret (product : String) : Exchange → LookupAnswer
  | .broken => .error (.connect "no answer")
  | .answered status body =>
    if !Exchange.isSuccess status then .error (.ofStatus status product)
    else
      match body with
      | none => .error (.connect "answer cut short")
      | some bytes =>
        match Product.decode? bytes with
        | some p => .ok p
        | none => .error (.invalidResponse (.undecodable "not a product record"))

def catalog (c : CatalogClient) (net : Network) : Catalog where
  answer i product :=
    match c.request product with
    | .error e => .after 0 (.error e)
    | .ok r => (net i r).map (interpret product)

def requests (c : CatalogClient) (asked : List String) : List HttpRequest :=
  asked.filterMap fun product => (c.request product).toOption

end CatalogClient

end StockGate
