import StockGate.Catalog.Lookup
import StockGate.Settings.Check
import StockGate.Url.Parser

namespace StockGate

structure CatalogAddress where
  base : Url
  productPath : String
  deriving DecidableEq

namespace CatalogAddress

def ofSettings (c : CatalogSettings) : Except Url.Fault CatalogAddress := do
  return ⟨← Url.parse c.baseUrl, c.productPath⟩

/-- The parts of the product path between slashes, the product in place of each `{id}`. -/
def segments (a : CatalogAddress) (product : String) : List Url.Chars :=
  ((Text.splitAt '/' a.productPath.toList).filter (· ≠ [])).map
    (Text.replaceAll placeholder (by decide) product.toList)

/-- The path of the base is kept, and the product is escaped to be one segment. -/
def productUrl (a : CatalogAddress) (product : String) : Except LookupError Url :=
  match a.base.push? (a.segments product) with
  | some url => .ok url
  | none => .error (.invalidResponse (.noLookupUrl a.base.text))

end CatalogAddress

end StockGate
