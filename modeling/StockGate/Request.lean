import StockGate.Text.Blank
import StockGate.Text.Map
import StockGate.Uuid

namespace StockGate

/-- Data of the caller. It steers flags and telemetry, never the verdict. -/
structure Caller where
  correlationId : Uuid
  user : Option String := none
  attributes : TextMap := .empty
  deriving DecidableEq

inductive RequestError where
  | blankProduct
  | zeroQuantity
  deriving DecidableEq

def RequestError.message : RequestError → String
  | .blankProduct => "product id must not be empty"
  | .zeroQuantity => "requested quantity must be positive"

/-- A cart mutation that awaits validation. -/
structure Request where
  product : String
  quantity : UInt32
  caller : Caller
  product_not_blank : Text.blankText product = false
  quantity_ne_zero : quantity ≠ 0
  deriving DecidableEq

/-- The product is checked before the quantity. -/
def Request.make (product : String) (quantity : UInt32) (caller : Caller) :
    Except RequestError Request :=
  if hp : Text.blankText product = true then .error .blankProduct
  else if hq : quantity = 0 then .error .zeroQuantity
  else .ok ⟨product, quantity, caller, by simpa using hp, hq⟩

end StockGate
