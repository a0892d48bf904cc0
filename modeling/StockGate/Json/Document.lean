import StockGate.Document.Shape

namespace StockGate.Json

def Value.shape : Value → Document.Shape Value
  | .null => .null
  | .bool b => .flag b
  | .number n => (n.int?.map .whole).getD .other
  | .string s => .text s
  | .array items => .list items
  | .object members => .table members

def Value.isNull : Value → Bool
  | .null => true
  | _ => false

instance : Document Value where
  shape := Value.shape
  surplus := false
  isUnit := Value.isNull

end StockGate.Json
