import StockGate.Document.Shape

namespace StockGate.Toml

/-- How a table came to be, which decides who may add to it. -/
inductive Origin where
  /-- Named by a header of its own. -/
  | header
  /-- Passed through by a longer header. -/
  | implied
  /-- Passed through by a dotted key. -/
  | dotted
  /-- Written between braces, and complete. -/
  | inline
  deriving DecidableEq

/-- Values as far as settings need them: a float or a moment only has to be well formed.
-/
inductive Item where
  | text (s : String)
  | integer (n : Int)
  | float
  | bool (b : Bool)
  | moment
  | array (items : List Item)
  | table (origin : Origin) (members : List (String × Item))
  /-- Tables that share a doubly bracketed header, in order. -/
  | tables (elements : List (List (String × Item)))

abbrev Members := List (String × Item)

/-- A moment is seen as a table without members, so it can stand for a record of defaults only. -/
def Item.shape : Item → Document.Shape Item
  | .text s => .text (some s)
  | .integer n => .whole n
  | .float => .other
  | .bool b => .flag b
  | .moment => .table []
  | .array items => .list items
  | .table _ members => .table (members.map fun m => (some m.1, m.2))
  | .tables elements => .list (elements.map (.table .header))

def Item.isUnit : Item → Bool
  | .array items => items.isEmpty
  | .table _ members => members.isEmpty
  | _ => false

instance : Document Item where
  shape := Item.shape
  surplus := true
  isUnit := Item.isUnit

end StockGate.Toml
