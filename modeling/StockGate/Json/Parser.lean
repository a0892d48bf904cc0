import StockGate.Json.Token

namespace StockGate.Json

/-- An unfinished array or object, latest entry first. They are kept on a stack, so
nesting has no limit. -/
inductive Frame where
  | array (items : List Value)
  | object (members : List (Quoted × Value)) (key : Quoted)

inductive State where
  /-- A value is due. -/
  | value (outer : List Frame)
  /-- An array was opened: a value or its end is due. -/
  | opened (outer : List Frame)
  /-- A name is due; the end of the object too if it was just opened. -/
  | name (members : List (Quoted × Value)) (fresh : Bool) (outer : List Frame)
  | colon (members : List (Quoted × Value)) (key : Quoted) (outer : List Frame)
  /-- A value is complete. -/
  | complete (v : Value) (outer : List Frame)

namespace State

def startValue (outer : List Frame) : Token → Option State
  | .openBracket => some (.opened outer)
  | .openBrace => some (.name [] true outer)
  | .quoted s => some (.complete (.string s) outer)
  | .scalar v => some (.complete v outer)
  | _ => none

def step : State → Token → Option State
  | .value outer, t => startValue outer t
  | .opened outer, .closeBracket => some (.complete (.array []) outer)
  | .opened outer, t => startValue (.array [] :: outer) t
  | .name ms _ outer, .quoted k => some (.colon ms k outer)
  | .name _ true outer, .closeBrace => some (.complete (.object []) outer)
  | .name .., _ => none
  | .colon ms k outer, .colon => some (.value (.object ms k :: outer))
  | .colon .., _ => none
  | .complete v (.array items :: outer), .comma => some (.value (.array (v :: items) :: outer))
  | .complete v (.array items :: outer), .closeBracket =>
    some (.complete (.array (v :: items).reverse) outer)
  | .complete v (.object ms k :: outer), .comma => some (.name ((k, v) :: ms) false outer)
  | .complete v (.object ms k :: outer), .closeBrace =>
    some (.complete (.object ((k, v) :: ms).reverse) outer)
  | .complete .., _ => none

end State

/-- The one value that a text holds. -/
def parse? (bytes : Text.Bytes) : Option Value := do
  match (← tokens? bytes).foldlM State.step (.value []) with
  | some (.complete v []) => some v
  | _ => none

end StockGate.Json
