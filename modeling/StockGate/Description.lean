import StockGate.Gate.Basic
import StockGate.Text.Duration
import StockGate.Text.Quoted

namespace StockGate

open Text

/-- A named record; `hidden` says that it has more fields than are shown. -/
def recordText (name : String) (fields : List (String × String)) (hidden : Bool) : String :=
  let shown := fields.map (fun f => f.1 ++ ": " ++ f.2) ++ (if hidden then [".."] else [])
  name ++ " \x7b " ++ ", ".intercalate shown ++ " \x7d"

def FlagGate.description (g : FlagGate) : String :=
  recordText "FeatureGate"
    [("flag_key", quoted g.key), ("timeout", durationText g.timeout)] true

def Validation.description : String :=
  recordText "InventoryValidator" [] true

def Emitter.description (e : Emitter) : String :=
  recordText "TelemetryEmitter"
    [("sinks", "[" ++ ", ".intercalate (e.sinks.map (quoted ·.name)) ++ "]")] false

end StockGate
