import StockGate.Command.LogFilter
import StockGate.Json.Printer
import StockGate.Settings.Basic

namespace StockGate.Command

def Field.json : Field → Json.Value
  | .text s => .text s
  | .number n => .nat n
  | .flag b => .bool b

def Field.plain : Field → String
  | .text s => s
  | .number n => toString n
  | .flag b => toString b

def jsonLine (e : Event) : String :=
  (Json.Value.record [
    ("level", .text e.level.label),
    ("fields", .record
      (("message", .text e.message) :: e.fields.map fun f => (f.1, Field.json f.2))),
    ("target", .text programTarget)]).compact

def plainLine (e : Event) : String :=
  let fields := e.fields.map fun f => s!" {f.1}={Field.plain f.2}"
  s!"{e.level.label} {programTarget}: {e.message}" ++ String.join fields

def logLine : LogFormat → Event → String
  | .json => jsonLine
  | .pretty => plainLine

end StockGate.Command
