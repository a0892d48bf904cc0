import StockGate.Settings.Check
import StockGate.Text.Utf8
import StockGate.Toml.Parser

namespace StockGate

inductive LoadError where
  /-- No file, or one that is not UTF-8. -/
  | unreadable
  /-- No TOML document, or one with a setting of the wrong type. -/
  | malformed
  | invalid (errors : List SettingError)
  deriving DecidableEq

/-- The message of settings that were read but refused. -/
def refusalMessage (errors : List SettingError) : String :=
  "Validation failed: " ++ ", ".intercalate (errors.map SettingError.text)

def LoadError.message : LoadError → String
  | .unreadable => "IO error"
  | .malformed => "Parse error"
  | .invalid errors => refusalMessage errors

namespace Settings

def ofToml (text : String) : Except LoadError Settings :=
  match (Toml.parse? text).bind read? with
  | none => .error .malformed
  | some s => if s.errors = [] then .ok s else .error (.invalid s.errors)

/-- Settings from a file's contents, `none` if there is no file. -/
def load (contents : Option Text.Bytes) : Except LoadError Settings :=
  match contents.bind Text.ofUtf8? with
  | none => .error .unreadable
  | some text => ofToml text

end Settings

end StockGate
