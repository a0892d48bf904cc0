import StockGate.Flag.Gate
import StockGate.Http.Exchange
import StockGate.Json.Document
import StockGate.Json.Parser

namespace StockGate

open Document

structure FlagClient where
  endpoint : String
  /-- A connection that may take no time is never made. -/
  connects : Bool
  deriving DecidableEq

namespace FlagClient

def resolvePath : String := "/flagd.evaluation.v1.Service/ResolveBoolean"

def trimSlashes (cs : List Char) : List Char :=
  (cs.reverse.dropWhile (· = '/')).reverse

/-- The service's own path goes after the base URL as it is written. -/
def endpointOf (base : String) : String :=
  String.ofList (trimSlashes base.toList) ++ resolvePath

def make (base : String) (connectTimeout : Nat) : FlagClient :=
  ⟨endpointOf base, connectTimeout ≠ 0⟩

def questionJson (q : FlagQuestion) : Json.Value :=
  .record [("flagKey", .text q.key), ("context", FlagContext.toJson q.context)]

def request (c : FlagClient) (q : FlagQuestion) : Except FlagError HttpRequest := do
  let url ← (Url.parse c.endpoint).mapError fun fault => FlagError.transport fault.message
  match HttpRequest.post? url (questionJson q) with
  | some r => if c.connects then return r else throw (.transport "no time to connect")
  | none => throw (.transport "not a web address")

def fieldNames : List String :=
  ["value", "reason", "variant"]

def readValue? (v : Json.Value) : Option FlagValue := do
  let r ← fields? fieldNames v
  return {
    value := ← r.required "value" flag?
    resolution := some {
      reason := ← r.withDefault "reason" (maybe? text?) none
      variant := ← r.withDefault "variant" (maybe? text?) none } }

def interpret : Exchange → FlagAnswer
  | .broken => .error (.transport "no answer")
  | .answered status body =>
    if !Exchange.isSuccess status then .error (.status status)
    else
      match body with
      | none => .error (.malformed "answer cut short")
      | some bytes =>
        match (Json.parse? bytes).bind readValue? with
        | some v => .ok v
        | none => .error (.malformed "not a flag value")

def service (c : FlagClient) (net : Network) : FlagService where
  answer i q :=
    match c.request q with
    | .error e => .after 0 (.error e)
    | .ok r => (net i r).map interpret

def requests (c : FlagClient) (asked : List FlagQuestion) : List HttpRequest :=
  asked.filterMap fun q => (c.request q).toOption

end FlagClient

end StockGate
