import StockGate.Json.Printer
import StockGate.Service
import StockGate.Text.Utf8
import StockGate.Url.Parser

namespace StockGate

structure HttpRequest where
  method : String
  url : Url
  accept : String
  /-- A body is always a JSON document. -/
  body : Option Json.Value := none

namespace HttpRequest

def jsonType : String := "application/json"

/-- Requests can be sent to web servers only. -/
def isSendable (url : Url) : Bool :=
  (url.scheme == "http".toList || url.scheme == "https".toList) && url.host.isSome

def get? (url : Url) : Option HttpRequest :=
  if isSendable url then some { method := "GET", url, accept := jsonType } else none

def post? (url : Url) (body : Json.Value) : Option HttpRequest :=
  if isSendable url then some { method := "POST", url, accept := "*/*", body := some body }
  else none

end HttpRequest

inductive Exchange where
  /-- No connection, or one that closed before a proper answer. -/
  | broken
  /-- An answer, whose body is `none` if it was cut short. -/
  | answered (status : Nat) (body : Option Text.Bytes)
  deriving DecidableEq

namespace Exchange

def isSuccess (status : Nat) : Bool :=
  200 ≤ status && status < 300

/-- Answers of these kinds end with their head. -/
def isBodiless (status : Nat) : Bool :=
  status = 101 || status = 204 || status = 304

/-- Interim answers promise another one, and statuses have three digits. -/
def isFinal (status : Nat) : Bool :=
  status = 101 || (200 ≤ status && status < 1000)

/-- An answer as received, when nothing follows it on its connection. -/
def received (status : Nat) (body : Option Text.Bytes) : Exchange :=
  if !isFinal status then .broken
  else .answered status (if isBodiless status then some [] else body)

end Exchange

/-- A server: what it answers to the requests it gets, by their number. -/
abbrev Network := Nat → HttpRequest → Reply Exchange

end StockGate
