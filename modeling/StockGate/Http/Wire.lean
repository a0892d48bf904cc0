import StockGate.Http.Exchange
import StockGate.Text.Split

namespace StockGate

open Text

namespace HttpRequest

def bodyText (r : HttpRequest) : String :=
  (r.body.map Json.Value.compact).getD ""

def host (r : HttpRequest) : String :=
  String.ofList ((r.url.host.map Url.Host.print).getD [] ++ Url.printPort r.url.port)

def bodyHeaders (r : HttpRequest) : List String :=
  match r.body with
  | none => []
  | some _ => [s!"Content-Type: {jsonType}", s!"Content-Length: {r.bodyText.utf8ByteSize}"]

def lines (r : HttpRequest) : List String :=
  [s!"{r.method} {r.url.target} HTTP/1.1", s!"Host: {r.host}", s!"Accept: {r.accept}"] ++
    r.bodyHeaders ++ ["Connection: close", "", r.bodyText]

def wire (r : HttpRequest) : String :=
  "\r\n".intercalate r.lines

end HttpRequest

namespace Exchange

/-- The lines up to the first empty one, and what follows it. -/
def cutHead? : Bytes → List Char → Option (List (List Char) × Bytes)
  | 0x0D :: 0x0A :: rest, [] => some ([], rest)
  | 0x0D :: 0x0A :: rest, line => (cutHead? rest []).map fun h => (line.reverse :: h.1, h.2)
  | b :: rest, line => cutHead? rest (Char.ofNat b.toNat :: line)
  | [], _ => none

def status? (line : List Char) : Option Nat :=
  match splitAt ' ' line with
  | version :: code :: _ =>
    if "HTTP/1.".toList.isPrefixOf version ∧ code.length = 3 then numeral? code else none
  | _ => none

def lower (cs : List Char) : List Char :=
  cs.map Char.toLower

def trimBlanks (cs : List Char) : List Char :=
  let blank (c : Char) := c = ' ' || c = '\t'
  ((cs.dropWhile blank).reverse.dropWhile blank).reverse

/-- The value of a header, whose name counts in either case. -/
def header? (name : String) (lines : List (List Char)) : Option (List Char) :=
  lines.findSome? fun line =>
    match cutAt? [':'] line with
    | some (n, value) => if lower n = name.toList then some (trimBlanks value) else none
    | none => none

/-- The bytes of chunks, each behind its size, up to the empty one. -/
def unchunk? : Nat → Bytes → Option Bytes
  | 0, _ => none
  | fuel + 1, bytes =>
    let line := bytes.takeWhile (· ≠ 0x0D)
    let rest := bytes.drop (line.length + 2)
    let digits := (line.map fun b => Char.ofNat b.toNat).takeWhile (isDigitIn 16)
    let size := numeral 16 digits
    if digits = [] ∨ rest.length < size then none
    else if size = 0 then some []
    else (unchunk? fuel (rest.drop (size + 2))).map (rest.take size ++ ·)

/-- The body, `none` if the connection closed before its end. -/
def body? (headers : List (List Char)) (rest : Bytes) : Option Bytes :=
  if (header? "transfer-encoding" headers).map lower = some "chunked".toList then
    unchunk? (rest.length + 1) rest
  else
    match (header? "content-length" headers).bind numeral? with
    | none => some rest
    | some n => if rest.length < n then none else some (rest.take n)

/-- What all the bytes that a server sent before it closed the connection amount to. -/
def ofBytes (bytes : Bytes) : Exchange :=
  match cutHead? bytes [] with
  | some (first :: headers, rest) =>
    match status? first with
    | some code => received code (body? headers rest)
    | none => .broken
  | _ => .broken

end Exchange

end StockGate
