import StockGate.Json.Basic
import StockGate.Text.Digit

namespace StockGate.Json

open Text (hexDigit)

/-- Quotes, backslashes and control characters are escaped; all other characters stand for
themselves. -/
def escape (c : Char) : List Char :=
  if c = '"' then ['\\', '"']
  else if c = '\\' then ['\\', '\\']
  else if c = '\n' then ['\\', 'n']
  else if c = '\r' then ['\\', 'r']
  else if c = '\t' then ['\\', 't']
  else if c = '\x08' then ['\\', 'b']
  else if c = '\x0c' then ['\\', 'f']
  else if c.toNat < 0x20 then
    ['\\', 'u', '0', '0', hexDigit (c.toNat / 16), hexDigit (c.toNat % 16)]
  else [c]

def quote (s : String) : List Char :=
  '"' :: s.toList.flatMap escape ++ ['"']

/-- A quoted value without a text of its own is written as a lone high surrogate. -/
def printQuoted : Quoted → List Char
  | some s => quote s
  | none => ['"', '\\', 'u', 'd', '8', '0', '0', '"']

def digitChar (d : Fin 10) : Char :=
  hexDigit d.val

namespace Number

def printFraction : List (Fin 10) → List Char
  | [] => []
  | ds => '.' :: ds.map digitChar

def printExponent : Option Int → List Char
  | none => []
  | some e => 'e' :: (if e < 0 then ['-'] else []) ++ (toString e.natAbs).toList

def print (n : Number) : List Char :=
  (if n.negative then ['-'] else []) ++ (toString n.whole).toList ++ printFraction n.fraction ++
    printExponent n.exponent

end Number

namespace Value

mutual

def print : Value → List Char
  | .null => "null".toList
  | .bool b => (if b then "true" else "false").toList
  | .number n => n.print
  | .string s => printQuoted s
  | .array items => '[' :: printItems items ++ [']']
  | .object members => '{' :: printMembers members ++ ['}']

def printItems : List Value → List Char
  | [] => []
  | [v] => v.print
  | v :: vs => v.print ++ ',' :: printItems vs

def printMembers : List (Quoted × Value) → List Char
  | [] => []
  | [(k, v)] => printQuoted k ++ ':' :: v.print
  | (k, v) :: ms => printQuoted k ++ ':' :: v.print ++ ',' :: printMembers ms

end

def compact (v : Value) : String :=
  String.ofList v.print

end Value

end StockGate.Json
