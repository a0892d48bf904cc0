import StockGate.Text.Split
import StockGate.Text.Utf8
import StockGate.Url.Domain.Mapping
import StockGate.Url.Domain.Punycode

namespace StockGate.Url.Domain

open Text

def isForbidden (c : Char) : Bool :=
  c.toNat ≤ 0x20 || c = '\x7f' || "%#/:<>?@[\\]^|".toList.contains c

def mapChar? (c : Char) : Option (List Char) :=
  if c.toNat < 0x80 then (if isForbidden c then none else some [c.toLower])
  else
    match fate c with
    | .kept => some [c]
    | .mapped cs => if cs.any isForbidden then none else some cs
    | .refused => none

def isKept (c : Char) : Bool :=
  match mapChar? c with
  | some cs => cs == [c]
  | none => false

def isCombining (c : Char) : Bool :=
  between 0x300 0x36F c.toNat

def startsWithMark (label : List Char) : Bool :=
  label.head?.any isCombining

/-- A label that is already encoded must decode to one that needed it. -/
def encodedLabel? (label tail : List Char) : Option (List Char) :=
  match Punycode.decode? tail with
  | none => none
  | some cs =>
    if cs.all isKept ∧ !cs.all Punycode.isAscii ∧ !startsWithMark cs then some label else none

def label? (label : List Char) : Option (List Char) :=
  match label with
  | 'x' :: 'n' :: '-' :: '-' :: tail => encodedLabel? label tail
  | _ =>
    if label.all Punycode.isAscii then some label
    else if startsWithMark label then none
    else some ("xn--".toList ++ Punycode.encode label)

/-- The ASCII form of a domain name given as UTF-8. -/
def toAscii? (bytes : Bytes) : Option (List Char) := do
  let cs ← utf8Chars? bytes
  let mapped ← cs.mapM mapChar?
  let labels ← (splitAt '.' mapped.flatten).mapM label?
  return ['.'].intercalate labels

end StockGate.Url.Domain
