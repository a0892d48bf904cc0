import StockGate.Url.Basic
import StockGate.Url.Encode
import StockGate.Text.Split

namespace StockGate.Url

open Text

def isTabOrNewline (c : Char) : Bool :=
  c = '\t' || c = '\n' || c = '\r'

def isDriveLetter : Chars → Bool
  | [a, b] => a.isAlpha && (b = ':' || b = '|')
  | _ => false

/-- The two spellings of each dot in a segment that means a step. -/
def dots (seg : Chars) : Option Nat :=
  match seg with
  | '.' :: rest => (dots rest).map (· + 1)
  | '%' :: '2' :: e :: rest => if e = 'e' ∨ e = 'E' then (dots rest).map (· + 1) else none
  | [] => some 0
  | _ => none

/-- A step up, which a drive letter stops. -/
def stepUp (segs : List Chars) : List Chars :=
  match segs.getLast? with
  | some seg => if isDriveLetter seg then segs else segs.dropLast
  | none => []

/-- Adds one encoded segment; `last` says that nothing follows it. -/
def addSegment (file : Bool) (segs : List Chars) (seg : Chars) (last : Bool) : List Chars :=
  match dots seg with
  | some 1 => if last then segs ++ [[]] else segs
  | some 2 => if last then stepUp segs ++ [[]] else stepUp segs
  | _ =>
    if file ∧ segs = [] ∧ isDriveLetter seg then [[seg.headD ' ', ':']] else segs ++ [seg]

def addSegments (file : Bool) (segs : List Chars) : List Chars → List Chars
  | [] => segs
  | [seg] => addSegment file segs seg true
  | seg :: rest => addSegments file (addSegment file segs seg false) rest

/-- The segments of a written path, after the slash that starts it. -/
def readSegments (special file : Bool) (cs : Chars) : List Chars :=
  let parts := splitWhere (fun c => c = '/' ∨ (special ∧ c = '\\')) cs
  addSegments file [] (parts.map (encode EncodeSet.path))

/-- A path that ends in a slash loses it, unless it is the root. -/
def popIfEmpty (segs : List Chars) : List Chars :=
  if 2 ≤ segs.length ∧ segs.getLast? = some [] then segs.dropLast else segs

/-- Adds a text as one segment. Tabs and line ends vanish, `.` and `..` add nothing, and the
root's empty segment gives way. -/
def pushSegment (scheme : Chars) (segs : List Chars) (seg : Chars) : List Chars :=
  if seg = ['.'] ∨ seg = ['.', '.'] then segs
  else
    let set := if isSpecial scheme then EncodeSet.specialSegment else EncodeSet.segment
    let encoded := encode set (seg.filter (!isTabOrNewline ·))
    addSegment (isFile scheme) (if segs = [[]] then [] else segs) encoded true

end StockGate.Url
