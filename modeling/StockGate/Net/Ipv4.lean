import StockGate.Text.Digit
import StockGate.Text.Split

namespace StockGate.Net

open Text

/-- An address as one number of 32 bits. -/
structure Ipv4 where
  bits : Nat
  deriving DecidableEq

namespace Ipv4

def octets (a : Ipv4) : List Nat :=
  [a.bits >>> 24 % 256, a.bits >>> 16 % 256, a.bits >>> 8 % 256, a.bits % 256]

def ofOctets (os : List Nat) : Ipv4 :=
  ⟨os.foldl (fun n o => n * 256 + o) 0⟩

def text (a : Ipv4) : String :=
  ".".intercalate (a.octets.map toString)

/-- A number up to 255 without needless zeros. -/
def octet? (cs : List Char) : Option Nat :=
  match numeral? cs with
  | some n =>
    if n < 256 ∧ cs.length ≤ 3 ∧ (cs.length = 1 ∨ cs.head? ≠ some '0') then some n else none
  | none => none

def parse? (cs : List Char) : Option Ipv4 := do
  let os ← (splitAt '.' cs).mapM octet?
  if os.length = 4 then some (ofOctets os) else none

/-- A number in base ten, or in base sixteen or eight by its mark; a bare mark is zero. -/
def looseNumber? (cs : List Char) : Option Nat :=
  match cs with
  | [] => none
  | '0' :: 'x' :: ds | '0' :: 'X' :: ds => ofDigits 16 ds
  | '0' :: d :: ds => ofDigits 8 (d :: ds)
  | ds => ofDigits 10 ds
where
  ofDigits (base : Nat) (ds : List Char) : Option Nat :=
    if ds.all (isDigitIn base) then some (numeral base ds) else none

/-- The parts of a domain, without the empty one after a final point. -/
def parts (cs : List Char) : List (List Char) :=
  let ps := splitAt '.' cs
  if ps.getLast? = some [] then ps.dropLast else ps

/-- Whether a domain must be an address because its last part is a number. -/
def endsInNumber (cs : List Char) : Bool :=
  match (parts cs).getLast? with
  | none => false
  | some last => (last ≠ [] ∧ last.all isDecimal) ∨ (looseNumber? last).isSome

/-- One to four loose numbers, the last of which fills all bytes that the others leave. -/
def parseLoose? (cs : List Char) : Option Ipv4 := do
  let numbers ← (parts cs).mapM looseNumber?
  let last ← numbers.getLast?
  let front := numbers.dropLast
  let limit := Nat.pow 256 (4 - front.length)
  if numbers.length ≤ 4 ∧ front.all (· < 256) ∧ last < limit then
    some ⟨(ofOctets front).bits * limit + last⟩
  else none

end Ipv4

end StockGate.Net
