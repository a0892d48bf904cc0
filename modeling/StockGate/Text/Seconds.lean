import StockGate.Text.Digit

namespace StockGate.Text

def nearest (n d : Nat) : Nat :=
  let q := n / d
  let r := 2 * (n % d)
  if r < d ∨ (r = d ∧ q % 2 = 0) then q else q + 1

structure Fraction where
  num : Nat
  den : Nat
  deriving DecidableEq

namespace Fraction

def add (a b : Fraction) : Fraction :=
  ⟨a.num * b.den + b.num * a.den, a.den * b.den⟩

def shift (a : Fraction) (s : Int) : Fraction :=
  ⟨a.num <<< s.toNat, a.den <<< (-s).toNat⟩

/-- The shift that makes a fraction as large as a whole number of `digits` binary digits. -/
def scale (digits : Nat) (a : Fraction) : Int :=
  let s : Int := digits - 1 + a.den.log2 - a.num.log2
  let b := a.shift s
  if b.num < b.den <<< (digits - 1) then s + 1 else s

def toBinary (digits : Nat) (a : Fraction) : Fraction :=
  let s := a.scale digits
  let b := a.shift s
  shift ⟨nearest b.num b.den, 1⟩ (-s)

def decimal (places : Nat) (a : Fraction) : String :=
  let unit := Nat.pow 10 places
  let n := nearest (a.num * unit) a.den
  toString (n / unit) ++ "." ++ padded places (n % unit)

end Fraction

/-- The significand of a floating-point number of 64 bits. -/
def significandDigits : Nat := 53

/-- Whole seconds and the rest are rounded apart, then their sum; a tie goes to the even
neighbour. -/
def seconds (ms : Nat) : Fraction :=
  let part (n d : Nat) := Fraction.toBinary significandDigits ⟨n, d⟩
  ((part (ms / 1000) 1).add (part (ms % 1000) 1000)).toBinary significandDigits

def secondsText (ms : Nat) : String :=
  (seconds ms).decimal 6

end StockGate.Text
