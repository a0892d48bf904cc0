import StockGate.Text.Digit

namespace StockGate.Text

def trimZeros (cs : List Char) : List Char :=
  (cs.reverse.dropWhile (· = '0')).reverse

/-- A number of thousandths, without zeros at its end. -/
def thousandths (n : Nat) : String :=
  match trimZeros (padded 3 (n % 1000)).toList with
  | [] => toString (n / 1000)
  | digits => toString (n / 1000) ++ "." ++ String.ofList digits

def durationText (ms : Nat) : String :=
  if ms = 0 then "0ns" else if ms < 1000 then toString ms ++ "ms" else thousandths ms ++ "s"

end StockGate.Text
