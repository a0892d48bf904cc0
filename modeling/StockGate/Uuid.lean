import StockGate.Text.Digit
import StockGate.Text.Split

namespace StockGate

structure Uuid where
  bits : Nat
  deriving DecidableEq

namespace Uuid

open Text

def groupSizes : List Nat :=
  [8, 4, 4, 4, 12]

def hexDigits (n : Nat) : Nat → List Char
  | 0 => []
  | k + 1 => hexDigits (n / 16) k ++ [hexDigit (n % 16)]

def hyphenated : List Nat → List Char → List (List Char)
  | [], _ => []
  | n :: ns, cs => cs.take n :: hyphenated ns (cs.drop n)

def text (u : Uuid) : String :=
  String.ofList (['-'].intercalate (hyphenated groupSizes (hexDigits u.bits 32)))

def ofDigits? (cs : List Char) : Option Uuid :=
  if cs.length = 32 ∧ cs.all (isDigitIn 16) then some ⟨numeral 16 cs⟩ else none

def plain? (cs : List Char) : Option Uuid :=
  let groups := splitAt '-' cs
  if groups.map List.length = groupSizes then ofDigits? groups.flatten else ofDigits? cs

/-- Reads digits with or without hyphens, also in braces or behind the mark of a URN. -/
def parse? (s : String) : Option Uuid :=
  match s.toList with
  | '\x7b' :: rest => if rest.getLast? = some '\x7d' then plain? rest.dropLast else none
  | cs => if "urn:uuid:".toList.isPrefixOf cs then plain? (cs.drop 9) else plain? cs

/-- Random bits, with version 4 and the common variant marked among them. -/
def ofRandom (n : Nat) : Uuid :=
  let field (low count : Nat) := (n >>> low % 1 <<< count) <<< low
  ⟨field 80 48 + 4 <<< 76 + field 64 12 + 1 <<< 63 + field 0 62⟩

end Uuid

end StockGate
