import StockGate.Text.Utf8

namespace StockGate.Json

/-- What stands between two quotes; `none` if its bytes and escapes spell no Unicode text. -/
abbrev Quoted := Option String

/-- A numeral as written, so that `1`, `1.0` and `1e0` stay apart. -/
structure Number where
  negative : Bool
  whole : Nat
  fraction : List (Fin 10)
  exponent : Option Int
  deriving DecidableEq

/-- Members stay in written order, repeats included, so that whoever reads an object
decides what a repeat means. -/
inductive Value where
  | null
  | bool (b : Bool)
  | number (n : Number)
  | string (s : Quoted)
  | array (items : List Value)
  | object (members : List (Quoted × Value))

namespace Number

def ofNat (n : Nat) : Number :=
  ⟨false, n, [], none⟩

def ofInt (n : Int) : Number :=
  ⟨n < 0, n.natAbs, [], none⟩

/-- The integer of a numeral with neither point nor exponent; `-0` is not an integer. -/
def int? (n : Number) : Option Int :=
  if n.fraction ≠ [] ∨ n.exponent ≠ none ∨ (n.negative ∧ n.whole = 0) then none
  else some (if n.negative then -n.whole else n.whole)

theorem int?_ofInt (n : Int) : (ofInt n).int? = some n := by
  unfold ofInt int?
  by_cases h : n < 0
  · have hz : n.natAbs ≠ 0 := by omega
    rw [if_neg (by simp [hz]), if_pos (by simp [h])]
    exact congrArg some (show -(n.natAbs : Int) = n by omega)
  · rw [if_neg (by simp [h]), if_neg (by simp [h])]
    exact congrArg some (show (n.natAbs : Int) = n by omega)

end Number

namespace Value

def text (s : String) : Value :=
  .string (some s)

def nat (n : Nat) : Value :=
  .number (.ofNat n)

def int (n : Int) : Value :=
  .number (.ofInt n)

def record (members : List (String × Value)) : Value :=
  .object (members.map fun m => (some m.1, m.2))

def orNull {α : Type} (f : α → Value) (o : Option α) : Value :=
  (o.map f).getD .null

end Value

end StockGate.Json
