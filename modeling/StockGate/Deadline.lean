import StockGate.Service

namespace StockGate

/-- The point in time, in milliseconds, by which something must be done. -/
structure Deadline where
  time : Nat
  deriving DecidableEq

namespace Deadline

def after (now timeout : Nat) : Deadline :=
  ⟨now + timeout⟩

def remaining (d : Deadline) (now : Nat) : Nat :=
  d.time - now

def isExpired (d : Deadline) (now : Nat) : Bool :=
  d.time ≤ now

inductive Exceeded where
  | deadline
  deriving DecidableEq

def Exceeded.message : Exceeded → String
  | .deadline => "deadline exceeded"

/-- Does work of some length under the deadline, and says when that ends. -/
def run {α : Type} (d : Deadline) (now length : Nat) (value : α) : Except Exceeded α × Nat :=
  let w := Awaited.start now (.after length value) d.time
  match w.answer? with
  | some a => (.ok a, w.ends)
  | none => (.error .deadline, w.ends)

end Deadline

end StockGate
