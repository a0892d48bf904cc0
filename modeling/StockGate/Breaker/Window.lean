namespace StockGate

structure Sample where
  time : Nat
  failed : Bool
  deriving DecidableEq

/-- Recent outcomes, oldest first. -/
abbrev Window := List Sample

namespace Window

/-- A full window makes room by forgetting its oldest sample. -/
def capacity : Nat := 4096

/-- Drops the samples older than `span` from the front; a sample of exactly that age stays. -/
def prune (w : Window) (now span : Nat) : Window :=
  w.dropWhile fun s => span < now - s.time

def push (w : Window) (s : Sample) : Window :=
  (if capacity ≤ w.length then w.drop 1 else w) ++ [s]

def failures (w : Window) : Nat :=
  w.countP Sample.failed

def start? (w : Window) : Option Nat :=
  w.head?.map Sample.time

end Window

end StockGate
