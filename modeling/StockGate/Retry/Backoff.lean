namespace StockGate.Backoff

/-- The longest duration there is: the largest number of seconds in 64 bits, and just under
one more. -/
def longest : Nat :=
  (UInt64.size - 1) * 1000000000 + 999999999

def nanosPerMilli : Nat := 1000000

/-- Jitter would have made a delay longer than any duration. -/
inductive Overflow where
  | delayTooLong
  deriving DecidableEq

def Overflow.message : Overflow → String
  | .delayTooLong => "overflow when adding durations"

/-- Doubles with every attempt, up to the largest number of 32 bits. -/
def factor (attempt : Nat) : Nat :=
  if attempt ≤ 32 then Nat.pow 2 (attempt - 1) else UInt32.size - 1

/-- The delay before jitter, in nanoseconds like all times here. -/
def step (attempt base : Nat) : Nat :=
  min (base * factor attempt) longest

/-- Jitter is a whole number of milliseconds below a tenth of the delay, counted in 64 bits. -/
def jitterRange (delay : Nat) : Nat :=
  delay / nanosPerMilli / 10 % UInt64.size

/-- The jitter that a draw means, in milliseconds; a draw beyond the range means its last value. -/
def jitter (delay draw : Nat) : Nat :=
  min draw (jitterRange delay - 1)

/-- The delay before retry number `attempt`, at most `cap`. -/
def delay (attempt base cap draw : Nat) : Except Overflow Nat :=
  if attempt = 0 ∨ base = 0 then .ok 0
  else
    let d := step attempt base
    let total := d + jitter d draw * nanosPerMilli
    if longest < total then .error .delayTooLong else .ok (min total cap)

theorem factor_eq {attempt : Nat} (h : 0 < attempt) :
    factor attempt = min (Nat.pow 2 (attempt - 1)) (UInt32.size - 1) := by
  unfold factor
  split
  · next h' =>
    have h : Nat.pow 2 (attempt - 1) ≤ Nat.pow 2 31 :=
      Nat.pow_le_pow_right (by decide) (by omega)
    exact (Nat.min_eq_left (Nat.le_trans h (by decide))).symm
  · next h' =>
    have h : Nat.pow 2 32 ≤ Nat.pow 2 (attempt - 1) :=
      Nat.pow_le_pow_right (by decide) (by omega)
    exact (Nat.min_eq_right (Nat.le_trans (by decide) h)).symm

end StockGate.Backoff
