namespace StockGate

inductive Reply (α : Type) where
  | after (delay : Nat) (answer : α)
  | never
  deriving DecidableEq

def Reply.map {α β : Type} (f : α → β) : Reply α → Reply β
  | .after delay answer => .after delay (f answer)
  | .never => .never

/-- A service whose answer may depend on the question and on how many came before it.
Times are in milliseconds. -/
structure Service (α β : Type) where
  answer : Nat → α → Reply β
  /-- The questions so far, in order. -/
  asked : List α := []

def Service.ask {α β : Type} (s : Service α β) (question : α) : Service α β × Reply β :=
  ({ s with asked := s.asked ++ [question] }, s.answer s.asked.length question)

/-- An answer under way, with the time of its arrival, and the last moment at which it counts. -/
structure Awaited (α : Type) where
  arrival : Option (Nat × α)
  limit : Nat
  deriving DecidableEq

namespace Awaited

variable {α : Type}

/-- An answer that takes no time arrives even if the limit has passed. -/
def start (now : Nat) (r : Reply α) (limit : Nat) : Awaited α where
  arrival :=
    match r with
    | .after delay answer => some (now + delay, answer)
    | .never => none
  limit := max now limit

def ends (w : Awaited α) : Nat :=
  match w.arrival with
  | some (t, _) => min t w.limit
  | none => w.limit

/-- The answer, if it arrives no later than the limit. -/
def answer? (w : Awaited α) : Option α :=
  match w.arrival with
  | some (t, answer) => if t ≤ w.limit then some answer else none
  | none => none

theorem ends_le_limit (w : Awaited α) : w.ends ≤ w.limit := by
  unfold ends
  split <;> omega

theorem ends_eq_limit_of_answer?_eq_none {w : Awaited α} (h : w.answer? = none) :
    w.ends = w.limit := by
  unfold answer? at h
  unfold ends
  split at h
  · split at h
    · simp at h
    · omega
  · rfl

end Awaited

end StockGate
