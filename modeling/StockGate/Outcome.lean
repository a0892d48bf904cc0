import StockGate.Request

namespace StockGate

inductive ErrorKind where
  /-- A proper answer: not enough stock. -/
  | insufficientInventory
  | timeout
  | invalidResponse
  | unavailable
  /-- Refused by the breaker, without asking the catalog. -/
  | circuitOpen
  deriving DecidableEq

namespace ErrorKind

def label : ErrorKind → String
  | .insufficientInventory => "insufficient_inventory"
  | .timeout => "timeout"
  | .invalidResponse => "invalid_response"
  | .unavailable => "unavailable"
  | .circuitOpen => "circuit_open"

/-- The name of the kind as an identifier. -/
def name : ErrorKind → String
  | .insufficientInventory => "InsufficientInventory"
  | .timeout => "Timeout"
  | .invalidResponse => "InvalidResponse"
  | .unavailable => "Unavailable"
  | .circuitOpen => "CircuitOpen"

def all : List ErrorKind :=
  [.insufficientInventory, .timeout, .invalidResponse, .unavailable, .circuitOpen]

/-- A failure of the validation itself rather than an answer about stock. -/
def isSystem : ErrorKind → Bool
  | .insufficientInventory => false
  | _ => true

end ErrorKind

/-- Durations are in milliseconds; attempts count the first one and the retries. -/
inductive Finding where
  /-- Validation was switched off. -/
  | skipped
  /-- The breaker refused the call. -/
  | shed
  | checked (available : UInt32) (duration attempts : Nat)
  | failed (kind : ErrorKind) (duration attempts : Nat)
  deriving DecidableEq

structure Outcome where
  product : String
  requested : UInt32
  finding : Finding
  deriving DecidableEq

namespace Outcome

def of (r : Request) (f : Finding) : Outcome :=
  ⟨r.product, r.quantity, f⟩

/-- Whether the request may go ahead as far as the finding tells. -/
def isValid (o : Outcome) : Bool :=
  match o.finding with
  | .skipped | .shed => true
  | .checked available _ _ => o.requested ≤ available
  | .failed .. => false

def available? (o : Outcome) : Option UInt32 :=
  match o.finding with
  | .checked available _ _ => some available
  | _ => none

def errorKind? (o : Outcome) : Option ErrorKind :=
  match o.finding with
  | .skipped => none
  | .shed => some .circuitOpen
  | .checked available _ _ => if o.requested ≤ available then none else some .insufficientInventory
  | .failed kind _ _ => some kind

/-- Whether the catalog was asked. -/
def performed (o : Outcome) : Bool :=
  match o.finding with
  | .skipped | .shed => false
  | _ => true

def duration (o : Outcome) : Nat :=
  match o.finding with
  | .checked _ d _ | .failed _ d _ => d
  | _ => 0

def attempts (o : Outcome) : Nat :=
  match o.finding with
  | .checked _ _ n | .failed _ _ n => n
  | _ => 0

/-- Whether the catalog behaved, whatever it said about stock. This is what a breaker records. -/
def healthy (o : Outcome) : Bool :=
  o.performed && !o.errorKind?.any ErrorKind.isSystem

end Outcome

end StockGate
