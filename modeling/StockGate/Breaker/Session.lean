import StockGate.Breaker.Basic
import StockGate.Telemetry.Event

namespace StockGate

structure BreakerSession where
  now : Nat := 0
  breaker : Breaker := {}
  held : List (String × Permit) := []
  moves : List (Nat × Transition) := []
  log : List Event := []
  deriving DecidableEq

/-- One thing that holders of permits, or time, can do. -/
inductive BreakerStep where
  | ask (holder : String) (policy : Policy)
  | report (holder : String) (success : Bool)
  | drop (holder : String)
  | wait (ms : Nat)
  deriving DecidableEq

namespace BreakerSession

def update (s : BreakerSession) (b : Breaker) (t : Option Transition) : BreakerSession :=
  { s with
    breaker := b
    moves := s.moves ++ t.toList.map (s.now, ·)
    log := s.log ++ t.toList.map .circuitMoved }

def enter (s : BreakerSession) (p : Policy) : BreakerSession × Admission :=
  let (b, admission, t) := s.breaker.enter s.now p
  (s.update b t, admission)

def record (s : BreakerSession) (permit : Permit) (success : Bool) : BreakerSession :=
  let (b, t) := s.breaker.record s.now permit success
  s.update b t

/-- The log notes a probe that ends without an outcome before the move that this causes. -/
def release (s : BreakerSession) (permit : Permit) : BreakerSession :=
  let (b, t) := s.breaker.release s.now permit
  { s with log := s.log ++ permit.dropEvents }.update b t

def holding? (s : BreakerSession) (holder : String) : Option Permit :=
  s.held.lookup holder

def without (s : BreakerSession) (holder : String) : BreakerSession :=
  { s with held := s.held.filter (·.1 ≠ holder) }

/-- A permit that the holder already had is dropped once the new one is granted. -/
def ask (s : BreakerSession) (holder : String) (p : Policy) : BreakerSession × Admission :=
  let (s, admission) := s.enter p
  match admission with
  | .refused _ => (s, admission)
  | .granted permit =>
    let rest := s.without holder
    let kept := { rest with held := (holder, permit) :: rest.held }
    match s.holding? holder with
    | none => (kept, admission)
    | some old => (kept.release old, admission)

/-- Nothing happens if the holder has no permit. -/
def report (s : BreakerSession) (holder : String) (success : Bool) : BreakerSession :=
  match s.holding? holder with
  | none => s
  | some permit => (s.without holder).record permit success

def drop (s : BreakerSession) (holder : String) : BreakerSession :=
  match s.holding? holder with
  | none => s
  | some permit => (s.without holder).release permit

def call (s : BreakerSession) (p : Policy) (success : Bool) : BreakerSession × Admission :=
  let (s, admission) := s.enter p
  match admission with
  | .refused _ => (s, admission)
  | .granted permit => (s.record permit success, admission)

def wait (s : BreakerSession) (ms : Nat) : BreakerSession :=
  { s with now := s.now + ms }

def step (s : BreakerSession) : BreakerStep → BreakerSession
  | .ask holder p => (s.ask holder p).1
  | .report holder success => s.report holder success
  | .drop holder => s.drop holder
  | .wait ms => s.wait ms

def run (steps : List BreakerStep) : BreakerSession :=
  steps.foldl step {}

end BreakerSession

end StockGate
