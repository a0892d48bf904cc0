import StockGate.Breaker.Window
import StockGate.Policy

namespace StockGate

inductive CircuitState where
  | closed
  | opened
  | halfOpen
  deriving DecidableEq

def CircuitState.label : CircuitState → String
  | .closed => "closed"
  | .opened => "open"
  | .halfOpen => "half_open"

def CircuitState.all : List CircuitState :=
  [.closed, .opened, .halfOpen]

structure Transition where
  source : CircuitState
  target : CircuitState
  deriving DecidableEq

/-- A ticket for one call, under the policy it was granted with. -/
structure Permit where
  policy : Policy
  probe : Bool
  deriving DecidableEq

inductive Admission where
  | granted (permit : Permit)
  /-- Refused fast, because of this state. -/
  | refused (state : CircuitState)
  deriving DecidableEq

/-- Enough failures open a closed circuit. An open one refuses calls until its break is
over; the next call is then the one probe of a half-open circuit, whose outcome closes or
reopens it. -/
structure Breaker where
  state : CircuitState := .closed
  window : Window := []
  openedAt : Option Nat := none
  probing : Bool := false
  deriving DecidableEq

namespace Breaker

/-- Opening notes the time, and closing forgets the past; both free the probe's place. -/
def moveTo (b : Breaker) (target : CircuitState) (now : Nat) : Breaker :=
  match target with
  | .opened => { b with state := .opened, openedAt := some now, probing := false }
  | .halfOpen => { b with state := .halfOpen }
  | .closed => { state := .closed, window := [], openedAt := none, probing := false }

def breakOver (b : Breaker) (now : Nat) (p : Policy) : Bool :=
  match b.openedAt with
  | none => true
  | some t => p.breakDuration ≤ now - t

/-- Asks to make a call. A half-open circuit has one probe at a time. -/
def enter (b : Breaker) (now : Nat) (p : Policy) : Breaker × Admission × Option Transition :=
  match b.state with
  | .closed => (b, .granted ⟨p, false⟩, none)
  | .opened =>
    if b.breakOver now p then
      ({ b.moveTo .halfOpen now with probing := true }, .granted ⟨p, true⟩,
        some ⟨.opened, .halfOpen⟩)
    else (b, .refused .opened, none)
  | .halfOpen =>
    if b.probing then (b, .refused .halfOpen, none)
    else ({ b with probing := true }, .granted ⟨p, true⟩, none)

/-- Whether a window and the latest outcome open the circuit. Only a failure can. -/
def trips (w : Window) (success : Bool) (p : Policy) : Bool :=
  !success && p.failureThreshold.toNat ≤ w.failures && p.minimumThroughput.toNat ≤ w.length

/-- The outcome of a probe closes or reopens a half-open circuit. -/
def recordProbe (b : Breaker) (now : Nat) (success : Bool) : Breaker × Option Transition :=
  let b := { b with probing := false }
  if b.state = .halfOpen then
    let target := if success then CircuitState.closed else .opened
    (b.moveTo target now, some ⟨.halfOpen, target⟩)
  else (b, none)

/-- The outcome of an ordinary call counts only while the circuit is closed. -/
def recordOrdinary (b : Breaker) (now : Nat) (p : Policy) (success : Bool) :
    Breaker × Option Transition :=
  if b.state = .closed then
    let w := (b.window.prune now p.samplingWindow).push ⟨now, !success⟩
    let b := { b with window := w }
    if trips w success p then (b.moveTo .opened now, some ⟨.closed, .opened⟩) else (b, none)
  else (b, none)

def record (b : Breaker) (now : Nat) (permit : Permit) (success : Bool) :
    Breaker × Option Transition :=
  if permit.probe then b.recordProbe now success
  else b.recordOrdinary now permit.policy success

/-- Gives a permit up without an outcome. That of a probe counts as a failure. -/
def release (b : Breaker) (now : Nat) (permit : Permit) : Breaker × Option Transition :=
  if permit.probe then b.record now permit false else (b, none)

end Breaker

end StockGate
