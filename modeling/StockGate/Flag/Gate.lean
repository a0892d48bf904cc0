import StockGate.Flag.Context
import StockGate.Flag.Error
import StockGate.Service
import StockGate.Settings.Basic
import StockGate.Telemetry.Event

namespace StockGate

structure FlagQuestion where
  key : String
  context : FlagContext
  deriving DecidableEq

/-- Why a flag service chose its value, where it says so. -/
structure Resolution where
  reason : Option String
  variant : Option String
  deriving DecidableEq

structure FlagValue where
  value : Bool
  /-- Only of a service that explains itself. -/
  resolution : Option Resolution := none
  deriving DecidableEq

abbrev FlagAnswer := Except FlagError FlagValue

abbrev FlagService := Service FlagQuestion FlagAnswer

/-- Gives one value for every flag. -/
def FlagService.fixed (value : Bool) : FlagService :=
  { answer := fun _ _ => .after 0 (.ok { value }) }

structure FlagGate where
  key : String := "cartInventoryValidation"
  timeout : Nat := 100
  deriving DecidableEq

namespace FlagGate

def ofSettings (f : FlagSettings) : FlagGate :=
  ⟨f.flagKey, f.evaluationTimeoutMs.toNat⟩

def question (g : FlagGate) (r : Request) : FlagQuestion :=
  ⟨g.key, .ofRequest r⟩

def ask (g : FlagGate) (now : Nat) (s : FlagService) (q : FlagQuestion) :
    FlagService × Awaited FlagAnswer :=
  let (s, reply) := s.ask q
  (s, .start now reply (now + g.timeout))

/-- What an answer means, `none` being one that is late. A flag that cannot be had in time
counts as off. -/
def enabled : Option FlagAnswer → Bool
  | some (.ok v) => v.value
  | _ => false

def resolutionEvents (key : String) (v : FlagValue) : List Event :=
  v.resolution.toList.map fun r =>
    .flagResolved key v.value (r.reason.getD "unknown") (r.variant.getD "unknown")

def events (g : FlagGate) (key : String) (answer : Option FlagAnswer) : List Event :=
  (match answer with
    | some (.ok v) => resolutionEvents key v
    | some (.error e) => [.flagFailed key e.message]
    | none => [.flagTimedOut key g.timeout]) ++
  [.flagEvaluated key (enabled answer)]

structure Evaluated where
  service : FlagService
  log : List Event
  time : Nat
  value : Bool

/-- Looks a flag up alone, on a clock that jumps to the end of the wait. -/
def evaluate (g : FlagGate) (now : Nat) (s : FlagService) (q : FlagQuestion) : Evaluated :=
  let (s, w) := g.ask now s q
  ⟨s, g.events q.key w.answer?, w.ends, enabled w.answer?⟩

end FlagGate

end StockGate
