import StockGate.Outcome
import StockGate.Policy

namespace StockGate

structure Shortage where
  product : String
  requested : UInt32
  available : UInt32
  deriving DecidableEq

def Shortage.text (s : Shortage) : String :=
  s!"insufficient inventory for product {s.product}: requested {s.requested}, " ++
    s!"available {s.available}"

inductive Verdict where
  /-- Go ahead; `degraded` if only because validation failed and the policy is lenient. -/
  | allow (degraded : Bool)
  | rejectBusiness (shortage : Shortage)
  | rejectSystem
  deriving DecidableEq

/-- All that a cart handler gets to know about a refusal. -/
inductive Rejection where
  | insufficientInventory (shortage : Shortage)
  | unavailable
  deriving DecidableEq

def Rejection.message : Rejection → String
  | .insufficientInventory s => s.text
  | .unavailable => "inventory validation is temporarily unavailable, please try again later"

namespace Verdict

def isAllow : Verdict → Bool
  | .allow _ => true
  | _ => false

def isDegraded : Verdict → Bool
  | .allow degraded => degraded
  | _ => false

def rejection? : Verdict → Option Rejection
  | .allow _ => none
  | .rejectBusiness s => some (.insufficientInventory s)
  | .rejectSystem => some .unavailable

def ofFailure (p : Policy) : Verdict :=
  if p.failOpen then .allow true else .rejectSystem

end Verdict

/-- Shortages are refused under every policy; failures are a matter of policy. -/
def decideOn (o : Outcome) (p : Policy) : Verdict :=
  match o.errorKind?, o.available? with
  | none, _ => .allow false
  | some .insufficientInventory, some available =>
    .rejectBusiness ⟨o.product, o.requested, available⟩
  | some _, _ => .ofFailure p

end StockGate
