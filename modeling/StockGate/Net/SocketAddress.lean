import StockGate.Net.Ipv6

namespace StockGate.Net

open Text

inductive SocketAddress where
  | v4 (address : Ipv4) (port : Nat)
  | v6 (address : Ipv6) (scope port : Nat)
  deriving DecidableEq

namespace SocketAddress

def bounded? (limit : Nat) (cs : List Char) : Option Nat :=
  (numeral? cs).filter (· < limit)

def port? (cs : List Char) : Option Nat :=
  bounded? 65536 cs

def bracketed? (inside : List Char) : Option (Ipv6 × Nat) :=
  match cutAt? ['%'] inside with
  | none => (Ipv6.parse? inside).map (·, 0)
  | some (address, scope) => do
    return (← Ipv6.parse? address, ← bounded? UInt32.size scope)

def parse? (s : String) : Option SocketAddress :=
  match s.toList with
  | '[' :: cs => do
    let (inside, after) ← cutAt? [']', ':'] cs
    let (address, scope) ← bracketed? inside
    return .v6 address scope (← port? after)
  | cs => do
    let (address, after) ← cutAt? [':'] cs
    return .v4 (← Ipv4.parse? address) (← port? after)

end SocketAddress

end StockGate.Net
