import StockGate.Net.Ipv4

namespace StockGate.Net

open Text

structure Ipv6 where
  groups : List Nat
  deriving DecidableEq

namespace Ipv6

def group? (cs : List Char) : Option Nat :=
  if cs ≠ [] ∧ cs.length ≤ 4 ∧ cs.all (isDigitIn 16) then some (numeral 16 cs) else none

/-- Groups with colons between them; an IPv4 address may stand for the last two. -/
def groups? (dotted : Bool) (cs : List Char) : Option (List Nat) :=
  let fields := splitAt ':' cs
  match fields.getLast? with
  | none => none
  | some last =>
    match fields.mapM group? with
    | some gs => some gs
    | none =>
      if dotted then do
        let front ← fields.dropLast.mapM group?
        let v4 ← Ipv4.parse? last
        return front ++ [v4.bits / 65536, v4.bits % 65536]
      else none

def side? (dotted : Bool) (cs : List Char) : Option (List Nat) :=
  if cs = [] then some [] else groups? dotted cs

/-- A double colon stands for at least one group of zeros. -/
def parse? (cs : List Char) : Option Ipv6 :=
  match cutAt? [':', ':'] cs with
  | none => (groups? true cs).bind fun gs => if gs.length = 8 then some ⟨gs⟩ else none
  | some (before, after) => do
    let front ← side? false before
    let back ← side? true after
    if front.length + back.length ≤ 7 then
      some ⟨front ++ List.replicate (8 - front.length - back.length) 0 ++ back⟩
    else none

def zerosAt (gs : List Nat) (i : Nat) : Nat :=
  ((gs.drop i).takeWhile (· = 0)).length

/-- Where the longest run of at least two zeros starts, the first of equals, and its length. -/
def longestZeros (gs : List Nat) : Option (Nat × Nat) :=
  (List.range gs.length).foldl
    (fun best i =>
      let n := zerosAt gs i
      if n ≥ 2 ∧ (best.map Prod.snd).getD 0 < n then some (i, n) else best)
    none

def hexText (n : Nat) : String :=
  String.ofList (Nat.toDigits 16 n)

def joined (gs : List Nat) : String :=
  ":".intercalate (gs.map hexText)

/-- The shortest spelling, with the longest run of zeros left out. -/
def text (a : Ipv6) : String :=
  match longestZeros a.groups with
  | none => joined a.groups
  | some (i, n) => joined (a.groups.take i) ++ "::" ++ joined (a.groups.drop (i + n))

end Ipv6

end StockGate.Net
