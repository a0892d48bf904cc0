namespace StockGate.Url.Punycode

def digit (d : Nat) : Char :=
  if d < 26 then Char.ofNat ('a'.toNat + d) else Char.ofNat ('0'.toNat + (d - 26))

def value? (c : Char) : Option Nat :=
  if 'a' ≤ c ∧ c ≤ 'z' then some (c.toNat - 'a'.toNat)
  else if 'A' ≤ c ∧ c ≤ 'Z' then some (c.toNat - 'A'.toNat)
  else if '0' ≤ c ∧ c ≤ '9' then some (c.toNat - '0'.toNat + 26)
  else none

/-- The least digit at position `k` that continues a number. -/
def threshold (k bias : Nat) : Nat :=
  if k ≤ bias then 1 else min (k - bias) 26

theorem threshold_pos (k bias : Nat) : 1 ≤ threshold k bias := by
  unfold threshold; split <;> omega

def halve (delta k : Nat) : Nat × Nat :=
  if 455 < delta then halve (delta / 35) (k + 36) else (delta, k)
termination_by delta

def adapt (delta points : Nat) (first : Bool) : Nat :=
  let delta := if first then delta / 700 else delta / 2
  let (delta, k) := halve (delta + delta / points) 0
  k + 36 * delta / (delta + 38)

def digits (bias k n : Nat) : List Char :=
  let t := threshold k bias
  if n < t then [digit n]
  else digit (t + (n - t) % (36 - t)) :: digits bias (k + 36) ((n - t) / (36 - t))
termination_by n
decreasing_by
  have := threshold_pos k bias
  exact Nat.lt_of_le_of_lt (Nat.div_le_self _ _) (by omega)

/-- How far an encoding has come: its text, the distance since the last insertion, and the bias. -/
structure Progress where
  text : List Char
  delta : Nat
  bias : Nat
  written : Nat

def scan (basic point : Nat) (p : Progress) (c : Char) : Progress :=
  if c.toNat < point then { p with delta := p.delta + 1 }
  else if c.toNat = point then
    { text := p.text ++ digits p.bias 36 p.delta
      delta := 0
      bias := adapt p.delta (p.written + 1) (p.written = basic)
      written := p.written + 1 }
  else p

def insertions (label : List Char) (basic : Nat) : List Nat → Nat → Progress → Progress
  | [], _, p => p
  | point :: points, n, p =>
    let p := { p with delta := p.delta + (point - n) * (p.written + 1) }
    let p := label.foldl (scan basic point) p
    insertions label basic points (point + 1) { p with delta := p.delta + 1 }

def isAscii (c : Char) : Bool :=
  c.toNat < 0x80

def encode (label : List Char) : List Char :=
  let basic := label.filter isAscii
  let points := ((label.filter (!isAscii ·)).map Char.toNat).mergeSort.eraseDups
  let p := insertions label basic.length points 128 ⟨[], 0, 72, basic.length⟩
  basic ++ (if basic = [] then [] else ['-']) ++ p.text

/-- One number off the front: its value added to `i`, and what follows. -/
def number? (bias : Nat) : List Char → Nat → Nat → Nat → Option (Nat × List Char)
  | [], _, _, _ => none
  | c :: rest, k, weight, i => do
    let d ← value? c
    let i := i + d * weight
    let t := threshold k bias
    if d < t then some (i, rest) else number? bias rest (k + 36) (weight * (36 - t)) i

def insertAt (i : Nat) (c : Char) (cs : List Char) : List Char :=
  cs.take i ++ c :: cs.drop i

def decodeFrom (input : List Char) (n i bias : Nat) (label : List Char) : Option (List Char) :=
  match input with
  | [] => some label
  | c :: cs =>
    match number? bias (c :: cs) 36 1 i with
    | none => none
    | some (j, rest) =>
      let size := label.length + 1
      let point := n + j / size
      if h : rest.length < (c :: cs).length ∧ point.isValidChar then
        have := h.1
        decodeFrom rest point (j % size + 1) (adapt (j - i) size (i = 0))
          (insertAt (j % size) (Char.ofNat point) label)
      else none
termination_by input.length
decreasing_by assumption

def cutAtLastHyphen (input : List Char) : List Char × List Char :=
  let tail := (input.reverse.takeWhile (· ≠ '-')).reverse
  if tail.length = input.length then ([], input)
  else (input.take (input.length - tail.length - 1), tail)

def decode? (input : List Char) : Option (List Char) :=
  let (basic, tail) := cutAtLastHyphen input
  decodeFrom tail 128 0 72 basic

end StockGate.Url.Punycode
