import StockGate.Text.Digit

namespace StockGate.Toml

open Text

/-- Reads something off the front of a text. -/
abbrev Reader (α : Type) := List Char → Option (α × List Char)

def isWs (c : Char) : Bool :=
  c = ' ' || c = '\t'

def skipWs (cs : List Char) : List Char :=
  cs.dropWhile isWs

/-- Whether a comment or a quoted text may hold this character as it is. -/
def isPlain (c : Char) : Bool :=
  c = '\t' || (0x20 ≤ c.toNat && c ≠ '\x7f')

def newline? : List Char → Option (List Char)
  | '\n' :: rest => some rest
  | '\r' :: '\n' :: rest => some rest
  | _ => none

theorem newline?_length {cs rest : List Char} (h : newline? cs = some rest) :
    rest.length < cs.length := by
  unfold newline? at h
  split at h
  · simp_all
  · simp only [Option.some.injEq] at h
    subst h
    simp only [List.length_cons]
    omega
  · simp at h

def skipWsNewlines (cs : List Char) : List Char :=
  match cs with
  | [] => []
  | '\r' :: '\n' :: rest => skipWsNewlines rest
  | c :: rest => if isWs c ∨ c = '\n' then skipWsNewlines rest else c :: rest

theorem skipWsNewlines_length (cs : List Char) : (skipWsNewlines cs).length ≤ cs.length := by
  fun_induction skipWsNewlines cs <;> simp_all <;> omega

def codePoint? (digits : List Char) : Option Char :=
  if digits.all (isDigitIn 16) then
    let n := numeral 16 digits
    if n.isValidChar then some (Char.ofNat n) else none
  else none

def escapes : List (Char × Char) :=
  [('b', '\x08'), ('t', '\t'), ('n', '\n'), ('f', '\x0c'), ('r', '\r'), ('"', '"'), ('\\', '\\')]

def numbered? (size : Nat) (cs : List Char) : Option (Char × List Char) :=
  if cs.length < size then none else (codePoint? (cs.take size)).map (·, cs.drop size)

def escape? : Reader Char
  | [] => none
  | 'u' :: rest => numbered? 4 rest
  | 'U' :: rest => numbered? 8 rest
  | e :: rest => (escapes.lookup e).map (·, rest)

theorem numbered?_length {size : Nat} {cs rest : List Char} {c : Char}
    (h : numbered? size cs = some (c, rest)) : rest.length ≤ cs.length := by
  unfold numbered? at h
  split at h
  · simp at h
  · obtain ⟨_, _, he⟩ := Option.map_eq_some_iff.1 h
    rw [← (Prod.mk.inj he).2, List.length_drop]
    omega

theorem escape?_length {cs rest : List Char} {c : Char} (h : escape? cs = some (c, rest)) :
    rest.length < cs.length := by
  unfold escape? at h
  split at h
  · simp at h
  · exact Nat.lt_succ_of_le (numbered?_length h)
  · exact Nat.lt_succ_of_le (numbered?_length h)
  · obtain ⟨_, _, he⟩ := Option.map_eq_some_iff.1 h
    rw [← (Prod.mk.inj he).2]
    exact Nat.lt_succ_self _

/-- A text in double quotes on one line, after its opening quote. -/
def basic? (cs : List Char) : Option (List Char × List Char) :=
  match cs with
  | [] => none
  | '"' :: rest => some ([], rest)
  | '\\' :: rest =>
    match h : escape? rest with
    | none => none
    | some (c, after) =>
      have := escape?_length h
      (basic? after).map fun (s, r) => (c :: s, r)
  | c :: rest => if isPlain c then (basic? rest).map fun (s, r) => (c :: s, r) else none
termination_by cs.length

/-- A text in single quotes on one line, after its opening quote. -/
def literal? : Reader (List Char)
  | [] => none
  | '\'' :: rest => some ([], rest)
  | c :: rest => if isPlain c then (literal? rest).map fun (s, r) => (c :: s, r) else none

/-- What a run of quotes means inside a text between triple quotes: fewer than three are text,
three to five end it with what exceeds three as text, and more are an error. -/
def closing? (quote : Char) (run : Nat) (rest : List Char) : Option (List Char × List Char) :=
  if run < 6 then some (List.replicate (run - 3) quote, rest) else none

theorem continued_length {rest after : List Char} (h : newline? (skipWs rest) = some after) :
    (skipWsNewlines after).length < rest.length :=
  have h₁ := newline?_length h
  have h₂ := skipWsNewlines_length after
  have h₃ : (skipWs rest).length ≤ rest.length := (List.dropWhile_sublist _).length_le
  by omega

def multilineBasic? (cs : List Char) : Option (List Char × List Char) :=
  match cs with
  | [] => none
  | '"' :: rest =>
    let more := rest.takeWhile (· = '"')
    if more.length < 2 then (multilineBasic? rest).map fun (s, r) => ('"' :: s, r)
    else closing? '"' (more.length + 1) (rest.drop more.length)
  | '\\' :: rest =>
    match h : newline? (skipWs rest) with
    | some after =>
      have := continued_length h
      multilineBasic? (skipWsNewlines after)
    | none =>
      match h : escape? rest with
      | none => none
      | some (c, after) =>
        have := escape?_length h
        (multilineBasic? after).map fun (s, r) => (c :: s, r)
  | '\r' :: '\n' :: rest => (multilineBasic? rest).map fun (s, r) => ('\n' :: s, r)
  | c :: rest =>
    if isPlain c ∨ c = '\n' then (multilineBasic? rest).map fun (s, r) => (c :: s, r) else none
termination_by cs.length

def multilineLiteral? : Reader (List Char)
  | [] => none
  | '\'' :: rest =>
    let more := rest.takeWhile (· = '\'')
    if more.length < 2 then (multilineLiteral? rest).map fun (s, r) => ('\'' :: s, r)
    else closing? '\'' (more.length + 1) (rest.drop more.length)
  | '\r' :: '\n' :: rest => (multilineLiteral? rest).map fun (s, r) => ('\n' :: s, r)
  | c :: rest =>
    if isPlain c ∨ c = '\n' then (multilineLiteral? rest).map fun (s, r) => (c :: s, r) else none

/-- A line end right after opening triple quotes is not part of the text. -/
def dropFirstNewline (cs : List Char) : List Char :=
  (newline? cs).getD cs

def string? (cs : List Char) : Option (String × List Char) :=
  (read cs).map fun (s, rest) => (String.ofList s, rest)
where
  read : Reader (List Char)
    | '"' :: '"' :: '"' :: rest => multilineBasic? (dropFirstNewline rest)
    | '"' :: rest => basic? rest
    | '\'' :: '\'' :: '\'' :: rest => multilineLiteral? (dropFirstNewline rest)
    | '\'' :: rest => literal? rest
    | _ => none

/-- Digits in groups with single underscores between them, without the underscores. -/
def digits? (base : Nat) : List Char → Option (List Char × List Char)
  | [] => none
  | c :: rest => if isDigitIn base c then (more rest).map fun (ds, r) => (c :: ds, r) else none
where
  more : List Char → Option (List Char × List Char)
    | [] => some ([], [])
    | '_' :: c :: rest =>
      if isDigitIn base c then (more rest).map fun (ds, r) => (c :: ds, r) else none
    | c :: rest =>
      if c = '_' then none
      else if isDigitIn base c then (more rest).map fun (ds, r) => (c :: ds, r)
      else some ([], c :: rest)

def sign : List Char → Bool × List Char
  | '-' :: rest => (true, rest)
  | '+' :: rest => (false, rest)
  | rest => (false, rest)

/-- A decimal integer part: a lone zero, or digits that start with another digit. -/
def wholePart? : Reader (List Char)
  | '0' :: rest => some (['0'], rest)
  | rest => digits? 10 rest

def inWord (n : Int) : Bool :=
  Int64.minValue.toInt ≤ n && n ≤ Int64.maxValue.toInt

/-- An integer, which must fit in 64 bits; other bases than ten have a mark and no sign. -/
def integer? (cs : List Char) : Option (Int × List Char) :=
  match cs with
  | '0' :: 'x' :: rest => based 16 rest
  | '0' :: 'o' :: rest => based 8 rest
  | '0' :: 'b' :: rest => based 2 rest
  | _ => do
    let (negative, rest) := sign cs
    let (ds, rest) ← wholePart? rest
    let n : Int := numeral 10 ds
    let n := if negative then -n else n
    if inWord n then some (n, rest) else none
where
  based (base : Nat) (rest : List Char) : Option (Int × List Char) := do
    let (ds, rest) ← digits? base rest
    let n : Int := numeral base ds
    if inWord n then some (n, rest) else none

def exponentPart? (cs : List Char) : Option (Int × List Char) :=
  match cs with
  | c :: rest =>
    if c = 'e' ∨ c = 'E' then do
      let (negative, rest) := sign rest
      let (ds, rest) ← digits? 10 rest
      let n : Int := numeral 10 ds
      return (if negative then -n else n, rest)
    else none
  | [] => none

/-- Whether `significand * 10 ^ exponent` rounds to infinity as a binary64 number. -/
def isInfinite (significand : Nat) (exponent : Int) : Bool :=
  let size : Int := (toString significand).length
  let limit := 1 <<< 1024 - 1 <<< 970
  if significand = 0 ∨ size + exponent < 300 then false
  else if size + exponent > 400 then true
  else if exponent < 0 then limit * Nat.pow 10 exponent.natAbs ≤ significand
  else limit ≤ significand * Nat.pow 10 exponent.natAbs

/-- A float, of which only the input that follows is kept. A numeral must not round up to
infinity. -/
def float? (cs : List Char) : Option (List Char) :=
  let (negative, rest) := sign cs
  match rest with
  | 'i' :: 'n' :: 'f' :: rest => some rest
  | 'n' :: 'a' :: 'n' :: rest => some rest
  | _ => do
    let (whole, rest) ← wholePart? rest
    let (fraction, exponent, rest) ← match rest with
      | '.' :: rest => do
        let (fraction, rest) ← digits? 10 rest
        match rest with
        | 'e' :: _ | 'E' :: _ => (exponentPart? rest).map fun (e, r) => (fraction, e, r)
        | _ => some (fraction, 0, rest)
      | _ => (exponentPart? rest).map fun (e, r) => ([], e, r)
    let tooLarge := isInfinite (numeral 10 (whole ++ fraction)) (exponent - fraction.length)
    if tooLarge ∧ ¬negative then none else some rest

/-- Exactly `n` digits whose number lies in a range. -/
def field? (n low high : Nat) (cs : List Char) : Option (Nat × List Char) :=
  let ds := cs.take n
  if ds.length = n ∧ ds.all isDecimal then
    let v := numeral 10 ds
    if low ≤ v ∧ v ≤ high then some (v, cs.drop n) else none
  else none

def expect? (c : Char) : List Char → Option (List Char)
  | d :: rest => if d = c then some rest else none
  | [] => none

def isLeap (year : Nat) : Bool :=
  year % 4 = 0 && (year % 100 ≠ 0 || year % 400 = 0)

def daysIn (year month : Nat) : Nat :=
  if month = 2 then (if isLeap year then 29 else 28)
  else if month ∈ [4, 6, 9, 11] then 30
  else 31

def date? (cs : List Char) : Option (List Char) := do
  let (year, cs) ← field? 4 0 9999 cs
  let cs ← expect? '-' cs
  let (month, cs) ← field? 2 1 12 cs
  let cs ← expect? '-' cs
  let (_, cs) ← field? 2 1 (daysIn year month) cs
  return cs

/-- A time of day; the sixtieth second is that of a leap second. -/
def time? (cs : List Char) : Option (List Char) := do
  let (_, cs) ← field? 2 0 23 cs
  let cs ← expect? ':' cs
  let (_, cs) ← field? 2 0 59 cs
  let cs ← expect? ':' cs
  let (_, cs) ← field? 2 0 60 cs
  match cs with
  | '.' :: rest =>
    let ds := rest.takeWhile isDecimal
    return if ds = [] then cs else rest.drop ds.length
  | _ => return cs

def offset? (cs : List Char) : Option (List Char) :=
  match cs with
  | 'Z' :: rest | 'z' :: rest => some rest
  | '+' :: rest | '-' :: rest => do
    let (_, rest) ← field? 2 0 23 rest
    let rest ← expect? ':' rest
    let (_, rest) ← field? 2 0 59 rest
    return rest
  | _ => none

def moment? (cs : List Char) : Option (List Char) :=
  match date? cs with
  | none => time? cs
  | some rest =>
    match rest with
    | c :: after =>
      if c = 'T' ∨ c = 't' ∨ c = ' ' then
        match time? after with
        | none => some rest
        | some rest => some ((offset? rest).getD rest)
      else some rest
    | [] => some []

end StockGate.Toml
