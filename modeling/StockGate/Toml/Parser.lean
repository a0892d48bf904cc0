import StockGate.Toml.Scalar
import StockGate.Toml.Table

namespace StockGate.Toml

/-- How many arrays and inline tables may enclose a value, and how many names a key may join. -/
def nestingLimit : Nat := 79

def isBareKey (c : Char) : Bool :=
  c.isAlphanum || c = '-' || c = '_'

def simpleKey? : Reader String
  | '"' :: rest => (basic? rest).map fun (s, r) => (String.ofList s, r)
  | '\'' :: rest => (literal? rest).map fun (s, r) => (String.ofList s, r)
  | cs =>
    let word := cs.takeWhile isBareKey
    if word = [] then none else some (String.ofList word, cs.drop word.length)

def names? (cs : List Char) : Option (List String × List Char) :=
  match simpleKey? (skipWs cs) with
  | none => none
  | some (name, after) =>
    match skipWs after with
    | '.' :: rest =>
      if rest.length < cs.length then (names? rest).map fun (ns, r) => (name :: ns, r) else none
    | rest => some ([name], rest)
termination_by cs.length

/-- A dotted key, its last name apart. -/
def key? : Reader (Path × String) := fun cs => do
  let (names, rest) ← names? cs
  let last ← names.getLast?
  if names.length ≤ nestingLimit then some ((names.dropLast, last), rest) else none

def dropComment : List Char → List Char
  | '#' :: rest => rest.dropWhile isPlain
  | cs => cs

def skipLines (cs : List Char) : List Char :=
  match _h : skipWsNewlines cs with
  | '#' :: rest => skipLines (rest.dropWhile isPlain)
  | rest => rest
termination_by cs.length
decreasing_by
  have h₁ := skipWsNewlines_length cs
  have h₂ : (rest.dropWhile isPlain).length ≤ rest.length := (List.dropWhile_sublist _).length_le
  simp only [_h, List.length_cons] at h₁
  omega

/-- What follows an opening bracket: values and commas, with line ends and comments between them. -/
def items? (read : Reader Item) (cs : List Char) : Option (List Item × List Char) :=
  match skipLines cs with
  | ']' :: rest => some ([], rest)
  | cs' =>
    match read cs' with
    | none => none
    | some (item, after) =>
      match skipLines after with
      | ']' :: rest => some ([item], rest)
      | ',' :: rest =>
        if rest.length < cs.length then (items? read rest).map fun (is, r) => (item :: is, r)
        else none
      | _ => none
termination_by cs.length

def assignment? (read : Reader Item) : Reader Assignment := fun cs => do
  let ((path, key), rest) ← key? cs
  let rest ← expect? '=' rest
  let (item, rest) ← read (skipWs rest)
  return (⟨path, key, item⟩, rest)

/-- Assignments and commas up to a closing brace, all on one line. -/
def pairs? (read : Reader Item) (cs : List Char) : Option (List Assignment × List Char) :=
  match assignment? read cs with
  | none => none
  | some (a, after) =>
    match skipWs after with
    | '}' :: rest => some ([a], rest)
    | ',' :: rest =>
      if rest.length < cs.length then (pairs? read rest).map fun (as, r) => (a :: as, r) else none
    | _ => none
termination_by cs.length

def inlineTable? (read : Reader Item) : Reader Item := fun cs =>
  match skipWs cs with
  | '}' :: rest => some (.table .inline [], rest)
  | _ => do
    let (body, rest) ← pairs? read cs
    return (.table .inline (← Members.assignAll? [] body), rest)

def scalar? (cs : List Char) : Option (Item × List Char) :=
  match cs with
  | 't' :: 'r' :: 'u' :: 'e' :: rest => some (.bool true, rest)
  | 'f' :: 'a' :: 'l' :: 's' :: 'e' :: rest => some (.bool false, rest)
  | _ =>
    (string? cs).map (fun (s, r) => (.text s, r)) <|>
      (moment? cs).map (Item.moment, ·) <|>
      (float? cs).map (Item.float, ·) <|>
      (integer? cs).map fun (n, r) => (.integer n, r)

/-- A value within at most `depth` further brackets and braces. -/
def value? : Nat → Reader Item
  | 0, cs => scalar? cs
  | depth + 1, cs =>
    match cs with
    | '[' :: rest => (items? (value? depth) rest).map fun (is, r) => (.array is, r)
    | '{' :: rest => inlineTable? (value? depth) rest
    | _ => scalar? cs

inductive Line where
  | assign (a : Assignment)
  | heading (h : Heading)

/-- What may follow on the line of an assignment or a heading. -/
def lineEnd? (cs : List Char) : Option (List Char) :=
  match dropComment (skipWs cs) with
  | [] => some []
  | rest => newline? rest

def heading? (cs : List Char) : Option (Heading × List Char) :=
  match cs with
  | '[' :: '[' :: rest => do
    let ((path, key), rest) ← key? rest
    let rest ← expect? ']' rest
    let rest ← expect? ']' rest
    return (.element path key, rest)
  | '[' :: rest => do
    let ((path, key), rest) ← key? rest
    let rest ← expect? ']' rest
    return (.table path key, rest)
  | _ => none

def line? (cs : List Char) : Option (Line × List Char) := do
  let (line, rest) ← match cs with
    | '[' :: _ => (heading? cs).map fun (h, r) => (.heading h, r)
    | _ => (assignment? (value? nestingLimit) cs).map fun (a, r) => (.assign a, r)
  return (line, ← lineEnd? rest)

def lines? (cs : List Char) : Option (List Line) :=
  match skipLines cs with
  | [] => some []
  | cs' =>
    match line? cs' with
    | none => none
    | some (line, rest) =>
      if rest.length < cs.length then (lines? rest).map (line :: ·) else none
termination_by cs.length

def sections : List Line → List Assignment × List Section
  | [] => ([], [])
  | .assign a :: ls => (a :: (sections ls).1, (sections ls).2)
  | .heading h :: ls => ([], ⟨h, (sections ls).1⟩ :: (sections ls).2)

def dropByteOrderMark : List Char → List Char
  | '\ufeff' :: rest => rest
  | cs => cs

def parse? (text : String) : Option Item := do
  let (top, rest) := sections (← lines? (dropByteOrderMark text.toList))
  return .table .header (← build? top rest)

end StockGate.Toml
