import StockGate.Json.Basic
import StockGate.Text.Digit

namespace StockGate.Json

open Text (Bytes)

inductive Token where
  | openBracket
  | closeBracket
  | openBrace
  | closeBrace
  | colon
  | comma
  | quoted (s : Quoted)
  | scalar (v : Value)

/-- A byte of a quoted text, or a UTF-16 unit written by its number. Pieces are scanned
for grammar first and read as Unicode second, so a text nobody asks for need only be well
formed. -/
inductive Piece where
  | byte (b : UInt8)
  | unit (u : Nat)

def isSpace (b : UInt8) : Bool :=
  b == 0x20 || b == 0x0A || b == 0x0D || b == 0x09

def hexByte? (b : UInt8) : Option Nat :=
  Text.hexValue? (Char.ofNat b.toNat)

def hexUnit? : Bytes → Option (Nat × Bytes)
  | a :: b :: c :: d :: rest =>
    match hexByte? a, hexByte? b, hexByte? c, hexByte? d with
    | some a, some b, some c, some d => some (((a * 16 + b) * 16 + c) * 16 + d, rest)
    | _, _, _, _ => none
  | _ => none

def escaped? (b : UInt8) : Option UInt8 :=
  match Char.ofNat b.toNat with
  | '"' => some 0x22
  | '\\' => some 0x5C
  | '/' => some 0x2F
  | 'b' => some 0x08
  | 'f' => some 0x0C
  | 'n' => some 0x0A
  | 'r' => some 0x0D
  | 't' => some 0x09
  | _ => none

/-- The pieces up to the closing quote, and what follows it. Control characters must be escaped. -/
def pieces? : Bytes → Option (List Piece × Bytes)
  | [] => none
  | b :: rest =>
    if b = 0x22 then some ([], rest)
    else if b = 0x5C then
      match rest with
      | 0x75 :: a :: b :: c :: d :: rest =>
        match hexUnit? [a, b, c, d] with
        | some (u, _) => (pieces? rest).map fun (ps, r) => (.unit u :: ps, r)
        | none => none
      | e :: rest =>
        match escaped? e with
        | some b => (pieces? rest).map fun (ps, r) => (.byte b :: ps, r)
        | none => none
      | [] => none
    else if b < 0x20 then none
    else (pieces? rest).map fun (ps, r) => (.byte b :: ps, r)

def isHighSurrogate (u : Nat) : Bool :=
  0xD800 ≤ u && u ≤ 0xDBFF

def isLowSurrogate (u : Nat) : Bool :=
  0xDC00 ≤ u && u ≤ 0xDFFF

/-- The UTF-8 of a quoted text; a high surrogate must be followed by a low one, also written
by number. -/
def pieceBytes? : List Piece → Option Bytes
  | [] => some []
  | .byte b :: ps => (pieceBytes? ps).map (b :: ·)
  | .unit u :: ps =>
    if isHighSurrogate u then
      match ps with
      | .unit l :: ps =>
        if isLowSurrogate l then
          let c := Char.ofNat (0x10000 + (u - 0xD800) * 0x400 + (l - 0xDC00))
          (pieceBytes? ps).map (String.utf8EncodeChar c ++ ·)
        else none
      | _ => none
    else if isLowSurrogate u then none
    else (pieceBytes? ps).map (String.utf8EncodeChar (Char.ofNat u) ++ ·)

def readPieces (ps : List Piece) : Quoted :=
  (pieceBytes? ps).bind Text.ofUtf8?

def isDigit (b : UInt8) : Bool :=
  0x30 ≤ b && b ≤ 0x39

def digitOf (b : UInt8) : Fin 10 :=
  Fin.ofNat 10 (b.toNat - 0x30)

def natOf (digits : Bytes) : Nat :=
  digits.foldl (fun n b => n * 10 + (digitOf b).val) 0

/-- The integer part: a lone zero, or digits that start with another digit. -/
def whole? : Bytes → Option (Nat × Bytes)
  | [] => none
  | b :: rest =>
    if b = 0x30 then some (0, rest)
    else if isDigit b then
      some (natOf (b :: rest.takeWhile isDigit), rest.dropWhile isDigit)
    else none

def fraction? : Bytes → Option (List (Fin 10) × Bytes)
  | 0x2E :: rest =>
    let digits := rest.takeWhile isDigit
    if digits = [] then none else some (digits.map digitOf, rest.dropWhile isDigit)
  | rest => some ([], rest)

def exponentSign : Bytes → Bool × Bytes
  | 0x2B :: rest => (false, rest)
  | 0x2D :: rest => (true, rest)
  | rest => (false, rest)

def exponent? : Bytes → Option (Option Int × Bytes)
  | [] => some (none, [])
  | b :: rest =>
    if b = 0x65 ∨ b = 0x45 then
      let (negative, rest) := exponentSign rest
      let digits := rest.takeWhile isDigit
      if digits = [] then none
      else
        let e : Int := natOf digits
        some (some (if negative then -e else e), rest.dropWhile isDigit)
    else some (none, b :: rest)

def number? (bytes : Bytes) : Option (Number × Bytes) := do
  let (negative, rest) := match bytes with
    | 0x2D :: rest => (true, rest)
    | rest => (false, rest)
  let (whole, rest) ← whole? rest
  let (fraction, rest) ← fraction? rest
  let (exponent, rest) ← exponent? rest
  return (⟨negative, whole, fraction, exponent⟩, rest)

def keyword? (word : String) (v : Value) (bytes : Bytes) : Option (Token × Bytes) :=
  let w := Text.utf8 word
  if w.isPrefixOf bytes then some (.scalar v, bytes.drop w.length) else none

def punctuation? (b : UInt8) : Option Token :=
  match Char.ofNat b.toNat with
  | '[' => some .openBracket
  | ']' => some .closeBracket
  | '{' => some .openBrace
  | '}' => some .closeBrace
  | ':' => some .colon
  | ',' => some .comma
  | _ => none

/-- The token at the front of a text that does not start with a blank. -/
def Token.first? (bytes : Bytes) : Option (Token × Bytes) :=
  match bytes with
  | [] => none
  | b :: rest =>
    match punctuation? b with
    | some t => some (t, rest)
    | none =>
      if b = 0x22 then (pieces? rest).map fun (ps, r) => (.quoted (readPieces ps), r)
      else if b = 0x2D ∨ isDigit b then (number? bytes).map fun (n, r) => (.scalar (.number n), r)
      else keyword? "null" .null bytes <|> keyword? "true" (.bool true) bytes <|>
        keyword? "false" (.bool false) bytes

def tokens? (bytes : Bytes) : Option (List Token) :=
  match bytes with
  | [] => some []
  | b :: rest =>
    if isSpace b then tokens? rest
    else
      match Token.first? (b :: rest) with
      | none => none
      | some (t, after) =>
        if after.length < (b :: rest).length then (tokens? after).map (t :: ·) else none
termination_by bytes.length
decreasing_by
  · simp
  · assumption

end StockGate.Json
