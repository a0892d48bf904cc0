import StockGate.Json.Token

namespace StockGate.Json

open Text (Bytes)

/-- The ways to write a piece of a quoted text. -/
inductive Piece.Spelled : Piece → Bytes → Prop
  | raw {b : UInt8} (hcontrol : ¬ b < 0x20) (hquote : b ≠ 0x22) (hslash : b ≠ 0x5C) :
      Spelled (.byte b) [b]
  | letter {e b : UInt8} (h : escaped? e = some b) : Spelled (.byte b) [0x5C, e]
  | unit {a b c d : UInt8} {u : Nat} (h : hexUnit? [a, b, c, d] = some (u, [])) :
      Spelled (.unit u) [0x5C, 0x75, a, b, c, d]

inductive Quoting : List Piece → Bytes → Prop
  | nil : Quoting [] []
  | cons {p : Piece} {ps : List Piece} {bs rest : Bytes} (hp : p.Spelled bs)
      (hps : Quoting ps rest) : Quoting (p :: ps) (bs ++ rest)

def Digits (bs : Bytes) : Prop :=
  ∀ b ∈ bs, isDigit b = true

namespace Number

inductive Whole : Nat → Bytes → Prop
  | zero : Whole 0 [0x30]
  | digits {b : UInt8} {bs : Bytes} (hb : isDigit b = true) (hzero : b ≠ 0x30)
      (hbs : Digits bs) : Whole (natOf (b :: bs)) (b :: bs)

inductive Fraction : List (Fin 10) → Bytes → Prop
  | none : Fraction [] []
  | digits {bs : Bytes} (hne : bs ≠ []) (hbs : Digits bs) :
      Fraction (bs.map digitOf) (0x2E :: bs)

inductive Exponent : Option Int → Bytes → Prop
  | none : Exponent none []
  | bare {mark : UInt8} {bs : Bytes} (hmark : mark = 0x65 ∨ mark = 0x45) (hne : bs ≠ [])
      (hbs : Digits bs) : Exponent (some (natOf bs)) (mark :: bs)
  | plus {mark : UInt8} {bs : Bytes} (hmark : mark = 0x65 ∨ mark = 0x45) (hne : bs ≠ [])
      (hbs : Digits bs) : Exponent (some (natOf bs)) (mark :: 0x2B :: bs)
  | minus {mark : UInt8} {bs : Bytes} (hmark : mark = 0x65 ∨ mark = 0x45) (hne : bs ≠ [])
      (hbs : Digits bs) : Exponent (some (-natOf bs)) (mark :: 0x2D :: bs)

def sign (negative : Bool) : Bytes :=
  if negative then [0x2D] else []

inductive Spelled : Number → Bytes → Prop
  | mk (negative : Bool) {w : Nat} {f : List (Fin 10)} {e : Option Int} {ws fs es : Bytes}
      (hw : Whole w ws) (hf : Fraction f fs) (he : Exponent e es) :
      Spelled ⟨negative, w, f, e⟩ (sign negative ++ (ws ++ (fs ++ es)))

end Number

inductive Token.Spelled : Token → Bytes → Prop
  | openBracket : Spelled .openBracket [0x5B]
  | closeBracket : Spelled .closeBracket [0x5D]
  | openBrace : Spelled .openBrace [0x7B]
  | closeBrace : Spelled .closeBrace [0x7D]
  | colon : Spelled .colon [0x3A]
  | comma : Spelled .comma [0x2C]
  | quoted {ps : List Piece} {bs : Bytes} (h : Quoting ps bs) :
      Spelled (.quoted (readPieces ps)) (0x22 :: (bs ++ [0x22]))
  | number {n : Number} {bs : Bytes} (h : n.Spelled bs) : Spelled (.scalar (.number n)) bs
  | null : Spelled (.scalar .null) (Text.utf8 "null")
  | yes : Spelled (.scalar (.bool true)) (Text.utf8 "true")
  | no : Spelled (.scalar (.bool false)) (Text.utf8 "false")

def Blank (bs : Bytes) : Prop :=
  ∀ b ∈ bs, isSpace b = true

/-- Nothing at the front could be more of a numeral. -/
def Stops (rest : Bytes) : Prop :=
  ∀ b ∈ rest.head?, isDigit b = false ∧ b ≠ 0x2E ∧ b ≠ 0x65 ∧ b ≠ 0x45

/-- A text of these tokens, with any blanks before, between and after them. -/
inductive Spells : List Token → Bytes → Prop
  | nil {bs : Bytes} (h : Blank bs) : Spells [] bs
  | cons {t : Token} {ts : List Token} {blank bs rest : Bytes} (hblank : Blank blank)
      (ht : t.Spelled bs) (hstop : (∃ n, t = .scalar (.number n)) → Stops rest)
      (h : Spells ts rest) : Spells (t :: ts) (blank ++ (bs ++ rest))

mutual

def Value.tokens : Value → List Token
  | .null => [.scalar .null]
  | .bool b => [.scalar (.bool b)]
  | .number n => [.scalar (.number n)]
  | .string s => [.quoted s]
  | .array items => .openBracket :: (itemTokens items ++ [.closeBracket])
  | .object members => .openBrace :: (memberTokens members ++ [.closeBrace])

def itemTokens : List Value → List Token
  | [] => []
  | [v] => v.tokens
  | v :: vs => v.tokens ++ .comma :: itemTokens vs

def memberTokens : List (Quoted × Value) → List Token
  | [] => []
  | [(k, v)] => .quoted k :: .colon :: v.tokens
  | (k, v) :: ms => .quoted k :: .colon :: (v.tokens ++ .comma :: memberTokens ms)

end

/-- The text writes this value and nothing else. -/
def Writes (v : Value) (bs : Bytes) : Prop :=
  Spells v.tokens bs

end StockGate.Json
