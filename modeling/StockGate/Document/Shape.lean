import StockGate.Json.Basic

namespace StockGate.Document

open Json (Quoted)

inductive Shape (α : Type) where
  | null
  | flag (b : Bool)
  | whole (n : Int)
  | text (s : Quoted)
  | list (items : List α)
  | table (members : List (Quoted × α))
  | other

end Document

/-- A format that records can be read from. A record is a table of named members or a list
of its fields in order. Members nobody knows are skipped; a known one may stand only once.
-/
class Document (α : Type) where
  shape : α → Document.Shape α
  /-- Whether a record written as a list may have more entries than the record has fields. -/
  surplus : Bool
  /-- The payload that a variant without data may carry. -/
  isUnit : α → Bool

namespace Document

variable {α : Type} [Document α]

/-- The members of a record that has the given field names. -/
abbrev Fields (α : Type) := List (String × α)

def distinctNames (ms : Fields α) : Bool :=
  decide (ms.map Prod.fst).Nodup

def fields? (names : List String) (v : α) : Option (Fields α) :=
  match shape v with
  | .list items =>
    if items.length ≤ names.length ∨ surplus α then some (names.zip items) else none
  | .table members => do
    let named ← members.mapM fun m => m.1.map (·, m.2)
    let known := named.filter fun m => names.contains m.1
    if distinctNames known then some known else none
  | _ => none

def flag? (v : α) : Option Bool :=
  match shape v with
  | .flag b => some b
  | _ => none

def text? (v : α) : Option String :=
  match shape v with
  | .text s => s
  | _ => none

def whole? (v : α) : Option Int :=
  match shape v with
  | .whole n => some n
  | _ => none

/-- An integer in the half-open range from `low` to `high`. -/
def within? (low high : Int) (v : α) : Option Int :=
  (whole? v).filter fun n => low ≤ n ∧ n < high

def word32? (v : α) : Option UInt32 :=
  (within? 0 UInt32.size v).map fun n => UInt32.ofNat n.toNat

def word64? (v : α) : Option UInt64 :=
  (within? 0 UInt64.size v).map fun n => UInt64.ofNat n.toNat

def listOf? {β : Type} (read : α → Option β) (v : α) : Option (List β) :=
  match shape v with
  | .list items => items.mapM read
  | _ => none

/-- A value that may be absent, which null says. -/
def maybe? {β : Type} (read : α → Option β) (v : α) : Option (Option β) :=
  match shape v with
  | .null => some none
  | _ => (read v).map some

/-- One of several names without data: the name alone, or a table that gives it an empty payload. -/
def variant? {β : Type} (names : List (String × β)) (v : α) : Option β :=
  match shape v with
  | .text s => s.bind (List.lookup · names)
  | .table [(k, payload)] => if isUnit payload then k.bind (List.lookup · names) else none
  | _ => none

namespace Fields

def required {β : Type} (r : Fields α) (name : String) (read : α → Option β) : Option β :=
  (List.lookup name r).bind read

def withDefault {β : Type} (r : Fields α) (name : String) (read : α → Option β) (absent : β) :
    Option β :=
  match List.lookup name r with
  | none => some absent
  | some v => read v

end Fields

end Document

end StockGate
