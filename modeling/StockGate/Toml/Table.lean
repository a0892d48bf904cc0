import StockGate.Toml.Basic

namespace StockGate.Toml

abbrev Path := List String

def Members.get? (ms : Members) (key : String) : Option Item :=
  List.lookup key ms

def Members.set (ms : Members) (key : String) (item : Item) : Members :=
  if (ms.get? key).isSome then ms.map fun m => if m.1 = key then (key, item) else m
  else ms ++ [(key, item)]

def Members.add? (ms : Members) (key : String) (item : Item) : Option Members :=
  if (ms.get? key).isSome then none else some (ms ++ [(key, item)])

/-- Applies `f` to the last of the tables under a doubly bracketed header. -/
def onLast? (f : Members → Option Members) (elements : List Members) : Option (List Members) :=
  match elements.getLast? with
  | none => none
  | some last => (f last).map (elements.dropLast ++ [·])

/-- Assigns through a dotted key. It may pass tables that no header has completed, and must
end in one that dotted keys alone have made. -/
def Members.assign? (key : String) (item : Item) : Path → Members → Option Members
  | [], ms => ms.add? key item
  | k :: path, ms =>
    match ms.get? k with
    | none => (assign? key item path []).map fun inner => ms.set k (.table .dotted inner)
    | some (.table origin inner) =>
      if origin = .dotted ∨ (origin = .implied ∧ path ≠ []) then
        (assign? key item path inner).map fun inner => ms.set k (.table origin inner)
      else none
    | some (.tables elements) =>
      if path = [] then none
      else (onLast? (assign? key item path) elements).map fun els => ms.set k (.tables els)
    | some _ => none

/-- Applies `f` to the table that a header's path leads to, making the tables that are missing. -/
def Members.descend? (f : Members → Option Members) : Path → Members → Option Members
  | [], ms => f ms
  | k :: path, ms =>
    match ms.get? k with
    | none => (descend? f path []).map fun inner => ms.set k (.table .implied inner)
    | some (.table .inline _) => none
    | some (.table origin inner) =>
      (descend? f path inner).map fun inner => ms.set k (.table origin inner)
    | some (.tables elements) =>
      (onLast? (descend? f path) elements).map fun els => ms.set k (.tables els)
    | some _ => none

/-- One `key = value`, with the path of a dotted key apart from its last name. -/
structure Assignment where
  path : Path
  key : String
  item : Item

def Members.assignAll? (ms : Members) (body : List Assignment) : Option Members :=
  body.foldlM (fun ms a => ms.assign? a.key a.item a.path) ms

inductive Heading where
  | table (path : Path) (key : String)
  | element (path : Path) (key : String)

structure Section where
  heading : Heading
  body : List Assignment

def Section.place? (s : Section) (root : Members) : Option Members :=
  match s.heading with
  | .table path key =>
    root.descend? (fun parent => do
      let start : Members ← match parent.get? key with
        | none => some []
        | some (.table .implied inner) => some inner
        | some _ => none
      return parent.set key (.table .header (← start.assignAll? s.body))) path
  | .element path key =>
    root.descend? (fun parent => do
      let before ← match parent.get? key with
        | none => some []
        | some (.tables elements) => some elements
        | some _ => none
      return parent.set key (.tables (before ++ [← Members.assignAll? [] s.body]))) path

/-- The root table of a document: what precedes the first heading, then the sections in order. -/
def build? (top : List Assignment) (sections : List Section) : Option Members := do
  sections.foldlM (fun root s => s.place? root) (← Members.assignAll? [] top)

end StockGate.Toml
