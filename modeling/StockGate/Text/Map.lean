namespace StockGate

/-- Entries in ascending order of their keys, each key once. -/
structure TextMap where
  entries : List (String × String)
  deriving DecidableEq

namespace TextMap

def empty : TextMap :=
  ⟨[]⟩

def get? (m : TextMap) (key : String) : Option String :=
  List.lookup key m.entries

def insertEntry (key value : String) : List (String × String) → List (String × String)
  | [] => [(key, value)]
  | (k, v) :: rest =>
    if key < k then (key, value) :: (k, v) :: rest
    else if key = k then (key, value) :: rest
    else (k, v) :: insertEntry key value rest

def insert (m : TextMap) (key value : String) : TextMap :=
  ⟨insertEntry key value m.entries⟩

def insertNew (m : TextMap) (key value : String) : TextMap :=
  if (m.get? key).isSome then m else m.insert key value

def ofList (entries : List (String × String)) : TextMap :=
  entries.foldl (fun m e => m.insert e.1 e.2) empty

end TextMap

end StockGate
