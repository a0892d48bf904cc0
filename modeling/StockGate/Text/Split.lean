namespace StockGate.Text

/-- The parts between the characters that satisfy `p`; one more than there are such characters. -/
def splitWhere (p : Char → Bool) : List Char → List (List Char)
  | [] => [[]]
  | c :: cs =>
    if p c then [] :: splitWhere p cs
    else match splitWhere p cs with
      | [] => [[c]]
      | part :: parts => (c :: part) :: parts

def splitAt (sep : Char) : List Char → List (List Char) :=
  splitWhere (· = sep)

theorem splitWhere_ne_nil (p : Char → Bool) (cs : List Char) : splitWhere p cs ≠ [] := by
  cases cs with
  | nil => simp [splitWhere]
  | cons c cs =>
    simp only [splitWhere]
    split
    · simp
    · split <;> simp

/-- Cuts at the first place where `pattern` stands. -/
def cutAt? (pattern : List Char) : List Char → Option (List Char × List Char)
  | [] => if pattern = [] then some ([], []) else none
  | c :: cs =>
    if pattern.isPrefixOf (c :: cs) then some ([], (c :: cs).drop pattern.length)
    else (cutAt? pattern cs).map fun (before, after) => (c :: before, after)

def contains (pattern cs : List Char) : Bool :=
  (cutAt? pattern cs).isSome

theorem cutAt?_length {pattern cs before after : List Char}
    (h : cutAt? pattern cs = some (before, after)) (hp : pattern ≠ []) :
    after.length < cs.length := by
  induction cs generalizing before after with
  | nil => simp [cutAt?, hp] at h
  | cons c cs ih =>
    simp only [cutAt?] at h
    split at h
    · have : 0 < pattern.length := List.length_pos_iff.2 hp
      simp only [Option.some.injEq, Prod.mk.injEq] at h
      simp only [← h.2, List.length_drop, List.length_cons]
      omega
    · obtain ⟨⟨b, a⟩, hb, he⟩ := Option.map_eq_some_iff.1 h
      simp only [Prod.mk.injEq] at he
      have := ih hb
      simp only [List.length_cons, ← he.2]
      omega

/-- Replaces every occurrence of a pattern, from the front and without overlaps. -/
def replaceAll (pattern : List Char) (hp : pattern ≠ []) (replacement cs : List Char) : List Char :=
  match h : cutAt? pattern cs with
  | none => cs
  | some (before, after) =>
    have := cutAt?_length h hp
    before ++ replacement ++ replaceAll pattern hp replacement after
termination_by cs.length

end StockGate.Text
