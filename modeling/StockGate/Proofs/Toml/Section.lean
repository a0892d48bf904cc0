import StockGate.Proofs.Document.Record
import StockGate.Proofs.Toml.Scalar

namespace StockGate.Toml

variable {c : Char} {word cs after rest text : List Char} {item : Item}

/-- Here a name or a value starts: no blank, and no mark. -/
def Starts (cs : List Char) : Prop :=
  ∃ c rest, cs = c :: rest ∧ isBareKey c = true

theorem Starts.ne (h : Starts cs) (hc : isBareKey c = false) : cs ≠ c :: rest := by
  obtain ⟨d, more, rfl, hd⟩ := h
  intro heq
  rw [(List.cons.inj heq).1, hc] at hd
  cases hd

theorem isWs_of_isBareKey (h : isBareKey c = true) : isWs c = false := by
  apply Bool.eq_false_iff.mpr
  intro hws
  rw [isWs, Bool.or_eq_true, decide_eq_true_eq, decide_eq_true_eq] at hws
  rcases hws with rfl | rfl
  · exact absurd h (by decide)
  · exact absurd h (by decide)

theorem Starts.skipWs (h : Starts cs) : skipWs cs = cs := by
  obtain ⟨c, rest, rfl, hc⟩ := h
  rw [Toml.skipWs, List.dropWhile_cons_of_neg]
  rw [isWs_of_isBareKey hc]
  decide

theorem Starts.skipWsNewlines (h : Starts cs) : skipWsNewlines cs = cs := by
  rw [Toml.skipWsNewlines.eq_def]
  split
  · rfl
  · exact absurd rfl (h.ne (by decide))
  · next c rest _ =>
    obtain ⟨d, more, heq, hd⟩ := h
    cases heq
    apply if_neg
    rintro (hws | rfl)
    · rw [isWs_of_isBareKey hd] at hws
      cases hws
    · exact absurd hd (by decide)

theorem Starts.skipLines (h : Starts cs) : skipLines cs = cs := by
  rw [Toml.skipLines.eq_def]
  split
  · next heq =>
    rw [h.skipWsNewlines] at heq
    exact absurd heq (h.ne (by decide))
  · exact h.skipWsNewlines

def Bare (word : List Char) : Prop :=
  word ≠ [] ∧ word.all isBareKey = true

instance : DecidablePred Bare :=
  fun _ => inferInstanceAs (Decidable (_ ∧ _))

theorem Bare.starts (h : Bare word) (rest : List Char) : Starts (word ++ rest) := by
  obtain ⟨c, cs, rfl⟩ := List.exists_cons_of_ne_nil h.1
  exact ⟨c, cs ++ rest, rfl, List.all_eq_true.mp h.2 c List.mem_cons_self⟩

/-- Here a name is over. -/
def Ends (cs : List Char) : Prop :=
  ∀ c ∈ cs.head?, isBareKey c = false

theorem takeWhile_bare (h : Bare word) (hafter : Ends after) :
    (word ++ after).takeWhile isBareKey = word := by
  rw [List.takeWhile_append_of_pos (List.all_eq_true.mp h.2)]
  cases after with
  | nil => rw [List.takeWhile_nil, List.append_nil]
  | cons c after =>
    have hc := hafter c rfl
    rw [List.takeWhile_cons_of_neg (by simp [hc]), List.append_nil]

theorem simpleKey?_bare (h : Bare word) (hafter : Ends after) :
    simpleKey? (word ++ after) = some (String.ofList word, after) := by
  have hstarts := h.starts after
  rw [simpleKey?.eq_def]
  split
  · next heq => exact absurd heq (hstarts.ne (by decide))
  · next heq => exact absurd heq (hstarts.ne (by decide))
  · rw [takeWhile_bare h hafter]
    simp [h.1]

theorem names?_bare (h : Bare word) (hafter : Ends after)
    (hdot : ∀ rest, skipWs after ≠ '.' :: rest) :
    names? (word ++ after) = some ([String.ofList word], skipWs after) := by
  rw [names?.eq_def, (h.starts after).skipWs, simpleKey?_bare h hafter]
  dsimp only
  split
  · next heq => exact absurd heq (hdot _)
  · rfl

theorem key?_bare (h : Bare word) (hafter : Ends after)
    (hdot : ∀ rest, skipWs after ≠ '.' :: rest) :
    key? (word ++ after) = some (([], String.ofList word), skipWs after) := by
  rw [key?, names?_bare h hafter hdot]
  rfl

theorem Writes.starts (h : Writes text item) (rest : List Char) : Starts (text ++ rest) := by
  obtain ⟨c, cs, rfl, hc⟩ := h.bare
  exact ⟨c, cs ++ rest, rfl, hc⟩

theorem value?_of_writes (h : Writes text item) (hrest : AtLineEnd rest) (depth : Nat) :
    value? depth (text ++ rest) = some (item, rest) := by
  have hstarts := h.starts rest
  rw [← h.reads rest hrest, value?.eq_def]
  split
  · rfl
  · split
    · next heq => exact absurd heq (hstarts.ne (by decide))
    · next heq => exact absurd heq (hstarts.ne (by decide))
    · rfl

theorem lineEnd?_of_atLineEnd (h : AtLineEnd rest) : lineEnd? rest = some rest.tail := by
  rcases h.cases with rfl | ⟨more, rfl⟩
  · rfl
  · rfl

/-- An assignment of one value to one name, and how it is written. -/
structure Row where
  name : String
  text : List Char
  item : Item
  bare : Bare name.toList
  writes : Writes text item

namespace Row

variable {r : Row} {rs : List Row}

def line (r : Row) : List Char :=
  r.name.toList ++ " = ".toList ++ r.text

def assignment (r : Row) : Assignment :=
  ⟨[], r.name, r.item⟩

theorem starts_line (r : Row) (rest : List Char) : Starts (r.line ++ rest) := by
  rw [line, List.append_assoc, List.append_assoc]
  exact r.bare.starts _

theorem assignment?_line (hrest : AtLineEnd rest) :
    assignment? (value? nestingLimit) (r.line ++ rest) = some (r.assignment, rest) := by
  have hvalue := value?_of_writes r.writes hrest nestingLimit
  have hends : Ends (" = ".toList ++ (r.text ++ rest)) := by
    rintro c ⟨⟩
    decide
  have hskip : skipWs (" = ".toList ++ (r.text ++ rest)) = '=' :: ' ' :: (r.text ++ rest) := rfl
  have hkey := key?_bare r.bare hends (by rw [hskip]; simp)
  have hblank : skipWs (' ' :: (r.text ++ rest)) = r.text ++ rest :=
    (r.writes.starts rest).skipWs
  rw [assignment?, line, List.append_assoc, List.append_assoc, hkey, hskip]
  simp [expect?, hblank, hvalue, assignment]

theorem line?_line (hrest : AtLineEnd rest) :
    line? (r.line ++ rest) = some (.assign r.assignment, rest.tail) := by
  have hstarts := r.starts_line rest
  rw [line?.eq_def]
  split
  · next heq => exact absurd heq (hstarts.ne (by decide))
  · rw [assignment?_line hrest]
    simp [lineEnd?_of_atLineEnd hrest]

theorem lines?_line (hrest : AtLineEnd rest) :
    lines? (r.line ++ rest) = (lines? rest.tail).map (.assign r.assignment :: ·) := by
  have hstarts := r.starts_line rest
  have hlength : rest.tail.length < (r.line ++ rest).length := by
    have hmark : 0 < " = ".toList.length := by decide
    rw [List.length_tail, line, List.length_append, List.length_append, List.length_append]
    omega
  rw [lines?.eq_def, hstarts.skipLines]
  split
  · next heq =>
    obtain ⟨c, cs, h, -⟩ := hstarts
    rw [h] at heq
    cases heq
  · rw [line?_line hrest]
    exact if_pos hlength

def body (rs : List Row) (ending : Bool) : List Char :=
  rs.flatMap (fun r => '\n' :: r.line) ++ if ending then ['\n'] else []

theorem atLineEnd_body (rs : List Row) (ending : Bool) : AtLineEnd (body rs ending) := by
  cases rs with
  | nil =>
    cases ending
    · exact fun c hc => absurd hc (by simp [body])
    · rintro c ⟨⟩
      rfl
  | cons r rs =>
    rintro c ⟨⟩
    rfl

theorem lines?_nil : lines? [] = some [] := by
  have hskip : skipLines [] = [] := by
    rw [Toml.skipLines.eq_def]
    split
    · next heq => cases heq
    · rfl
  rw [lines?.eq_def, hskip]

theorem lines?_body (rs : List Row) (ending : Bool) :
    lines? (body rs ending).tail = some (rs.map fun r => .assign r.assignment) := by
  induction rs with
  | nil =>
    cases ending
    · exact lines?_nil
    · exact lines?_nil
  | cons r rs ih =>
    have hbody : (body (r :: rs) ending).tail = r.line ++ body rs ending := by
      simp [body]
    rw [hbody, lines?_line (atLineEnd_body rs ending), ih]
    rfl

/-- A document of one section. -/
def document (name : String) (rs : List Row) (ending : Bool) : List Char :=
  '[' :: name.toList ++ ']' :: body rs ending

theorem heading?_append {name : String} (hname : Bare name.toList) (rest : List Char) :
    heading? ('[' :: name.toList ++ ']' :: rest) = some (.table [] name, rest) := by
  have hends : Ends (']' :: rest) := by
    rintro c ⟨⟩
    decide
  have hskip : skipWs (']' :: rest) = ']' :: rest := rfl
  have hkey := key?_bare hname hends (by rw [hskip]; simp)
  have hstarts := hname.starts (']' :: rest)
  rw [List.cons_append, heading?.eq_def]
  split
  · next heq => exact absurd (List.cons.inj heq).2 (hstarts.ne (by decide))
  · next heq =>
    cases heq
    rw [hkey]
    simp [hskip, expect?]
  · next hother => exact absurd rfl (hother _)

theorem lines?_document {name : String} (hname : Bare name.toList) (rs : List Row) (ending : Bool) :
    lines? (document name rs ending) =
      some (.heading (.table [] name) :: rs.map fun r => .assign r.assignment) := by
  have hskip : Toml.skipLines (document name rs ending) = document name rs ending := by
    rw [Toml.skipLines.eq_def]
    rfl
  have hline : line? (document name rs ending) =
      some (.heading (.table [] name), (body rs ending).tail) := by
    rw [line?.eq_def, document, heading?_append hname]
    simp [lineEnd?_of_atLineEnd (atLineEnd_body rs ending)]
  have hlength : (body rs ending).tail.length < (document name rs ending).length := by
    simp [document]
    omega
  rw [lines?.eq_def, hskip]
  split
  · next heq => cases heq
  · rw [hline]
    dsimp only
    rw [if_pos hlength, lines?_body]
    rfl

def member (r : Row) : String × Item :=
  (r.name, r.item)

theorem sections_assignments (rs : List Row) :
    sections (rs.map fun r => .assign r.assignment) = (rs.map assignment, []) := by
  induction rs with
  | nil => rfl
  | cons r rs ih => rw [List.map_cons, sections, ih, List.map_cons]

/-- Under names of their own all assignments become members, in order. -/
theorem assignAll?_assignments (ms : Members) (h : (ms.map Prod.fst ++ rs.map name).Nodup) :
    ms.assignAll? (rs.map assignment) = some (ms ++ rs.map member) := by
  induction rs generalizing ms with
  | nil => simp [Members.assignAll?]
  | cons r rs ih =>
    have hfresh : ms.get? r.name = none := by
      apply Document.lookup_eq_none
      intro hmem
      exact (List.nodup_append.mp h).2.2 _ hmem _ List.mem_cons_self rfl
    have hadd : ms.assign? r.name r.item [] = some (ms ++ [r.member]) := by
      rw [Members.assign?, Members.add?, hfresh]
      rfl
    have hrest := ih (ms ++ [r.member]) (by simpa [member] using h)
    rw [Members.assignAll?, List.map_cons, List.foldlM_cons]
    change (ms.assign? r.name r.item []).bind _ = _
    rw [hadd, Option.bind_some]
    rw [List.append_assoc] at hrest
    exact hrest

/-- A document of one section is a table with that table in it. -/
theorem parse?_document {name : String} (hname : Bare name.toList) (h : (rs.map Row.name).Nodup)
    (ending : Bool) : parse? (String.ofList (document name rs ending)) =
      some (.table .header [(name, .table .header (rs.map member))]) := by
  have hassign : Members.assignAll? [] (rs.map assignment) = some (rs.map member) :=
    assignAll?_assignments [] h
  have hplace : Section.place? ⟨.table [] name, rs.map assignment⟩ [] =
      some [(name, .table .header (rs.map member))] := by
    change (Members.assignAll? [] (rs.map assignment)).bind _ = _
    rw [hassign]
    rfl
  have hbuild : build? [] [⟨.table [] name, rs.map assignment⟩] =
      some [(name, .table .header (rs.map member))] := by
    change (Section.place? ⟨.table [] name, rs.map assignment⟩ []).bind some = _
    rw [hplace, Option.bind_some]
  rw [parse?, String.toList_ofList]
  change (lines? (document name rs ending)).bind _ = _
  rw [lines?_document hname, Option.bind_some, sections, sections_assignments]
  change (build? [] [⟨.table [] name, rs.map assignment⟩]).bind _ = _
  rw [hbuild]
  rfl

end Row

end StockGate.Toml
