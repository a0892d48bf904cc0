import Mathlib.Data.List.Basic
import StockGate.Proofs.Json.Grammar
import StockGate.Proofs.Text.Split

namespace StockGate.Json

open Text (Bytes)

section

variable {ps : List Piece} {ds bs rest : Bytes}

theorem pieces?_quote (rest : Bytes) : pieces? (0x22 :: rest) = some ([], rest) := by
  rw [pieces?.eq_def]
  rfl

theorem pieces?_of_spelled {piece : Piece} (h : piece.Spelled bs) (rest : Bytes) :
    pieces? (bs ++ rest) = (pieces? rest).map fun (ps, r) => (piece :: ps, r) := by
  cases h with
  | raw hcontrol hquote hslash =>
    rw [pieces?.eq_def]
    simp only [List.singleton_append, if_neg hquote, if_neg hslash, if_neg hcontrol]
  | @letter e b h =>
    have hu : e ≠ 0x75 := by
      rintro rfl
      cases h
    rw [pieces?.eq_def]
    simp only [List.cons_append, List.nil_append]
    rw [if_neg (by decide), if_pos trivial]
    split
    · next heq =>
      cases heq
      exact absurd rfl hu
    · next heq =>
      cases heq
      rw [h]
    · next heq => cases heq
  | unit h =>
    rw [pieces?.eq_def]
    simp only [List.cons_append, List.nil_append]
    rw [if_neg (by decide), if_pos trivial]
    simp only [h]

theorem pieces?_of_quoting (h : Quoting ps bs) (rest : Bytes) :
    pieces? (bs ++ 0x22 :: rest) = some (ps, rest) := by
  induction h with
  | nil => exact pieces?_quote rest
  | cons hp _ ih => rw [List.append_assoc, pieces?_of_spelled hp, ih, Option.map_some]

variable {b : UInt8} {w : Nat} {f : List (Fin 10)} {e : Option Int} {n : Number}

theorem Digits.scan (hds : Digits ds) (hrest : ∀ b ∈ rest.head?, isDigit b = false) :
    (ds ++ rest).takeWhile isDigit = ds ∧ (ds ++ rest).dropWhile isDigit = rest :=
  Text.takeWhile_append_of_stop hds hrest

namespace Number

theorem whole?_of_whole (h : Whole w bs) (hrest : ∀ b ∈ rest.head?, isDigit b = false) :
    whole? (bs ++ rest) = some (w, rest) := by
  cases h with
  | zero => rfl
  | digits hb hzero hbs =>
    obtain ⟨htake, hdrop⟩ := hbs.scan hrest
    rw [List.cons_append, whole?, if_neg hzero, if_pos hb, htake, hdrop]

theorem fraction?_of_fraction (h : Fraction f bs)
    (hrest : ∀ b ∈ rest.head?, isDigit b = false ∧ b ≠ 0x2E) :
    fraction? (bs ++ rest) = some (f, rest) := by
  cases h with
  | none =>
    rw [List.nil_append, fraction?.eq_def]
    split
    · next tail => exact absurd rfl (hrest 0x2E rfl).2
    · rfl
  | digits hne hbs =>
    obtain ⟨htake, hdrop⟩ := hbs.scan fun b hb => (hrest b hb).1
    rw [List.cons_append, fraction?]
    simp only [htake, hdrop, if_neg hne]

theorem exponentSign_of_digits (hne : bs ≠ []) (hbs : Digits bs) (rest : Bytes) :
    exponentSign (bs ++ rest) = (false, bs ++ rest) := by
  rw [exponentSign.eq_def]
  cases bs with
  | nil => exact absurd rfl hne
  | cons b bs =>
    have hb := hbs b List.mem_cons_self
    split
    · next heq =>
      cases heq
      cases hb
    · next heq =>
      cases heq
      cases hb
    · rfl

theorem exponent?_of_exponent (h : Exponent e bs) (hrest : Stops rest) :
    exponent? (bs ++ rest) = some (e, rest) := by
  have hdigit : ∀ b ∈ rest.head?, isDigit b = false := fun b hb => (hrest b hb).1
  cases h with
  | none =>
    rw [List.nil_append]
    cases rest with
    | nil => rfl
    | cons b rest =>
      obtain ⟨-, -, he, hE⟩ := hrest b rfl
      rw [exponent?, if_neg (by simp [he, hE])]
  | bare hmark hne hbs =>
    obtain ⟨htake, hdrop⟩ := hbs.scan hdigit
    rw [List.cons_append, exponent?, if_pos hmark, exponentSign_of_digits hne hbs]
    simp only [htake, hdrop, if_neg hne]
    rfl
  | plus hmark hne hbs =>
    obtain ⟨htake, hdrop⟩ := hbs.scan hdigit
    rw [List.cons_append, exponent?, if_pos hmark, List.cons_append, exponentSign]
    simp only [htake, hdrop, if_neg hne]
    rfl
  | minus hmark hne hbs =>
    obtain ⟨htake, hdrop⟩ := hbs.scan hdigit
    rw [List.cons_append, exponent?, if_pos hmark, List.cons_append, exponentSign]
    simp only [htake, hdrop, if_neg hne]
    rfl

theorem Whole.head (h : Whole w bs) : ∃ b rest, bs = b :: rest ∧ isDigit b = true := by
  cases h with
  | zero => exact ⟨0x30, [], rfl, rfl⟩
  | digits hb => exact ⟨_, _, rfl, hb⟩

theorem Exponent.head (h : Exponent e bs) (hrest : Stops rest) :
    ∀ b ∈ (bs ++ rest).head?, isDigit b = false ∧ b ≠ 0x2E := by
  have hmarked {mark : UInt8} (hmark : mark = 0x65 ∨ mark = 0x45) :
      isDigit mark = false ∧ mark ≠ 0x2E := by
    rcases hmark with rfl | rfl <;> decide
  intro b hb
  cases h with
  | none => exact ⟨(hrest b hb).1, (hrest b hb).2.1⟩
  | bare hmark | plus hmark | minus hmark =>
    obtain rfl := Option.some.inj hb
    exact hmarked hmark

theorem Fraction.head (h : Fraction f bs) (hrest : ∀ b ∈ rest.head?, isDigit b = false) :
    ∀ b ∈ (bs ++ rest).head?, isDigit b = false := by
  cases h with
  | none => exact hrest
  | digits =>
    intro b hb
    obtain rfl := Option.some.inj hb
    rfl

theorem number?_of_digit (hb : isDigit b = true) (bs : Bytes) :
    number? (b :: bs) = do
      let (whole, rest) ← whole? (b :: bs)
      let (fraction, rest) ← fraction? rest
      let (exponent, rest) ← exponent? rest
      return (⟨false, whole, fraction, exponent⟩, rest) := by
  rw [number?.eq_def]
  split
  next negative tail heq =>
  split at heq
  · next hminus =>
    rw [(List.cons.inj hminus).1] at hb
    cases hb
  · next =>
    obtain ⟨rfl, rfl⟩ := Prod.mk.inj heq
    rfl

theorem number?_of_spelled (h : n.Spelled bs) (hrest : Stops rest) :
    number? (bs ++ rest) = some (n, rest) := by
  obtain ⟨negative, hw, hf, he⟩ := h
  -- Each part ends where the next one starts, so the stops are found from the last part back.
  have hexponent := exponent?_of_exponent he hrest
  have hfraction := fraction?_of_fraction hf (he.head hrest)
  have hwhole := whole?_of_whole hw (hf.head fun b hb => (he.head hrest b hb).1)
  rw [List.append_assoc, List.append_assoc, List.append_assoc]
  cases negative with
  | true =>
    rw [sign, if_pos rfl, List.singleton_append, number?]
    simp only [hwhole, hfraction, hexponent, Option.bind_eq_bind, Option.bind_some,
      Option.pure_def]
  | false =>
    obtain ⟨b, tail, rfl, hb⟩ := hw.head
    rw [sign, if_neg Bool.false_ne_true, List.nil_append, List.cons_append,
      number?_of_digit hb, ← List.cons_append]
    simp only [hwhole, hfraction, hexponent, Option.bind_eq_bind, Option.bind_some,
      Option.pure_def]

end Number

theorem forall_isDigit {P : UInt8 → Prop} (h : ∀ d : Fin 10, P (UInt8.ofNat (0x30 + d.val))) :
    ∀ b, isDigit b = true → P b := by
  intro b hb
  have hbounds : 0x30 ≤ b.toNat ∧ b.toNat ≤ 0x39 := by
    simpa [isDigit, UInt8.le_iff_toNat_le] using hb
  have hbyte : UInt8.ofNat (0x30 + (b.toNat - 0x30)) = b := by
    rw [Nat.add_sub_cancel' hbounds.1, UInt8.ofNat_toNat]
  exact hbyte ▸ h ⟨b.toNat - 0x30, by omega⟩

theorem isSpace_of_isDigit : ∀ b, isDigit b = true → isSpace b = false :=
  forall_isDigit (by decide)

theorem punctuation?_of_isDigit : ∀ b, isDigit b = true → punctuation? b = none :=
  forall_isDigit (by decide)

theorem Number.Spelled.head (h : n.Spelled bs) :
    ∃ b tail, bs = b :: tail ∧ (b = 0x2D ∨ isDigit b = true) := by
  obtain ⟨negative, hw, -, -⟩ := h
  cases negative with
  | true => exact ⟨0x2D, _, rfl, Or.inl rfl⟩
  | false =>
    obtain ⟨b, tail, rfl, hb⟩ := hw.head
    exact ⟨b, _, rfl, Or.inr hb⟩

variable {t : Token} {ts : List Token}

theorem Token.Spelled.head (h : t.Spelled bs) : ∃ b tail, bs = b :: tail ∧ isSpace b = false := by
  cases h with
  | number h =>
    obtain ⟨b, tail, rfl, rfl | hb⟩ := h.head
    · exact ⟨0x2D, tail, rfl, rfl⟩
    · exact ⟨b, tail, rfl, isSpace_of_isDigit b hb⟩
  | _ => exact ⟨_, _, rfl, rfl⟩

theorem keyword?_append (word : String) (v : Value) (rest : Bytes) :
    keyword? word v (Text.utf8 word ++ rest) = some (.scalar v, rest) := by
  rw [keyword?]
  simp

theorem Token.first?_of_spelled (h : t.Spelled bs)
    (hstop : (∃ n, t = .scalar (.number n)) → Stops rest) :
    Token.first? (bs ++ rest) = some (t, rest) := by
  cases h with
  | quoted h =>
    rw [List.cons_append, List.append_assoc, List.singleton_append]
    change (pieces? _).map _ = _
    rw [pieces?_of_quoting h]
    rfl
  | number h =>
    obtain ⟨b, tail, rfl, hb⟩ := h.head
    have hpunctuation : punctuation? b = none := by
      rcases hb with rfl | hb
      · rfl
      · exact punctuation?_of_isDigit b hb
    have hquote : b ≠ 0x22 := by
      rintro rfl
      rcases hb with hb | hb <;> cases hb
    rw [List.cons_append, Token.first?]
    simp only [hpunctuation, if_neg hquote, if_pos hb]
    rw [← List.cons_append, Number.number?_of_spelled h (hstop ⟨_, rfl⟩)]
    rfl
  | null =>
    change (keyword? "null" .null (Text.utf8 "null" ++ rest) <|> _) = _
    rw [keyword?_append]
    rfl
  | yes =>
    change (keyword? "true" (.bool true) (Text.utf8 "true" ++ rest) <|>
      keyword? "false" (.bool false) (Text.utf8 "true" ++ rest)) = _
    rw [keyword?_append]
    rfl
  | no =>
    change keyword? "false" (.bool false) (Text.utf8 "false" ++ rest) = _
    rw [keyword?_append]
  | _ => rfl

theorem tokens?_blank {blank : Bytes} (hblank : Blank blank) (bs : Bytes) :
    tokens? (blank ++ bs) = tokens? bs := by
  induction blank with
  | nil => rfl
  | cons b blank ih =>
    rw [List.cons_append, tokens?, if_pos (hblank b List.mem_cons_self)]
    exact ih fun b hb => hblank b (List.mem_cons_of_mem _ hb)

theorem tokens?_of_spelled (h : t.Spelled bs)
    (hstop : (∃ n, t = .scalar (.number n)) → Stops rest) :
    tokens? (bs ++ rest) = (tokens? rest).map (t :: ·) := by
  have hfirst := Token.first?_of_spelled h hstop
  obtain ⟨b, tail, rfl, hb⟩ := h.head
  rw [List.cons_append] at hfirst ⊢
  -- The scanner goes on only with a shorter text, which every token leaves.
  have hshorter : rest.length < (b :: (tail ++ rest)).length := by
    rw [List.length_cons, List.length_append]
    omega
  rw [tokens?, if_neg (by simp [hb])]
  simp only [hfirst]
  rw [if_pos hshorter]

/-- A text of tokens is read as these tokens. -/
theorem tokens?_of_spells (h : Spells ts bs) : tokens? bs = some ts := by
  induction h with
  | @nil blank h =>
    rw [← List.append_nil blank, tokens?_blank h, tokens?]
  | cons hblank ht hstop _ ih => rw [tokens?_blank hblank, tokens?_of_spelled ht hstop, ih,
      Option.map_some]

end

end StockGate.Json
