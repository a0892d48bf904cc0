import StockGate.Url.Encode

namespace StockGate.Url

open Text

variable {set : EncodeSet} {c : Char} {cs : List Char}

def escapeMarks : List Char :=
  '%' :: "0123456789ABCDEF".toList

theorem hexDigitUpper_mem : ∀ d : Fin 16, hexDigitUpper d ∈ escapeMarks := by
  decide

theorem hexValue?_hexDigitUpper : ∀ d : Fin 16, hexValue? (hexDigitUpper d) = some d.val := by
  decide

theorem escapeByte_eq (b : UInt8) : ∃ high low : Fin 16, high.val * 16 + low.val = b.toNat ∧
    escapeByte b = ['%', hexDigitUpper high, hexDigitUpper low] := by
  have hb : b.toNat < 256 := b.toNat_lt
  refine ⟨⟨b.toNat / 16, by omega⟩, ⟨b.toNat % 16, by omega⟩, ?_, rfl⟩
  show b.toNat / 16 * 16 + b.toNat % 16 = b.toNat
  omega

theorem decode_escapeByte (b : UInt8) (rest : List Char) :
    decode (escapeByte b ++ rest) = b :: decode rest := by
  obtain ⟨high, low, hvalue, he⟩ := escapeByte_eq b
  rw [he, List.cons_append, List.cons_append, List.cons_append, List.nil_append, decode,
    hexValue?_hexDigitUpper, hexValue?_hexDigitUpper]
  simp only [hvalue, UInt8.ofNat_toNat]

theorem decode_escapes (bytes : Bytes) (rest : List Char) :
    decode (bytes.flatMap escapeByte ++ rest) = bytes ++ decode rest := by
  induction bytes with
  | nil => rfl
  | cons b bytes ih =>
    rw [List.flatMap_cons, List.append_assoc, decode_escapeByte, ih, List.cons_append]

theorem escapes_of_mem (h : c ∈ set) : set.escapes c = true := by
  have hc : set.contains c = true := List.contains_iff_mem.mpr h
  rw [EncodeSet.escapes, hc, Bool.or_true]

theorem decode_cons_of_ne (h : c ≠ '%') (rest : List Char) :
    decode (c :: rest) = String.utf8EncodeChar c ++ decode rest := by
  rw [decode.eq_3]
  intro a b rest' hc
  exact absurd hc h

theorem decode_encodeChar (h : '%' ∈ set) (c : Char) (rest : List Char) :
    decode (encodeChar set c ++ rest) = String.utf8EncodeChar c ++ decode rest := by
  unfold encodeChar
  by_cases hc : set.escapes c = true
  · rw [if_pos hc, decode_escapes]
  · rw [if_neg hc, List.singleton_append, decode_cons_of_ne]
    rintro rfl
    exact hc (escapes_of_mem h)

theorem decode_encode (h : '%' ∈ set) (cs : List Char) :
    decode (encode set cs) = cs.flatMap String.utf8EncodeChar := by
  induction cs with
  | nil => rfl
  | cons c cs ih =>
    rw [encode, List.flatMap_cons, decode_encodeChar h, List.flatMap_cons, ← ih]
    rfl

theorem mem_encode (h : c ∈ encode set cs) :
    c ∈ cs ∧ set.escapes c = false ∨ c ∈ escapeMarks := by
  obtain ⟨d, hd, hc⟩ := List.mem_flatMap.mp h
  unfold encodeChar at hc
  by_cases he : set.escapes d = true
  · rw [if_pos he] at hc
    obtain ⟨b, -, hb⟩ := List.mem_flatMap.mp hc
    obtain ⟨high, low, -, hbyte⟩ := escapeByte_eq b
    rw [hbyte] at hb
    simp only [List.mem_cons, List.not_mem_nil, or_false] at hb
    right
    rcases hb with rfl | rfl | rfl
    · exact List.mem_cons_self
    · exact hexDigitUpper_mem high
    · exact hexDigitUpper_mem low
  · rw [if_neg he] at hc
    obtain rfl := List.mem_singleton.mp hc
    exact Or.inl ⟨hd, Bool.eq_false_iff.mpr he⟩

end StockGate.Url
