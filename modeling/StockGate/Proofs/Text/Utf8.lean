import StockGate.Text.Utf8

namespace StockGate.Text

section

variable {a b c d : UInt8} {n : Nat} {rest : Bytes}

theorem isContinuation_of_toNat (hb : b.toNat = n % 0x40 + 0x80) : isContinuation b = true := by
  have hbounds : 0x80 ≤ b ∧ b ≤ 0xBF := by
    simp only [UInt8.le_iff_toNat_le]
    change 0x80 ≤ b.toNat ∧ b.toNat ≤ 0xBF
    omega
  simpa [isContinuation] using hbounds

theorem payload_of_toNat (hb : b.toNat = n % 0x40 + 0x80) : payload b = n % 0x40 := by
  unfold payload
  omega

theorem not_ascii (h : 0x80 ≤ a.toNat) : ¬ a < 0x80 := by
  intro hlt
  have hnat : a.toNat < 0x80 := UInt8.lt_iff_toNat_lt.mp hlt
  omega

theorem utf8Chars?_one (ha : a.toNat = n) (h : n ≤ 0x7F) :
    utf8Chars? (a :: rest) = (utf8Chars? rest).map (Char.ofNat n :: ·) := by
  have hlt : a < 0x80 := by
    apply UInt8.lt_iff_toNat_lt.mpr
    exact Nat.lt_succ_of_le (ha ▸ h)
  rw [utf8Chars?.eq_def]
  simp only [if_pos hlt, ha]

theorem utf8Chars?_two (ha : a.toNat = n / 64 % 0x20 + 0xC0) (hb : b.toNat = n % 0x40 + 0x80)
    (hlow : 0x7F < n) (hhigh : n ≤ 0x7FF) :
    utf8Chars? (a :: b :: rest) = (utf8Chars? rest).map (Char.ofNat n :: ·) := by
  have hlt := not_ascii (a := a) (by omega)
  have htwo : 0xC2 ≤ a ∧ a ≤ 0xDF ∧ isContinuation b = true := by
    simp only [UInt8.le_iff_toNat_le]
    change 0xC2 ≤ a.toNat ∧ a.toNat ≤ 0xDF ∧ _
    exact ⟨by omega, by omega, isContinuation_of_toNat hb⟩
  have hvalue : (a.toNat - 0xC0) * 64 + n % 0x40 = n := by omega
  rw [utf8Chars?.eq_def]
  simp only [if_neg hlt, if_pos htwo, payload_of_toNat hb, hvalue]

theorem utf8Chars?_three (ha : a.toNat = n / 4096 % 0x10 + 0xE0)
    (hb : b.toNat = n / 64 % 0x40 + 0x80) (hc : c.toNat = n % 0x40 + 0x80) (hlow : 0x7FF < n)
    (hhigh : n ≤ 0xFFFF) (hvalid : n < 0xD800 ∨ 0xDFFF < n) :
    utf8Chars? (a :: b :: c :: rest) = (utf8Chars? rest).map (Char.ofNat n :: ·) := by
  have hlt := not_ascii (a := a) (by omega)
  have htwo : ¬ (0xC2 ≤ a ∧ a ≤ 0xDF ∧ isContinuation b = true) := by
    rintro ⟨-, hle, -⟩
    have hnat : a.toNat ≤ 0xDF := UInt8.le_iff_toNat_le.mp hle
    omega
  have hthree : 0xE0 ≤ a ∧ a ≤ 0xEF ∧ isContinuation b = true ∧ isContinuation c = true ∧
      (a = 0xE0 → 0xA0 ≤ b) ∧ (a = 0xED → b < 0xA0) := by
    simp only [UInt8.le_iff_toNat_le, UInt8.lt_iff_toNat_lt, ← UInt8.toNat_inj]
    change 0xE0 ≤ a.toNat ∧ a.toNat ≤ 0xEF ∧ _ ∧ _ ∧ (a.toNat = 0xE0 → 0xA0 ≤ b.toNat) ∧
      (a.toNat = 0xED → b.toNat < 0xA0)
    exact ⟨by omega, by omega, isContinuation_of_toNat hb, isContinuation_of_toNat hc, by omega,
      by omega⟩
  have hvalue : (a.toNat - 0xE0) * 4096 + n / 64 % 0x40 * 64 + n % 0x40 = n := by omega
  rw [utf8Chars?.eq_def]
  simp only [if_neg hlt, if_neg htwo, if_pos hthree, payload_of_toNat hb, payload_of_toNat hc,
    hvalue]

theorem utf8Chars?_four (ha : a.toNat = n / 262144 % 0x08 + 0xF0)
    (hb : b.toNat = n / 4096 % 0x40 + 0x80) (hc : c.toNat = n / 64 % 0x40 + 0x80)
    (hd : d.toNat = n % 0x40 + 0x80) (hlow : 0xFFFF < n) (hhigh : n < 0x110000) :
    utf8Chars? (a :: b :: c :: d :: rest) = (utf8Chars? rest).map (Char.ofNat n :: ·) := by
  have hlt := not_ascii (a := a) (by omega)
  have htwo : ¬ (0xC2 ≤ a ∧ a ≤ 0xDF ∧ isContinuation b = true) := by
    rintro ⟨-, hle, -⟩
    have hnat : a.toNat ≤ 0xDF := UInt8.le_iff_toNat_le.mp hle
    omega
  have hthree : ¬ (0xE0 ≤ a ∧ a ≤ 0xEF ∧ isContinuation b = true ∧ isContinuation c = true ∧
      (a = 0xE0 → 0xA0 ≤ b) ∧ (a = 0xED → b < 0xA0)) := by
    rintro ⟨-, hle, -⟩
    have hnat : a.toNat ≤ 0xEF := UInt8.le_iff_toNat_le.mp hle
    omega
  have hfour : 0xF0 ≤ a ∧ a ≤ 0xF4 ∧ isContinuation b = true ∧ isContinuation c = true ∧
      isContinuation d = true ∧ (a = 0xF0 → 0x90 ≤ b) ∧ (a = 0xF4 → b < 0x90) := by
    simp only [UInt8.le_iff_toNat_le, UInt8.lt_iff_toNat_lt, ← UInt8.toNat_inj]
    change 0xF0 ≤ a.toNat ∧ a.toNat ≤ 0xF4 ∧ _ ∧ _ ∧ _ ∧ (a.toNat = 0xF0 → 0x90 ≤ b.toNat) ∧
      (a.toNat = 0xF4 → b.toNat < 0x90)
    exact ⟨by omega, by omega, isContinuation_of_toNat hb, isContinuation_of_toNat hc,
      isContinuation_of_toNat hd, by omega, by omega⟩
  have hvalue : (a.toNat - 0xF0) * 262144 + n / 4096 % 0x40 * 4096 + n / 64 % 0x40 * 64 +
      n % 0x40 = n := by omega
  rw [utf8Chars?.eq_def]
  simp only [if_neg hlt, if_neg htwo, if_neg hthree, if_pos hfour, payload_of_toNat hb,
    payload_of_toNat hc, payload_of_toNat hd, hvalue]

end

theorem toNat_byte {n : Nat} (h : n < 256) : (UInt8.ofNat n).toNat = n := by
  rw [UInt8.toNat_ofNat', Nat.mod_eq_of_lt h]

/-- Only ASCII characters have ASCII bytes. -/
theorem utf8EncodeChar_bytes (c : Char) :
    ∀ b ∈ String.utf8EncodeChar c, b.toNat = c.toNat ∨ 0x80 ≤ b.toNat := by
  intro b hb
  have hbyte {m k : Nat} (hm : 0x80 ≤ m) (hk : 0 < k) (h : m + k ≤ 256) (x : Nat) :
      0x80 ≤ (UInt8.ofNat (x % k + m)).toNat := by
    have hlt := Nat.mod_lt x hk
    rw [toNat_byte (by omega)]
    omega
  have hlast := hbyte (m := 0x80) (k := 0x40) (by decide) (by decide) (by decide)
  unfold String.utf8EncodeChar at hb
  dsimp only at hb
  split at hb
  · next hone =>
    obtain rfl := List.mem_singleton.mp hb
    exact Or.inl (toNat_byte (by omega))
  · right
    split at hb
    · simp only [List.mem_cons, List.not_mem_nil, or_false] at hb
      rcases hb with rfl | rfl
      · exact hbyte (by decide) (by decide) (by decide) _
      · exact hlast _
    · split at hb
      · simp only [List.mem_cons, List.not_mem_nil, or_false] at hb
        rcases hb with rfl | rfl | rfl
        · exact hbyte (by decide) (by decide) (by decide) _
        · exact hlast _
        · exact hlast _
      · simp only [List.mem_cons, List.not_mem_nil, or_false] at hb
        rcases hb with rfl | rfl | rfl | rfl
        · exact hbyte (by decide) (by decide) (by decide) _
        · exact hlast _
        · exact hlast _
        · exact hlast _

theorem utf8Chars?_utf8EncodeChar (c : Char) (rest : Bytes) :
    utf8Chars? (String.utf8EncodeChar c ++ rest) = (utf8Chars? rest).map (c :: ·) := by
  -- That a character is no surrogate is needed for the form of three bytes only.
  have hvalid : c.toNat < 0xD800 ∨ 0xDFFF < c.toNat ∧ c.toNat < 0x110000 := c.valid
  have hchar : Char.ofNat c.toNat = c := Char.ofNat_toNat c
  generalize hn : c.toNat = n at hvalid hchar
  unfold String.utf8EncodeChar
  simp only [show c.val.toNat = n from hn]
  by_cases hone : n ≤ 0x7F
  · have ha : (UInt8.ofNat n).toNat = n := toNat_byte (by omega)
    rw [if_pos hone, List.singleton_append, utf8Chars?_one ha hone, hchar]
  · have hbyte (m k : Nat) (hk : 0 < k) (h : m + k ≤ 256) (x : Nat) :
        (UInt8.ofNat (x % k + m)).toNat = x % k + m := by
      have hlt := Nat.mod_lt x hk
      exact toNat_byte (by omega)
    have hlast := hbyte 0x80 0x40 (by decide) (by decide)
    rw [if_neg hone]
    by_cases htwo : n ≤ 0x7FF
    · have ha := hbyte 0xC0 0x20 (by decide) (by decide) (n / 64)
      rw [if_pos htwo, List.cons_append, List.singleton_append,
        utf8Chars?_two ha (hlast n) (by omega) htwo, hchar]
    · rw [if_neg htwo]
      by_cases hthree : n ≤ 0xFFFF
      · have ha := hbyte 0xE0 0x10 (by decide) (by decide) (n / 4096)
        rw [if_pos hthree, List.cons_append, List.cons_append, List.singleton_append,
          utf8Chars?_three ha (hlast _) (hlast n) (by omega) hthree (by omega), hchar]
      · have ha := hbyte 0xF0 0x08 (by decide) (by decide) (n / 262144)
        rw [if_neg hthree, List.cons_append, List.cons_append, List.cons_append,
          List.singleton_append, utf8Chars?_four ha (hlast _) (hlast _) (hlast n) (by omega)
            (by omega), hchar]

theorem mem_utf8EncodeChar (c : Char) (h : c.toNat < 0x80) :
    UInt8.ofNat c.toNat ∈ String.utf8EncodeChar c := by
  have hone : c.val.toNat ≤ 0x7F := Nat.le_of_lt_succ h
  unfold String.utf8EncodeChar
  rw [if_pos hone]
  exact List.mem_singleton_self _

theorem mem_of_utf8Chars? {bytes : Bytes} {cs : List Char} {b : UInt8}
    (h : utf8Chars? bytes = some cs) (hb : b ∈ bytes) (hascii : b < 0x80) :
    Char.ofNat b.toNat ∈ cs := by
  have hlead {a : UInt8} (ha : ¬ a < 0x80) : b ≠ a := by
    rintro rfl
    exact ha hascii
  have hmore {a : UInt8} (ha : isContinuation a = true) : b ≠ a := by
    apply hlead
    have hle : 0x80 ≤ a ∧ a ≤ 0xBF := by simpa [isContinuation] using ha
    exact UInt8.not_lt.mpr hle.1
  fun_induction utf8Chars? bytes generalizing cs with
  | case1 => cases hb
  | case2 a rest ha ih =>
    obtain ⟨cs, hcs, rfl⟩ := Option.map_eq_some_iff.mp h
    rcases List.mem_cons.mp hb with rfl | hb
    · exact List.mem_cons_self
    · exact List.mem_cons_of_mem _ (ih hcs hb)
  | case4 a ha d rest htwo ih =>
    obtain ⟨cs, hcs, rfl⟩ := Option.map_eq_some_iff.mp h
    have hb : b ∈ rest := by simpa [hlead ha, hmore htwo.2.2] using hb
    exact List.mem_cons_of_mem _ (ih hcs hb)
  | case6 a ha d _ e rest hthree ih =>
    obtain ⟨cs, hcs, rfl⟩ := Option.map_eq_some_iff.mp h
    have hb : b ∈ rest := by
      simpa [hlead ha, hmore hthree.2.2.1, hmore hthree.2.2.2.1] using hb
    exact List.mem_cons_of_mem _ (ih hcs hb)
  | case8 a ha d _ e _ f rest hfour ih =>
    obtain ⟨cs, hcs, rfl⟩ := Option.map_eq_some_iff.mp h
    have hb : b ∈ rest := by
      simpa [hlead ha, hmore hfour.2.2.1, hmore hfour.2.2.2.1, hmore hfour.2.2.2.2.1] using hb
    exact List.mem_cons_of_mem _ (ih hcs hb)
  | case3 | case5 | case7 | case9 => cases h

theorem utf8Chars?_flatMap (cs : List Char) :
    utf8Chars? (cs.flatMap String.utf8EncodeChar) = some cs := by
  induction cs with
  | nil => rfl
  | cons c cs ih => rw [List.flatMap_cons, utf8Chars?_utf8EncodeChar, ih, Option.map_some]

theorem flatMap_utf8EncodeChar_inj {cs ds : List Char}
    (h : cs.flatMap String.utf8EncodeChar = ds.flatMap String.utf8EncodeChar) : cs = ds := by
  have hread := congrArg utf8Chars? h
  rw [utf8Chars?_flatMap, utf8Chars?_flatMap] at hread
  exact Option.some.inj hread

theorem ofUtf8?_utf8 (s : String) : ofUtf8? (utf8 s) = some s := by
  rw [ofUtf8?, utf8, utf8Chars?_flatMap, Option.map_some, String.ofList_toList]

end StockGate.Text
