import Mathlib.Data.List.DropRight
import Mathlib.Data.List.Flatten
import StockGate.Proofs.Text.Utf8
import StockGate.Proofs.Url.Server
import StockGate.Proofs.Url.Stem

namespace StockGate.Url

open Text

variable {scheme cs seg ys blanks : Chars} {segs : List Chars} {c d : Char} {s : String}
  {x : Host × Option Nat}

/-- Blanks and controls, those that are read when they stand inside a URL. -/
def IsBlank (c : Char) : Prop :=
  isAround c = true ∧ isTabOrNewline c = false

namespace IsBlank

theorem ne (h : IsBlank c) (hd : isAround d = false) : c ≠ d := by
  rintro rfl
  exact absurd (h.1.symm.trans hd) nofun

theorem not_mem (h : ∀ c ∈ blanks, IsBlank c) (hd : isAround d = false) : d ∉ blanks :=
  fun hmem => (h d hmem).ne hd rfl

theorem lookup (h : IsBlank c) {p : Char → Bool}
    (hall : ∀ n : Fin 33, p (Char.ofNat n) = true) : p c = true := by
  -- Blanks and controls are few, so whoever uses this can look at each.
  have hlt : c.toNat < 33 := Nat.lt_succ_of_le (of_decide_eq_true h.1)
  have hc := hall ⟨c.toNat, hlt⟩
  rwa [Char.ofNat_toNat] at hc

theorem inside (h : IsBlank c) : endsAuthority true c = false := by
  simpa using h.lookup (p := (!endsAuthority true ·)) (by decide)

theorem not_decimal (h : IsBlank c) : isDecimal c = false := by
  simpa using h.lookup (p := (!isDecimal ·)) (by decide)

theorem not_slash (h : IsBlank c) : isSlash c = false := by
  simpa using h.lookup (p := (!isSlash ·)) (by decide)

theorem not_mark (h : IsBlank c) : endsPath c = false := by
  simpa using h.lookup (p := (!endsPath ·)) (by decide)

theorem not_hex (h : IsBlank c) : hexValue? c = none := by
  simpa using h.lookup (p := fun c => (hexValue? c).isNone) (by decide)

theorem not_mapped (h : IsBlank c) : Domain.mapChar? c = none := by
  simpa using h.lookup (p := fun c => (Domain.mapChar? c).isNone) (by decide)

end IsBlank

/-- What is read of a text that something else follows. -/
def opening (cs : Chars) : Chars :=
  (cs.dropWhile isAround).filter (!isTabOrNewline ·)

/-- The blanks at the end of a text that are read as soon as something follows them. -/
def blanksAfter (s : String) : Chars :=
  ((s.toList.dropWhile isAround).rtakeWhile isAround).filter (!isTabOrNewline ·)

theorem isBlank_of_mem (h : c ∈ blanksAfter s) : IsBlank c := by
  obtain ⟨hmem, hbreak⟩ := List.mem_filter.mp h
  exact ⟨List.mem_rtakeWhile_imp hmem, by simpa using hbreak⟩

theorem opening_eq (s : String) : opening s.toList = cleaned s ++ blanksAfter s := by
  have hcut := List.rdropWhile_append_rtakeWhile (p := isAround) (l := s.toList.dropWhile isAround)
  rw [opening, ← hcut, List.filter_append]
  rfl

theorem dropWhile_append_of_head (hys : ∀ c ∈ ys, isAround c = false) (cs : Chars) :
    (cs ++ ys).dropWhile isAround = cs.dropWhile isAround ++ ys := by
  have hhead : ys.dropWhile isAround = ys := by
    cases ys with
    | nil => rfl
    | cons c ys => exact List.dropWhile_cons_of_neg (by simp [hys c List.mem_cons_self])
  rw [List.dropWhile_append, hhead]
  split
  · next hnil => rw [List.isEmpty_iff.mp hnil, List.nil_append]
  · rfl

theorem opening_append (hys : ∀ c ∈ ys, isAround c = false) (cs : Chars) :
    opening (cs ++ ys) = opening cs ++ ys := by
  have hkept : ys.filter (!isTabOrNewline ·) = ys := by
    apply List.filter_eq_self.mpr
    intro c hc
    have haround := hys c hc
    cases hbreak : isTabOrNewline c with
    | false => rfl
    | true =>
      simp only [isTabOrNewline, Bool.or_eq_true, decide_eq_true_eq] at hbreak
      rcases hbreak with (rfl | rfl) | rfl <;> exact absurd haround (by decide)
  rw [opening, dropWhile_append_of_head hys, List.filter_append, hkept]
  rfl

theorem cleaned_append (hys : ∀ c ∈ ys, isAround c = false) (hne : ys ≠ []) (cs : Chars) :
    cleaned (String.ofList (cs ++ ys)) = opening cs ++ ys := by
  have hend : (cs.dropWhile isAround ++ ys).rdropWhile isAround =
      cs.dropWhile isAround ++ ys := by
    apply List.rdropWhile_eq_self_iff.mpr
    intro _
    rw [List.getLast_append_of_ne_nil _ hne]
    exact Bool.eq_false_iff.mp (hys _ (List.getLast_mem hne))
  calc cleaned (String.ofList (cs ++ ys))
    _ = (((cs ++ ys).dropWhile isAround).rdropWhile isAround).filter (!isTabOrNewline ·) := by
      rw [cleaned, String.toList_ofList]
      rfl
    _ = opening (cs ++ ys) := by rw [opening, dropWhile_append_of_head hys, hend]
    _ = opening cs ++ ys := opening_append hys cs

theorem mem_decode (h : c ∈ cs) (hascii : c.toNat < 0x80) (hhex : hexValue? c = none)
    (hpercent : c ≠ '%') : UInt8.ofNat c.toNat ∈ decode cs := by
  have hne {a : Char} {x : Nat} (ha : hexValue? a = some x) : c ≠ a := by
    rintro rfl
    exact absurd (hhex.symm.trans ha) nofun
  fun_induction decode cs with
  | case1 => cases h
  | case2 a b rest x y ha hb ih =>
    have hmem : c ∈ rest := by simpa [hpercent, hne ha, hne hb] using h
    exact List.mem_cons_of_mem _ (ih hmem)
  | case3 a b rest _ ih =>
    have hmem : c ∈ a :: b :: rest := List.mem_of_ne_of_mem hpercent h
    exact List.mem_append_right _ (ih hmem)
  | case4 d rest _ ih =>
    rcases List.mem_cons.mp h with rfl | hmem
    · exact List.mem_append_left _ (mem_utf8EncodeChar c hascii)
    · exact List.mem_append_right _ (ih hmem)

theorem mapM_eq_none {α β : Type} {f : α → Option β} {xs : List α} {a : α} (ha : a ∈ xs)
    (hf : f a = none) : xs.mapM f = none := by
  induction xs with
  | nil => cases ha
  | cons y xs ih =>
    rw [List.mapM_cons]
    rcases List.mem_cons.mp ha with rfl | ha
    · rw [hf]
      rfl
    · rw [ih ha]
      cases f y <;> rfl

theorem toAscii?_eq_none (h : IsBlank c) (hc : c ∈ cs) : Domain.toAscii? (decode cs) = none := by
  have hascii : c.toNat < 0x80 := Nat.lt_of_le_of_lt (of_decide_eq_true h.1) (by decide)
  have hbyte : (UInt8.ofNat c.toNat).toNat = c.toNat := toNat_byte (by omega)
  have hmem := mem_decode hc hascii h.not_hex (h.ne (by decide))
  unfold Domain.toAscii?
  cases hcs : utf8Chars? (decode cs) with
  | none => rfl
  | some chars =>
    have hlt : UInt8.ofNat c.toNat < 0x80 := UInt8.lt_iff_toNat_lt.mpr (hbyte.symm ▸ hascii)
    have hchar := mem_of_utf8Chars? hcs hmem hlt
    rw [hbyte, Char.ofNat_toNat] at hchar
    have hnone : chars.mapM Domain.mapChar? = none := mapM_eq_none hchar h.not_mapped
    simp only [Option.bind_eq_bind, Option.bind_some, hnone, Option.bind_none]

theorem specialHost_of_blanks (hcs : cs ≠ []) (hne : blanks ≠ []) (h : ∀ c ∈ blanks, IsBlank c) :
    ∃ e, specialHost (cs ++ blanks) = .error e := by
  obtain ⟨c, hc⟩ := List.exists_mem_of_ne_nil blanks hne
  unfold specialHost
  split
  · next rest hrest =>
    obtain ⟨d, cs, rfl⟩ := List.exists_cons_of_ne_nil hcs
    obtain ⟨-, rfl⟩ := List.cons.inj hrest
    refine ⟨.ipv6, if_pos fun hlast => ?_⟩
    change (cs ++ blanks).getLast? = some ']' at hlast
    rw [List.getLast?_append, List.getLast?_eq_some_getLast hne, Option.some_or] at hlast
    exact IsBlank.not_mem h (by decide) (Option.some.inj hlast ▸ List.getLast_mem hne)
  · rw [toAscii?_eq_none (h c hc) (List.mem_append_right _ hc)]
    exact ⟨_, rfl⟩

theorem port?_of_mem (h : ∀ c ∈ cs, endsAuthority true c = false) (hc : c ∈ cs)
    (hdecimal : isDecimal c = false) : port? scheme cs = .error .port := by
  have hcut := List.takeWhile_append_dropWhile (p := isDecimal) (l := cs)
  have hds := List.all_eq_true.mp (List.all_takeWhile (p := isDecimal) (l := cs))
  unfold port?
  generalize cs.takeWhile isDecimal = ds at hcut hds
  generalize cs.dropWhile isDecimal = more at hcut
  subst hcut
  cases more with
  | nil =>
    rw [List.append_nil] at hc
    exact absurd (hdecimal.symm.trans (hds c hc)) nofun
  | cons d more =>
    have hinside : endsAuthority true d = false :=
      h d (List.mem_append_right _ List.mem_cons_self)
    simp only [List.drop_left, List.head?_cons, Option.any_some, hinside]
    split <;> rfl

theorem hostAndPort?_of_blanks (hcs : ∀ c ∈ cs, endsAuthority true c = false)
    (hok : hostAndPort? scheme cs = .ok x) (hne : blanks ≠ []) (h : ∀ c ∈ blanks, IsBlank c) :
    ∃ e, hostAndPort? scheme (cs ++ blanks) = .error e := by
  have hlength := hostLength_append (IsBlank.not_mem h (by decide)) false cs
  have hle := hostLength_le false cs
  unfold hostAndPort? at hok ⊢
  simp only [hlength]
  by_cases hall : hostLength false cs = cs.length
  · have hnil : cs ≠ [] := by
      rintro rfl
      cases hok
    obtain ⟨e, he⟩ := specialHost_of_blanks hnil hne h
    rw [if_pos hall, ← List.length_append, List.take_length, if_neg (by simp [hnil]), he]
    exact ⟨e, rfl⟩
  · obtain ⟨digits, hdrop⟩ : ∃ digits, cs.drop (hostLength false cs) = ':' :: digits := by
      rcases drop_hostLength false cs with hdrop | hdrop
      · have := List.drop_eq_nil_iff.mp hdrop
        omega
      · exact hdrop
    have hname : cs.take (hostLength false cs) ≠ [] := by
      intro hnil
      rw [if_pos hnil] at hok
      cases hok
    obtain ⟨c, hc⟩ := List.exists_mem_of_ne_nil blanks hne
    have hdigits : ∀ c ∈ digits, endsAuthority true c = false := fun c hc =>
      hcs c (List.mem_of_mem_drop (hdrop ▸ List.mem_cons_of_mem _ hc))
    have hport : port? scheme (digits ++ blanks) = .error .port :=
      port?_of_mem (List.forall_mem_append.mpr ⟨hdigits, fun c hc => (h c hc).inside⟩)
        (List.mem_append_right _ hc) (h c hc).not_decimal
    rw [if_neg hall, List.take_append_of_le_length hle, List.drop_append_of_le_length hle, hdrop,
      if_neg hname, List.cons_append]
    cases specialHost (cs.take (hostLength false cs)) with
    | error e => exact ⟨e, rfl⟩
    | ok host =>
      change ∃ e, (port? scheme (digits ++ blanks) >>= _) = _
      rw [hport]
      exact ⟨_, rfl⟩

theorem dots_eq_none (hc : c ∈ seg) (hno : c ∉ ".%2eE".toList) : dots seg = none := by
  have hmarks : c ≠ '.' ∧ c ≠ '%' ∧ c ≠ '2' ∧ c ≠ 'e' ∧ c ≠ 'E' := by simpa using hno
  fun_induction dots seg with
  | case1 rest ih =>
    have hmem : c ∈ rest := by simpa [hmarks] using hc
    rw [ih hmem, Option.map_none]
  | case2 e rest he ih =>
    have hmem : c ∈ rest := by
      rcases he with rfl | rfl <;> simpa [hmarks] using hc
    rw [ih hmem, Option.map_none]
  | case3 => rfl
  | case4 => cases hc
  | case5 => rfl

theorem exists_mem_encodeChar (h : isAround c = true) :
    ∃ d ∈ encodeChar EncodeSet.path c, d ∉ ".%2eE".toList := by
  -- The escape of a blank has a digit that no dot has.
  have hall : ∀ n : Fin 33, (encodeChar EncodeSet.path (Char.ofNat n)).any
      (fun d => !".%2eE".toList.contains d) = true := by
    decide +kernel
  have hlt : c.toNat < 33 := Nat.lt_succ_of_le (of_decide_eq_true h)
  have hchar := hall ⟨c.toNat, hlt⟩
  rw [Char.ofNat_toNat, List.any_eq_true] at hchar
  simpa using hchar

theorem exists_mem_encode {blanks : Chars} (hne : blanks ≠ []) (h : ∀ c ∈ blanks, IsBlank c) :
    ∃ d ∈ encode EncodeSet.path blanks, d ∉ ".%2eE".toList := by
  obtain ⟨c, blanks, rfl⟩ := List.exists_cons_of_ne_nil hne
  obtain ⟨d, hd, hno⟩ := exists_mem_encodeChar (h c List.mem_cons_self).1
  exact ⟨d, List.mem_flatMap.mpr ⟨c, List.mem_cons_self, hd⟩, hno⟩

theorem length_print_addSegment_le (segs : List Chars) (seg : Chars) :
    (Path.segments (addSegment false segs seg false)).print.length ≤
      (Path.segments segs).print.length + (seg.length + 1) := by
  have hup : (Path.segments (stepUp segs)).print.length ≤ (Path.segments segs).print.length := by
    unfold stepUp
    split
    · split
      · exact Nat.le_refl _
      · exact ((List.dropLast_sublist segs).flatMap _).length_le
    · exact Nat.zero_le _
  unfold addSegment
  split
  · exact Nat.le_add_right _ _
  · exact Nat.le_trans hup (Nat.le_add_right _ _)
  · simp [Path.print]

/-- Blanks that become part of the path make it longer, and are no part of a step. -/
theorem length_print_stem_lt {blanks : Chars} (hcs : cs ≠ []) (hne : blanks ≠ [])
    (h : ∀ c ∈ blanks, IsBlank c) :
    (Path.segments (stem cs)).print.length < (Path.segments (stem (cs ++ blanks))).print.length := by
  obtain ⟨before, part, hsplit⟩ := exists_splitWhere_append isSlash (withoutSlash cs)
  have hblanks := hsplit blanks fun c hc => (h c hc).not_slash
  have hplain := hsplit [] (List.forall_mem_nil _)
  rw [List.append_nil, List.append_nil] at hplain
  rw [stem, if_neg hcs, stem, if_neg (List.append_ne_nil_of_left_ne_nil hcs _),
    withoutSlash_append hcs, written, written, hblanks, hplain, List.map_append, List.map_append,
    List.map_singleton, List.map_singleton, List.foldl_append, List.foldl_append, List.foldl_cons,
    List.foldl_nil, List.foldl_cons, List.foldl_nil]
  generalize (before.map (encode EncodeSet.path)).foldl (addSegment false · · false) [] = segs
  obtain ⟨d, hd, hno⟩ := exists_mem_encode hne h
  have hencode : encode EncodeSet.path (part ++ blanks) =
      encode EncodeSet.path part ++ encode EncodeSet.path blanks := List.flatMap_append
  have hdots : dots (encode EncodeSet.path (part ++ blanks)) = none :=
    dots_eq_none (hencode ▸ List.mem_append_right _ hd) hno
  have hle := length_print_addSegment_le segs (encode EncodeSet.path part)
  have hpos := List.length_pos_of_mem hd
  rw [addSegment_of_dots (.inl hdots), hencode]
  simp only [Path.print, List.flatMap_append, List.length_append, List.flatMap_singleton,
    List.length_cons] at hle ⊢
  omega

end StockGate.Url
