import StockGate.Proofs.Text.Split
import StockGate.Proofs.Text.Utf8
import StockGate.Proofs.Url.Encode
import StockGate.Url.Path

namespace StockGate.Url

open Text

variable {set : EncodeSet} {c : Char} {cs seg scheme : Chars} {segs parts : List Chars}

theorem dots_cons_of_ne (h : c ≠ '.') (hpercent : c ≠ '%') : dots (c :: cs) = none := by
  rw [dots.eq_def]
  split
  · next he => exact absurd (List.cons.inj he).1 h
  · next he => exact absurd (List.cons.inj he).1 hpercent
  · next he => cases he
  · rfl

theorem dots_escapeByte {b : UInt8} (h : b.toNat ≠ 0x2E) : dots (escapeByte b ++ cs) = none := by
  obtain ⟨high, low, hvalue, he⟩ := escapeByte_eq b
  rw [he, List.cons_append, List.cons_append, List.cons_append, List.nil_append, dots.eq_def]
  split
  · next heq => exact absurd (List.cons.inj heq).1 (by decide)
  · next e rest heq =>
    obtain ⟨-, heq⟩ := List.cons.inj heq
    obtain ⟨hhigh, heq⟩ := List.cons.inj heq
    obtain ⟨hlow, -⟩ := List.cons.inj heq
    have htwo : ∀ d : Fin 16, hexDigitUpper d = '2' → d.val = 2 := by decide
    have hfourteen : ∀ d : Fin 16, hexDigitUpper d = 'e' ∨ hexDigitUpper d = 'E' → d.val = 14 := by
      decide
    apply if_neg
    intro hdot
    have h₁ := htwo high hhigh
    have h₂ := hfourteen low (hlow ▸ hdot)
    omega
  · next heq => cases heq
  · rfl

theorem eq_replicate_of_dots {k : Nat} (hpercent : '%' ∈ set) (hdot : set.escapes '.' = false)
    (h : dots (encode set cs) = some k) : cs = List.replicate k '.' := by
  induction cs generalizing k with
  | nil =>
    obtain rfl : 0 = k := Option.some.inj h
    rfl
  | cons c cs ih =>
    rw [encode, List.flatMap_cons, encodeChar] at h
    by_cases hc : c = '.'
    · rw [hc, if_neg (by rw [hdot]; decide), List.singleton_append, dots] at h
      obtain ⟨j, hj, rfl⟩ := Option.map_eq_some_iff.mp h
      rw [hc, ih hj, List.replicate_succ]
    · by_cases he : set.escapes c = true
      · rw [if_pos he] at h
        have hlength : 0 < (String.utf8EncodeChar c).length := by
          rw [String.length_utf8EncodeChar]
          exact c.utf8Size_pos
        obtain ⟨b, bytes, hbytes⟩ := List.exists_cons_of_length_pos hlength
        have hb : b.toNat ≠ 0x2E := by
          have hnat : c.toNat ≠ 0x2E := fun h => hc (Char.toNat_inj.mp h)
          have := utf8EncodeChar_bytes c b (hbytes ▸ List.mem_cons_self)
          omega
        rw [hbytes, List.flatMap_cons, List.append_assoc, dots_escapeByte hb] at h
        cases h
      · have hne : c ≠ '%' := by
          rintro rfl
          exact he (escapes_of_mem hpercent)
        rw [if_neg he, List.singleton_append, dots_cons_of_ne hc hne] at h
        cases h

/-- The empty segment of a bare root is no segment to add others to. -/
def withoutRoot (segs : List Chars) : List Chars :=
  if segs = [[]] then [] else segs

/-- Tabs and line ends are what a segment loses. -/
def withoutBreaks (seg : Chars) : Chars :=
  seg.filter (!isTabOrNewline ·)

/-- What a text is written as when it becomes a segment. -/
def segmentSet (scheme : Chars) : EncodeSet :=
  if isSpecial scheme then EncodeSet.specialSegment else EncodeSet.segment

theorem percent_mem_segmentSet (scheme : Chars) : '%' ∈ segmentSet scheme := by
  unfold segmentSet
  split <;> decide

theorem not_escapes_dot (scheme : Chars) : (segmentSet scheme).escapes '.' = false := by
  unfold segmentSet
  split <;> decide

/-- Two texts add nothing to a path. -/
def IsStep (seg : Chars) : Prop :=
  seg = ['.'] ∨ seg = ['.', '.']

/-- A text that is a segment as it stands: it is no step and loses nothing. -/
def Whole (seg : Chars) : Prop :=
  withoutBreaks seg = seg ∧ ¬ IsStep seg

instance : DecidablePred IsStep :=
  fun _ => inferInstanceAs (Decidable (_ ∨ _))

instance : DecidablePred Whole :=
  fun _ => inferInstanceAs (Decidable (_ ∧ _))

theorem pushSegment_of_step (h : IsStep seg) : pushSegment scheme segs seg = segs :=
  if_pos h

theorem pushSegment_of_not_step (h : ¬ IsStep seg) :
    pushSegment scheme segs seg = addSegment (isFile scheme) (withoutRoot segs)
      (encode (segmentSet scheme) (withoutBreaks seg)) true :=
  if_neg h

theorem addSegment_encode (segs : List Chars) (cs : Chars) :
    addSegment false segs (encode (segmentSet scheme) cs) true =
      if cs = ['.'] then segs ++ [[]]
      else if cs = ['.', '.'] then stepUp segs ++ [[]]
      else segs ++ [encode (segmentSet scheme) cs] := by
  have hdots := @eq_replicate_of_dots (segmentSet scheme) cs
  have hset := percent_mem_segmentSet scheme
  have hdot := not_escapes_dot scheme
  have hencoded : encodeChar (segmentSet scheme) '.' = ['.'] := by
    rw [encodeChar, hdot]
    rfl
  by_cases hone : cs = ['.']
  · rw [if_pos hone, hone, encode, List.flatMap_singleton, hencoded]
    rfl
  · by_cases htwo : cs = ['.', '.']
    · rw [if_neg hone, if_pos htwo, htwo, encode, List.flatMap_cons, List.flatMap_singleton,
        hencoded]
      rfl
    · rw [if_neg hone, if_neg htwo, addSegment]
      split
      · next h => exact absurd (hdots hset hdot h) hone
      · next h => exact absurd (hdots hset hdot h) htwo
      · simp

theorem pushSegment_of_whole (hfile : isFile scheme = false) (h : Whole seg) :
    pushSegment scheme segs seg = withoutRoot segs ++ [encode (segmentSet scheme) seg] := by
  have hone : seg ≠ ['.'] := fun he => h.2 (Or.inl he)
  have htwo : seg ≠ ['.', '.'] := fun he => h.2 (Or.inr he)
  rw [pushSegment_of_not_step h.2, hfile, h.1, addSegment_encode, if_neg hone, if_neg htwo]

theorem decode_encode_segment (scheme cs : Chars) :
    decode (encode (segmentSet scheme) cs) = cs.flatMap String.utf8EncodeChar :=
  decode_encode (percent_mem_segmentSet scheme) cs

theorem eq_nil_of_decode_nil (h : decode [] = seg.flatMap String.utf8EncodeChar) : seg = [] := by
  have hnil : ([] : Chars).flatMap String.utf8EncodeChar = seg.flatMap String.utf8EncodeChar := h
  exact (flatMap_utf8EncodeChar_inj hnil).symm

theorem not_stands_of_step {last : Chars} (h : IsStep seg) (hlast : last ≠ []) :
    pushSegment scheme segs seg ≠ withoutRoot segs ++ [last] := by
  intro hpush
  rw [pushSegment_of_step h, withoutRoot] at hpush
  split at hpush
  · next hroot =>
    rw [hroot] at hpush
    exact hlast (List.singleton_inj.mp hpush).symm
  · have hlength := congrArg List.length hpush
    rw [List.length_append, List.length_singleton] at hlength
    omega

/-- The texts that can be read back off a path are those that are segments as they stand. -/
theorem stands_iff_whole (hfile : isFile scheme = false) :
    (∃ last, pushSegment scheme segs seg = withoutRoot segs ++ [last] ∧
      decode last = seg.flatMap String.utf8EncodeChar) ↔ Whole seg := by
  constructor
  · rintro ⟨last, hpush, hdecode⟩
    by_cases hnil : seg = []
    · rw [hnil]
      decide
    have hlast : last ≠ [] := by
      rintro rfl
      exact hnil (eq_nil_of_decode_nil hdecode)
    have hstep : ¬ IsStep seg := fun hs => not_stands_of_step hs hlast hpush
    refine ⟨?_, hstep⟩
    rw [pushSegment_of_not_step hstep, hfile, addSegment_encode] at hpush
    split at hpush
    · exact absurd (List.append_inj' hpush rfl).2 (by simpa using hlast.symm)
    · split at hpush
      · exact absurd (List.append_inj' hpush rfl).2 (by simpa using hlast.symm)
      · have hencoded := List.singleton_inj.mp (List.append_cancel_left hpush)
        rw [← hencoded, decode_encode_segment] at hdecode
        exact flatMap_utf8EncodeChar_inj hdecode
  · intro h
    exact ⟨_, pushSegment_of_whole hfile h, decode_encode_segment scheme seg⟩

/-- The segments of a path without the empty one after a slash at its end. -/
def withoutTrailing (segs : List Chars) : List Chars :=
  if segs.getLast? = some [] then segs.dropLast else segs

theorem length_withoutRoot_le (segs : List Chars) : (withoutRoot segs).length ≤ segs.length := by
  unfold withoutRoot
  split
  · exact Nat.zero_le _
  · exact Nat.le_refl _

theorem length_stepUp_le (segs : List Chars) : (stepUp segs).length ≤ segs.length := by
  unfold stepUp
  split
  · split
    · exact Nat.le_refl _
    · rw [List.length_dropLast]
      omega
  · exact Nat.zero_le _

theorem length_pushSegment_le (hfile : isFile scheme = false) (segs : List Chars) (seg : Chars) :
    (pushSegment scheme segs seg).length ≤ (withoutRoot segs).length + 1 := by
  by_cases hstep : IsStep seg
  · rw [pushSegment_of_step hstep, withoutRoot]
    split
    · next hroot => simp [hroot]
    · omega
  · rw [pushSegment_of_not_step hstep, hfile, addSegment_encode]
    have hup := length_stepUp_le (withoutRoot segs)
    split
    · simp
    · split
      · rw [List.length_append, List.length_singleton]
        omega
      · simp

theorem length_foldl_pushSegment_le (hfile : isFile scheme = false) (segs : List Chars)
    (h : parts ≠ []) :
    (parts.foldl (pushSegment scheme) segs).length ≤ (withoutRoot segs).length + parts.length := by
  induction parts generalizing segs with
  | nil => exact absurd rfl h
  | cons part parts ih =>
    have hpush := length_pushSegment_le hfile segs part
    have hroot := length_withoutRoot_le (pushSegment scheme segs part)
    rw [List.foldl_cons, List.length_cons]
    by_cases hparts : parts = []
    · rw [hparts, List.foldl_nil, List.length_nil]
      omega
    · have hrest := ih (pushSegment scheme segs part) hparts
      omega

theorem withoutRoot_popIfEmpty (h : segs ≠ [[], []]) :
    withoutRoot (popIfEmpty segs) = withoutTrailing segs := by
  unfold popIfEmpty withoutTrailing
  by_cases hlast : segs.getLast? = some []
  · obtain ⟨before, rfl⟩ := List.getLast?_eq_some_iff.mp hlast
    rw [if_pos hlast, List.dropLast_concat]
    by_cases hbefore : before = []
    · rw [hbefore]
      rfl
    · have hlength := List.length_pos_iff.mpr hbefore
      have htwo : 2 ≤ (before ++ [[]]).length := by
        rw [List.length_append, List.length_singleton]
        omega
      rw [if_pos ⟨htwo, hlast⟩, withoutRoot, if_neg]
      rintro rfl
      exact h rfl
  · have hroot : segs ≠ [[]] := by
      rintro rfl
      exact hlast rfl
    rw [if_neg hlast, if_neg (fun hboth => hlast hboth.2), withoutRoot, if_neg hroot]

theorem length_withoutRoot_popIfEmpty_le (segs : List Chars) :
    (withoutRoot (popIfEmpty segs)).length ≤ (withoutTrailing segs).length := by
  by_cases h : segs = [[], []]
  · rw [h]
    decide
  · exact Nat.le_of_eq (congrArg _ (withoutRoot_popIfEmpty h))

theorem encode_segment_ne_nil (h : seg ≠ []) : encode (segmentSet scheme) seg ≠ [] := by
  intro hnil
  have hdecode := decode_encode_segment scheme seg
  rw [hnil] at hdecode
  exact h (eq_nil_of_decode_nil hdecode)

theorem withoutRoot_concat (h : seg ≠ []) : withoutRoot (segs ++ [seg]) = segs ++ [seg] := by
  apply if_neg
  intro hroot
  have hlast := congrArg List.getLast? hroot
  rw [List.getLast?_concat] at hlast
  exact h (Option.some.inj hlast)

theorem withoutRoot_foldl_pushSegment (hfile : isFile scheme = false) (segs : List Chars)
    (h : ∀ part ∈ parts, withoutBreaks part = part ∧ part ≠ []) :
    withoutRoot (parts.foldl (pushSegment scheme) segs) =
      withoutRoot segs ++ (parts.filter (¬ IsStep ·)).map (encode (segmentSet scheme)) := by
  induction parts generalizing segs with
  | nil => simp
  | cons part parts ih =>
    obtain ⟨⟨hbreaks, hnil⟩, hparts⟩ := List.forall_mem_cons.mp h
    rw [List.foldl_cons, ih _ hparts]
    by_cases hstep : IsStep part
    · rw [pushSegment_of_step hstep, List.filter_cons_of_neg (by simpa using hstep)]
    · rw [pushSegment_of_whole hfile ⟨hbreaks, hstep⟩,
        withoutRoot_concat (encode_segment_ne_nil hnil),
        List.filter_cons_of_pos (by simpa using hstep), List.map_cons, List.append_assoc,
        List.singleton_append]

end StockGate.Url
