import StockGate.Proofs.Url.Path

namespace StockGate.Url

open Text

variable {set : EncodeSet} {c : Char} {cs seg scheme : Chars} {segs parts : List Chars}

/-- Characters that would end a segment, or the path, and those that are not ASCII. -/
def isStray (c : Char) : Bool :=
  c = '/' || c = '\\' || c = '?' || c = '#' || 0x80 ≤ c.toNat

def Clean (seg : Chars) : Prop :=
  ∀ c ∈ seg, isStray c = false

theorem clean_nil : Clean [] :=
  List.forall_mem_nil _

theorem clean_encode (h : ∀ c ∈ cs, isStray c = true → set.escapes c = true) :
    Clean (encode set cs) := by
  have hmarks : escapeMarks.all (!isStray ·) = true := by decide
  intro c hc
  rcases mem_encode hc with ⟨hmem, hescapes⟩ | hmark
  · apply Bool.eq_false_iff.mpr
    intro hstray
    rw [h c hmem hstray] at hescapes
    cases hescapes
  · simpa using List.all_eq_true.mp hmarks c hmark

theorem escapes_of_not_ascii (h : 0x80 ≤ c.toNat) : set.escapes c = true := by
  simp [EncodeSet.escapes, h]

theorem clean_encode_segment (hspecial : isSpecial scheme = true) (cs : Chars) :
    Clean (encode (segmentSet scheme) cs) := by
  apply clean_encode
  intro c _ hstray
  rw [segmentSet, if_pos hspecial]
  simp only [isStray, Bool.or_eq_true, decide_eq_true_eq] at hstray
  rcases hstray with (((rfl | rfl) | rfl) | rfl) | hascii
  · decide
  · decide
  · decide
  · decide
  · exact escapes_of_not_ascii hascii

theorem mem_of_mem_stepUp (h : seg ∈ stepUp segs) : seg ∈ segs := by
  unfold stepUp at h
  split at h
  · split at h
    · exact h
    · exact List.dropLast_subset _ h
  · cases h

theorem forall_addSegment {P : Chars → Prop} (hsegs : ∀ s ∈ segs, P s) (hnil : P []) (hseg : P seg)
    (last : Bool) : ∀ s ∈ addSegment false segs seg last, P s := by
  have hconcat {before : List Chars} {new : Chars} (hbefore : ∀ s ∈ before, P s) (hnew : P new) :
      ∀ s ∈ before ++ [new], P s := by
    intro s hs
    rcases List.mem_append.mp hs with hs | hs
    · exact hbefore s hs
    · exact List.mem_singleton.mp hs ▸ hnew
  have hup : ∀ s ∈ stepUp segs, P s := fun s hs => hsegs s (mem_of_mem_stepUp hs)
  unfold addSegment
  split
  · cases last
    · exact hsegs
    · exact hconcat hsegs hnil
  · cases last
    · exact hup
    · exact hconcat hup hnil
  · simpa using hconcat hsegs hseg

theorem clean_withoutRoot (h : ∀ s ∈ segs, Clean s) : ∀ s ∈ withoutRoot segs, Clean s := by
  unfold withoutRoot
  split
  · exact List.forall_mem_nil _
  · exact h

theorem clean_pushSegment (hfile : isFile scheme = false) (hspecial : isSpecial scheme = true)
    (h : ∀ s ∈ segs, Clean s) (seg : Chars) : ∀ s ∈ pushSegment scheme segs seg, Clean s := by
  by_cases hstep : IsStep seg
  · rw [pushSegment_of_step hstep]
    exact h
  · rw [pushSegment_of_not_step hstep, hfile]
    exact forall_addSegment (clean_withoutRoot h) clean_nil (clean_encode_segment hspecial _) true

theorem clean_foldl_pushSegment (hfile : isFile scheme = false) (hspecial : isSpecial scheme = true)
    (h : ∀ s ∈ segs, Clean s) (parts : List Chars) :
    ∀ s ∈ parts.foldl (pushSegment scheme) segs, Clean s := by
  induction parts generalizing segs with
  | nil => exact h
  | cons part parts ih => exact ih (clean_pushSegment hfile hspecial h part)

theorem clean_popIfEmpty (h : ∀ s ∈ segs, Clean s) : ∀ s ∈ popIfEmpty segs, Clean s := by
  unfold popIfEmpty
  split
  · exact fun s hs => h s (List.dropLast_subset _ hs)
  · exact h

theorem clean_addSegments (hsegs : ∀ s ∈ segs, Clean s) (hparts : ∀ s ∈ parts, Clean s) :
    ∀ s ∈ addSegments false segs parts, Clean s := by
  fun_induction addSegments false segs parts with
  | case1 => exact hsegs
  | case2 segs seg =>
    exact forall_addSegment hsegs clean_nil (hparts seg List.mem_cons_self) true
  | case3 segs seg rest _ ih =>
    obtain ⟨hseg, hrest⟩ := List.forall_mem_cons.mp hparts
    exact ih (forall_addSegment hsegs clean_nil hseg false) hrest

theorem clean_encode_path (h : ∀ c ∈ cs, c ≠ '/' ∧ c ≠ '\\') :
    Clean (encode EncodeSet.path cs) := by
  apply clean_encode
  intro c hc hstray
  simp only [isStray, Bool.or_eq_true, decide_eq_true_eq] at hstray
  rcases hstray with (((rfl | rfl) | rfl) | rfl) | hascii
  · exact absurd rfl (h _ hc).1
  · exact absurd rfl (h _ hc).2
  · decide
  · decide
  · exact escapes_of_not_ascii hascii

theorem clean_readSegments (cs : Chars) : ∀ s ∈ readSegments true false cs, Clean s := by
  -- In a special URL slashes of both kinds separate segments.
  apply clean_addSegments (List.forall_mem_nil _)
  intro s hs
  obtain ⟨part, hpart, rfl⟩ := List.mem_map.mp hs
  apply clean_encode_path
  intro c hc
  simpa using not_of_mem_splitWhere hpart c hc

end StockGate.Url
