import Mathlib.Data.List.TakeWhile
import StockGate.Proofs.Url.Parser

namespace StockGate.Url

open Text

variable {scheme cs seg : Chars} {segs parts : List Chars} {c : Char}

theorem addSegments_cons (file : Bool) (segs : List Chars) (seg : Chars) (h : parts ≠ []) :
    addSegments file segs (seg :: parts) =
      addSegments file (addSegment file segs seg false) parts := by
  cases parts with
  | nil => exact absurd rfl h
  | cons part parts => rfl

theorem addSegments_append (file : Bool) (segs before : List Chars) (h : parts ≠ []) :
    addSegments file segs (before ++ parts) =
      addSegments file (before.foldl (addSegment file · · false) segs) parts := by
  induction before generalizing segs with
  | nil => rfl
  | cons part before ih =>
    have hne : before ++ parts ≠ [] := List.append_ne_nil_of_right_ne_nil _ h
    rw [List.cons_append, addSegments_cons file segs part hne, ih, List.foldl_cons]

theorem addSegment_of_dots (h : dots seg = none ∨ dots seg = some 0) (segs : List Chars)
    (last : Bool) : addSegment false segs seg last = segs ++ [seg] := by
  rcases h with h | h <;> simp [addSegment, h]

theorem addSegment_last (segs : List Chars) (seg : Chars) :
    ∃ k, addSegment false segs seg true =
      addSegment false segs seg false ++ List.replicate k [] := by
  unfold addSegment
  split
  · exact ⟨1, rfl⟩
  · exact ⟨1, rfl⟩
  · exact ⟨0, (List.append_nil _).symm⟩

theorem addSegments_of_dots (h : ∀ seg ∈ parts, dots seg = none ∨ dots seg = some 0)
    (segs : List Chars) : addSegments false segs parts = segs ++ parts := by
  induction parts generalizing segs with
  | nil => exact (List.append_nil segs).symm
  | cons part parts ih =>
    obtain ⟨hpart, hparts⟩ := List.forall_mem_cons.mp h
    by_cases hnil : parts = []
    · rw [hnil]
      exact addSegment_of_dots hpart segs true
    · rw [addSegments_cons _ _ _ hnil, addSegment_of_dots hpart, ih hparts, List.append_assoc,
        List.singleton_append]

/-- The text of a path behind the slash that starts it. -/
def withoutSlash : Chars → Chars
  | [] => []
  | c :: rest => if isSlash c then rest else c :: rest

/-- The segments of a path as they are written. -/
def written (cs : Chars) : List Chars :=
  (splitWhere isSlash cs).map (encode EncodeSet.path)

/-- The segments of a path that stay when others follow. -/
def stem (cs : Chars) : List Chars :=
  if cs = [] then [] else (written (withoutSlash cs)).foldl (addSegment false · · false) []

theorem written_ne_nil (cs : Chars) : written cs ≠ [] :=
  fun h => splitWhere_ne_nil isSlash cs (List.map_eq_nil_iff.mp h)

theorem written_append_slash (cs after : Chars) :
    written (cs ++ '/' :: after) = written cs ++ written after := by
  rw [written, splitWhere_append_cons (by decide), List.map_append]
  rfl

theorem written_slashes (k : Nat) :
    written (List.replicate k '/') = List.replicate (k + 1) [] := by
  induction k with
  | zero => rfl
  | succ k ih =>
    rw [List.replicate_succ, ← List.nil_append ('/' :: _), written_append_slash, ih]
    rfl

theorem withoutSlash_append (h : cs ≠ []) (after : Chars) :
    withoutSlash (cs ++ after) = withoutSlash cs ++ after := by
  cases cs with
  | nil => exact absurd rfl h
  | cons c cs =>
    rw [List.cons_append, withoutSlash, withoutSlash]
    split <;> rfl

theorem readSegments_server (cs : Chars) :
    readSegments true false cs = addSegments false [] (written cs) := by
  have hslash : (fun c : Char => decide (c = '/' ∨ true = true ∧ c = '\\')) = isSlash := by
    funext c
    simp [isSlash]
  rw [readSegments, hslash]
  rfl

theorem rootedPath_server (h : IsServer scheme) (hcs : cs ≠ []) :
    rootedPath scheme cs = .segments (addSegments false [] (written (withoutSlash cs))) := by
  cases cs with
  | nil => exact absurd rfl hcs
  | cons c cs =>
    unfold rootedPath
    rw [h.isSpecial, h.isFile]
    simp only [readSegments_server, withoutSlash, isSlash, true_and, Bool.or_eq_true,
      decide_eq_true_eq]
    split <;> rfl

theorem rootedPath_append_slash (h : IsServer scheme) (cs after : Chars) :
    rootedPath scheme (cs ++ '/' :: after) =
      .segments (addSegments false (stem cs) (written after)) := by
  by_cases hcs : cs = []
  · rw [hcs, List.nil_append, rootedPath_server h (List.cons_ne_nil _ _)]
    rfl
  · rw [rootedPath_server h (List.append_ne_nil_of_left_ne_nil hcs _), withoutSlash_append hcs,
      written_append_slash, addSegments_append _ _ _ (written_ne_nil after), stem, if_neg hcs]

theorem rootedPath_append_of_dots (h : IsServer scheme) (after : Chars)
    (hdots : ∀ seg ∈ written after, dots seg = none ∨ dots seg = some 0) (cs : Chars) :
    rootedPath scheme (cs ++ '/' :: after) = .segments (stem cs ++ written after) := by
  rw [rootedPath_append_slash h, addSegments_of_dots hdots]

theorem rootedPath_stem (h : IsServer scheme) (cs : Chars) :
    ∃ k, rootedPath scheme cs = .segments (stem cs ++ List.replicate k []) := by
  by_cases hcs : cs = []
  · refine ⟨1, ?_⟩
    rw [hcs]
    simp [rootedPath, h.isSpecial, stem]
  · obtain ⟨before, seg, hwritten⟩ : ∃ before seg, written (withoutSlash cs) = before ++ [seg] :=
      ⟨_, _, (List.dropLast_concat_getLast (written_ne_nil _)).symm⟩
    obtain ⟨k, hk⟩ := addSegment_last (before.foldl (addSegment false · · false) []) seg
    refine ⟨k, ?_⟩
    rw [rootedPath_server h hcs, stem, if_neg hcs, hwritten,
      addSegments_append _ _ _ (List.cons_ne_nil _ _), List.foldl_append, addSegments, hk]
    rfl

theorem rootedPath_append_slashes (h : IsServer scheme) (cs : Chars) (k : Nat) :
    ∃ n, rootedPath scheme (cs ++ List.replicate k '/') =
      .segments (stem cs ++ List.replicate n []) := by
  cases k with
  | zero =>
    rw [List.replicate_zero, List.append_nil]
    exact rootedPath_stem h cs
  | succ k =>
    refine ⟨k + 1, ?_⟩
    rw [List.replicate_succ, rootedPath_append_of_dots h, written_slashes]
    intro seg hseg
    rw [written_slashes] at hseg
    rw [List.eq_of_mem_replicate hseg]
    exact Or.inr rfl

theorem clean_foldl_addSegment (hsegs : ∀ s ∈ segs, Clean s) (hparts : ∀ s ∈ parts, Clean s) :
    ∀ s ∈ parts.foldl (addSegment false · · false) segs, Clean s := by
  induction parts generalizing segs with
  | nil => exact hsegs
  | cons part parts ih =>
    obtain ⟨hpart, hparts⟩ := List.forall_mem_cons.mp hparts
    exact ih (forall_addSegment hsegs clean_nil hpart false) hparts

theorem clean_stem (cs : Chars) : ∀ s ∈ stem cs, Clean s := by
  unfold stem
  split
  · exact List.forall_mem_nil _
  · apply clean_foldl_addSegment (List.forall_mem_nil _)
    intro s hs
    obtain ⟨part, hpart, rfl⟩ := List.mem_map.mp hs
    apply clean_encode_path
    intro c hc
    simpa [isSlash] using not_of_mem_splitWhere hpart c hc

/-- Characters that start a query or a fragment. -/
def endsPath (c : Char) : Bool :=
  c = '?' || c = '#'

theorem takeWhile_endsPath (cs : Chars) :
    (cs.takeWhile fun c => c ≠ '?' ∧ c ≠ '#') = cs.takeWhile (!endsPath ·) := by
  congr 1
  funext c
  simp [endsPath]

theorem cutTail_path (cs : Chars) : (cutTail cs).1 = cs.takeWhile (!endsPath ·) := by
  unfold cutTail
  rw [takeWhile_endsPath]
  simp only
  split
  · split <;> rfl
  · rfl
  · rfl

theorem cutTail_of_plain (h : ∀ c ∈ cs, endsPath c = false) : cutTail cs = (cs, none, none) := by
  have hall : cs.takeWhile (!endsPath ·) = cs := by
    apply List.takeWhile_eq_self_iff.mpr
    simpa using h
  unfold cutTail
  rw [takeWhile_endsPath, hall]
  simp only [List.drop_length]

theorem length_takeWhile_ne (h : ∃ c ∈ cs, endsPath c = true) :
    (cs.takeWhile (!endsPath ·)).length ≠ cs.length := by
  obtain ⟨c, hc, hmark⟩ := h
  intro hlength
  have hall := (List.takeWhile_prefix (!endsPath ·) (l := cs)).eq_of_length hlength
  have hplain := List.takeWhile_eq_self_iff.mp hall c hc
  rw [hmark] at hplain
  cases hplain

theorem cutTail_of_mark (h : ∃ c ∈ cs, endsPath c = true) : (cutTail cs).2 ≠ (none, none) := by
  unfold cutTail
  rw [takeWhile_endsPath]
  simp only
  split
  · split <;> nofun
  · nofun
  · next hnil =>
    have hle := List.drop_eq_nil_iff.mp hnil
    have hge := (List.takeWhile_prefix (!endsPath ·) (l := cs)).length_le
    exact absurd (Nat.le_antisymm hge hle) (length_takeWhile_ne h)

theorem cutTail_append (h : ∃ c ∈ cs, endsPath c = true) (ys : Chars) :
    (cutTail (cs ++ ys)).1 = (cutTail cs).1 := by
  rw [cutTail_path, cutTail_path, List.takeWhile_append]
  exact if_neg (length_takeWhile_ne h)

theorem print_append (segs more : List Chars) :
    (Path.segments (segs ++ more)).print =
      (Path.segments segs).print ++ (Path.segments more).print :=
  List.flatMap_append

theorem print_nils (k : Nat) :
    (Path.segments (List.replicate k [])).print = List.replicate k '/' := by
  induction k with
  | zero => rfl
  | succ k ih =>
    rw [List.replicate_succ, ← List.singleton_append, print_append, ih]
    rfl

end StockGate.Url
