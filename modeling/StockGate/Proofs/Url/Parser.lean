import StockGate.Proofs.Url.Clean
import StockGate.Url.Parser

namespace StockGate.Url

/-- The path is a list of segments, to which more can be added. -/
def Rooted (u : Url) : Prop :=
  ∃ segs, u.path = .segments segs

variable {u : Url} {scheme cs : Chars} {s : String}

theorem eq_assemble_of_authority
    (h : (do let (a, rest) ← authority? scheme cs; return assemble scheme a rest) = .ok u) :
    ∃ a rest, u = assemble scheme a rest := by
  cases ha : authority? scheme cs with
  | error e => rw [ha] at h; cases h
  | ok x =>
    rw [ha] at h
    cases h
    exact ⟨_, _, rfl⟩

theorem parseFile_cases (h : parseFile cs = .ok u) :
    ∃ a rest, u = assemble "file".toList a rest ∨
      u = (assemble "file".toList a rest).dropDriveHost := by
  unfold parseFile at h
  split at h
  · next rest =>
    split at h
    · cases hh : fileHost? rest with
      | error e => rw [hh] at h; cases h
      | ok x =>
        rw [hh] at h
        cases h
        exact ⟨_, _, Or.inr rfl⟩
    · cases h
      exact ⟨_, _, Or.inl rfl⟩
  · cases h
    exact ⟨_, _, Or.inl rfl⟩

/-- A URL names a file, or has an authority, or its scheme has no special rules. -/
theorem parse_cases (h : parse s = .ok u) :
    (∃ cs, parseFile cs = .ok u) ∨
      (∃ scheme a rest, u = assemble scheme a rest) ∨
      ∃ scheme cs, isSpecial scheme = false ∧ u = parseWithoutHost scheme cs := by
  unfold parse at h
  split at h
  · cases h
  · next scheme rest _ =>
    split at h
    · exact Or.inl ⟨_, h⟩
    · split at h
      · exact Or.inr (Or.inl ⟨scheme, eq_assemble_of_authority h⟩)
      · next hspecial =>
        split at h
        · exact Or.inr (Or.inl ⟨scheme, eq_assemble_of_authority h⟩)
        · cases h
          exact Or.inr (Or.inr ⟨scheme, _, Bool.eq_false_iff.mpr hspecial, rfl⟩)

theorem rooted_assemble (scheme : Chars) (a : Authority) (rest : Chars) :
    (assemble scheme a rest).Rooted := by
  change ∃ segs, rootedPath scheme (cutTail rest).1 = .segments segs
  unfold rootedPath
  split <;> exact ⟨_, rfl⟩

theorem Rooted.dropDriveHost (h : u.Rooted) : u.dropDriveHost.Rooted := by
  unfold Url.dropDriveHost
  split
  · exact h
  · exact h

theorem rooted_of_parse (h : parse s = .ok u) (hs : isSpecial u.scheme = true) : u.Rooted := by
  rcases parse_cases h with ⟨cs, hfile⟩ | ⟨scheme, a, rest, rfl⟩ | ⟨scheme, cs, hplain, rfl⟩
  · obtain ⟨a, rest, rfl | rfl⟩ := parseFile_cases hfile
    · exact rooted_assemble _ _ _
    · exact (rooted_assemble _ _ _).dropDriveHost
  · exact rooted_assemble _ _ _
  · have hscheme : (parseWithoutHost scheme cs).scheme = scheme := rfl
    rw [hscheme, hplain] at hs
    cases hs

theorem Rooted.push? (h : u.Rooted) (segs : List Chars) : ∃ v, u.push? segs = some v := by
  obtain ⟨before, hb⟩ := h
  simp [Url.push?, hb]

/-- The schemes of the servers that a catalog can be on. -/
def IsWeb (scheme : Chars) : Prop :=
  String.ofList scheme = "http" ∨ String.ofList scheme = "https"

theorem IsWeb.isSpecial (h : IsWeb scheme) : isSpecial scheme = true := by
  unfold Url.isSpecial defaultPort?
  rcases h with h | h <;> simp [h, defaultPorts]

theorem IsWeb.isFile (h : IsWeb scheme) : isFile scheme = false := by
  unfold Url.isFile
  apply beq_eq_false_iff_ne.mpr
  rintro rfl
  exact absurd h (by unfold IsWeb; decide)

/-- The schemes of all servers: those that imply a port. -/
def IsServer (scheme : Chars) : Prop :=
  (defaultPort? scheme).isSome = true

instance : DecidablePred IsServer :=
  fun _ => inferInstanceAs (Decidable (_ = true))

theorem IsServer.isSpecial (h : IsServer scheme) : isSpecial scheme = true := by
  rw [Url.isSpecial, h, Bool.or_true]

theorem IsServer.isFile (h : IsServer scheme) : isFile scheme = false := by
  apply beq_eq_false_iff_ne.mpr
  rintro rfl
  exact absurd h (by decide)

theorem clean_rootedPath (h : IsWeb scheme) (cs : Chars) :
    ∃ segs, rootedPath scheme cs = .segments segs ∧ ∀ seg ∈ segs, Clean seg := by
  unfold rootedPath
  rw [h.isSpecial, h.isFile]
  split
  · exact ⟨_, rfl, by simp [clean_nil]⟩
  · refine ⟨_, rfl, ?_⟩
    split
    · exact clean_readSegments _
    · exact clean_readSegments _

theorem scheme_of_parseFile (h : parseFile cs = .ok u) : u.scheme = "file".toList := by
  obtain ⟨a, rest, rfl | rfl⟩ := parseFile_cases h
  · rfl
  · unfold dropDriveHost
    split <;> rfl

theorem clean_of_parse (h : parse s = .ok u) (hweb : IsWeb u.scheme) :
    ∃ segs, u.path = .segments segs ∧ ∀ seg ∈ segs, Clean seg := by
  rcases parse_cases h with ⟨cs, hfile⟩ | ⟨scheme, a, rest, rfl⟩ | ⟨scheme, cs, hplain, rfl⟩
  · have hno := hweb.isFile
    rw [scheme_of_parseFile hfile] at hno
    exact absurd hno (by decide)
  · exact clean_rootedPath hweb _
  · have hscheme : (parseWithoutHost scheme cs).scheme = scheme := rfl
    rw [hscheme] at hweb
    rw [hweb.isSpecial] at hplain
    cases hplain

end StockGate.Url
