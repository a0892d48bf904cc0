import Mathlib.Data.List.TakeWhile
import StockGate.Proofs.Url.Parser

namespace StockGate.Url

open Text

variable {scheme cs rest whole after ys : Chars} {s : String} {u : Url} {host : Host}

theorem scheme?_eq_some_iff :
    scheme? cs = some (scheme, rest) ↔ ∃ name : Chars, name.head?.any Char.isAlpha = true ∧
      (∀ c ∈ name, isSchemeChar c = true) ∧ scheme = name.map Char.toLower ∧
      cs = name ++ ':' :: rest := by
  constructor
  · intro h
    have hall := List.all_eq_true.mp (List.all_takeWhile (p := isSchemeChar) (l := cs))
    have hcut := List.take_append_drop (cs.takeWhile isSchemeChar).length cs
    rw [← List.prefix_iff_eq_take.mp (List.takeWhile_prefix isSchemeChar)] at hcut
    unfold scheme? at h
    generalize cs.takeWhile isSchemeChar = name at h hall hcut
    simp only at h
    split at h
    · next c rest' hhead hdrop =>
      split at h
      · next halpha =>
        cases h
        rw [hdrop] at hcut
        refine ⟨name, ?_, hall, rfl, hcut.symm⟩
        cases name with
        | nil =>
          rw [← hcut] at hhead
          cases hhead
          cases halpha
        | cons d name =>
          rw [← hcut] at hhead
          cases hhead
          exact halpha
      · cases h
    · cases h
  · rintro ⟨name, halpha, hname, rfl, rfl⟩
    have hcolon : ∀ c ∈ (':' :: rest).head?, isSchemeChar c = false := by simp [isSchemeChar]
    obtain ⟨htake, -⟩ := takeWhile_append_of_stop hname hcolon
    cases name with
    | nil => cases halpha
    | cons c name =>
      unfold scheme?
      rw [htake]
      simp only [List.drop_left]
      exact if_pos halpha

theorem scheme?_append (h : scheme? cs = some (scheme, rest)) (ys : Chars) :
    scheme? (cs ++ ys) = some (scheme, rest ++ ys) := by
  obtain ⟨name, halpha, hname, hscheme, rfl⟩ := scheme?_eq_some_iff.mp h
  exact scheme?_eq_some_iff.mpr ⟨name, halpha, hname, hscheme, by simp⟩

theorem scheme?_of_append (h : scheme? (cs ++ ys) = some (scheme, rest)) (hys : ':' ∉ ys) :
    ∃ before, scheme? cs = some (scheme, before) ∧ rest = before ++ ys := by
  obtain ⟨name, halpha, hname, hscheme, hcs⟩ := scheme?_eq_some_iff.mp h
  rcases List.append_eq_append_iff.mp hcs with ⟨more, -, rfl⟩ | ⟨more, rfl, hmore⟩
  · exact absurd (List.mem_append_right _ List.mem_cons_self) hys
  · cases more with
    | nil =>
      have hmem : ':' ∈ [] ++ ys := hmore ▸ List.mem_cons_self
      exact absurd hmem hys
    | cons c before =>
      obtain ⟨rfl, rfl⟩ := List.cons.inj hmore
      exact ⟨before, scheme?_eq_some_iff.mpr ⟨name, halpha, hname, hscheme, rfl⟩, rfl⟩

theorem cutAtLastAt_append (h : '@' ∉ ys) (cs : Chars) :
    cutAtLastAt (cs ++ ys) = ((cutAtLastAt cs).1, (cutAtLastAt cs).2 ++ ys) := by
  have hys : ∀ c ∈ ys.reverse, decide (c ≠ '@') = true := by
    intro c hc
    apply decide_eq_true
    rintro rfl
    exact h (List.mem_reverse.mp hc)
  have htail : (((cs ++ ys).reverse.takeWhile (· ≠ '@')).reverse) =
      (cs.reverse.takeWhile (· ≠ '@')).reverse ++ ys := by
    rw [List.reverse_append, List.takeWhile_append_of_pos hys, List.reverse_append,
      List.reverse_reverse]
  have hle : (cs.reverse.takeWhile (· ≠ '@')).reverse.length ≤ cs.length := by
    rw [List.length_reverse]
    exact (List.takeWhile_sublist _).length_le.trans_eq List.length_reverse
  unfold cutAtLastAt
  simp only [htail, List.length_append, Nat.add_right_cancel_iff]
  generalize (cs.reverse.takeWhile (· ≠ '@')).reverse = tail at hle
  by_cases hall : tail.length = cs.length
  · rw [if_pos hall, if_pos hall]
  · have htake : cs.length + ys.length - (tail.length + ys.length) - 1 =
        cs.length - tail.length - 1 := by
      rw [Nat.add_sub_add_right]
    rw [if_neg hall, if_neg hall, htake, List.take_append_of_le_length (by omega)]

theorem mem_of_mem_cutAtLastAt {c : Char} (h : c ∈ (cutAtLastAt cs).2) : c ∈ cs := by
  unfold cutAtLastAt at h
  simp only at h
  split at h
  · exact h
  · exact List.mem_reverse.mp ((List.takeWhile_sublist _).mem (List.mem_reverse.mp h))

theorem hostLength_le (inside : Bool) (cs : Chars) : hostLength inside cs ≤ cs.length := by
  fun_induction hostLength inside cs with
  | case1 => exact Nat.le_refl _
  | case2 => exact Nat.zero_le _
  | case3 _ _ _ ih => exact Nat.succ_le_succ ih
  | case4 _ _ _ _ ih => exact Nat.succ_le_succ ih
  | case5 _ _ _ _ _ _ ih => exact Nat.succ_le_succ ih

theorem hostLength_of_not_mem (h : ':' ∉ cs) (inside : Bool) : hostLength inside cs = cs.length := by
  fun_induction hostLength inside cs with
  | case1 => rfl
  | case2 _ _ _ hcolon => exact absurd (hcolon.1 ▸ List.mem_cons_self) h
  | case3 _ _ _ ih => rw [ih (fun hc => h (List.mem_cons_of_mem _ hc)), List.length_cons]
  | case4 _ _ _ _ ih => rw [ih (fun hc => h (List.mem_cons_of_mem _ hc)), List.length_cons]
  | case5 _ _ _ _ _ _ ih => rw [ih (fun hc => h (List.mem_cons_of_mem _ hc)), List.length_cons]

theorem hostLength_append (h : ':' ∉ ys) (inside : Bool) (cs : Chars) :
    hostLength inside (cs ++ ys) =
      if hostLength inside cs = cs.length then cs.length + ys.length else hostLength inside cs := by
  have hsucc (k n m : Nat) : (if k = n then n + m else k) + 1 =
      if k + 1 = n + 1 then n + 1 + m else k + 1 := by
    split <;> split <;> omega
  fun_induction hostLength inside cs with
  | case1 inside => simp [hostLength_of_not_mem h inside]
  | case2 inside c cs hcolon => simp [hostLength, hcolon]
  | case3 inside cs hcolon ih =>
    rw [List.cons_append, hostLength, if_neg hcolon, if_pos rfl, ih]
    exact hsucc _ _ _
  | case4 inside cs hcolon hopen ih =>
    rw [List.cons_append, hostLength, if_neg hcolon, if_neg hopen, if_pos rfl, ih]
    exact hsucc _ _ _
  | case5 inside c cs hcolon hopen hclose ih =>
    rw [List.cons_append, hostLength, if_neg hcolon, if_neg hopen, if_neg hclose, ih]
    exact hsucc _ _ _

theorem drop_hostLength (inside : Bool) (cs : Chars) :
    cs.drop (hostLength inside cs) = [] ∨
      ∃ digits, cs.drop (hostLength inside cs) = ':' :: digits := by
  fun_induction hostLength inside cs with
  | case1 => exact Or.inl rfl
  | case2 _ _ cs hcolon => exact Or.inr ⟨cs, by rw [hcolon.1, List.drop_zero]⟩
  | case3 _ _ _ ih => exact ih
  | case4 _ _ _ _ ih => exact ih
  | case5 _ _ _ _ _ _ ih => exact ih

theorem port?_append (h : ∀ c ∈ cs, endsAuthority true c = false)
    (hafter : ∀ c ∈ after.head?, endsAuthority true c = true) :
    port? scheme (cs ++ after) = (port? scheme cs).map fun x => (x.1, after) := by
  have hdecimal (c : Char) (hc : endsAuthority true c = true) : isDecimal c = false := by
    simp only [endsAuthority, Bool.true_and, Bool.or_eq_true, decide_eq_true_eq] at hc
    rcases hc with ((rfl | rfl) | rfl) | rfl <;> decide
  have hcut := List.takeWhile_append_dropWhile (p := isDecimal) (l := cs)
  have hds := List.all_eq_true.mp (List.all_takeWhile (p := isDecimal) (l := cs))
  have hstop : ∀ c ∈ (cs.dropWhile isDecimal).head?, isDecimal c = false := by
    intro c hc
    have hnot := List.head?_dropWhile_not isDecimal cs
    rw [Option.mem_def.mp hc] at hnot
    exact hnot
  generalize cs.takeWhile isDecimal = ds at hcut hds
  generalize cs.dropWhile isDecimal = more at hcut hstop
  subst hcut
  have hread := (takeWhile_append_of_stop hds hstop).1
  unfold port?
  cases more with
  | nil =>
    have hread' := (takeWhile_append_of_stop hds fun c hc => hdecimal c (hafter c hc)).1
    have hends : after.head?.any (fun c => !endsAuthority true c) = false := by
      cases hhead : after.head? with
      | none => rfl
      | some c => simp [hafter c hhead]
    rw [List.append_nil] at hread ⊢
    rw [hread', hread]
    simp only [List.drop_left, List.drop_length, hends]
    split <;> rfl
  | cons c more =>
    have hmore : ∀ d ∈ (c :: (more ++ after)).head?, isDecimal d = false := hstop
    have hread' := (takeWhile_append_of_stop hds hmore).1
    have hinside : endsAuthority true c = false :=
      h c (List.mem_append_right _ List.mem_cons_self)
    rw [List.append_assoc, List.cons_append, hread', hread]
    simp only [List.drop_left, List.head?_cons, Option.any_some, hinside]
    split <;> rfl

/-- The host of a server's URL and its port, from what stands behind the credentials. -/
def hostAndPort? (scheme cs : Chars) : Except Fault (Host × Option Nat) := do
  let size := hostLength false cs
  if cs.take size = [] then throw .emptyHost
  let host ← specialHost (cs.take size)
  match cs.drop size with
  | ':' :: digits =>
    let (port, _) ← port? scheme digits
    return (host, port)
  | _ => return (host, none)

theorem specialHost_ne_nil (h : specialHost cs = .ok host) : host ≠ .domain [] := by
  unfold specialHost at h
  split at h
  · unfold bracketedHost at h
    split at h
    · cases h
    · split at h
      · cases h
        nofun
      · cases h
  · split at h
    · cases h
    · split at h
      · cases h
      · next hne =>
        split at h
        · split at h
          · cases h
            nofun
          · cases h
        · cases h
          intro hnil
          exact hne (Host.domain.inj hnil)

def Authority.of (info : Option Chars) (x : Host × Option Nat) : Authority :=
  let (username, password) := credentials (info.getD [])
  ⟨username, password, x.1, x.2⟩

theorem authority?_eq (h : isSpecial scheme = true)
    (hwhole : ∀ c ∈ whole, endsAuthority true c = false)
    (hafter : ∀ c ∈ after.head?, endsAuthority true c = true) :
    authority? scheme (whole ++ after) = (hostAndPort? scheme (cutAtLastAt whole).2).map
      fun x => (Authority.of (cutAtLastAt whole).1 x, after) := by
  have hnot : ∀ c ∈ whole, (!endsAuthority true c) = true := by
    intro c hc
    rw [hwhole c hc]
    rfl
  have hstop : ∀ c ∈ after.head?, (!endsAuthority true c) = false := by
    intro c hc
    rw [hafter c hc]
    rfl
  obtain ⟨htake, -⟩ := takeWhile_append_of_stop hnot hstop
  have hmem : ∀ c ∈ (cutAtLastAt whole).2, c ∈ whole := fun c hc => mem_of_mem_cutAtLastAt hc
  unfold authority? hostAndPort?
  rw [h]
  simp only [htake, List.drop_left]
  generalize cutAtLastAt whole = cut at hmem
  obtain ⟨info, hostPort⟩ := cut
  simp only at hmem ⊢
  by_cases hname : hostPort.take (hostLength false hostPort) = []
  · simp only [hname]
    split <;> rfl
  · have hne : hostPort ≠ [] := by
      rintro rfl
      exact hname List.take_nil
    rw [if_neg fun h => hne h.2.1, if_neg fun h => hname h.2, if_neg hname, if_pos trivial]
    cases hhost : specialHost (hostPort.take (hostLength false hostPort)) with
    | error e => rfl
    | ok host =>
      have hhost := specialHost_ne_nil hhost
      have hdigits (c : Char) (hc : c ∈ hostPort.drop (hostLength false hostPort)) :
          endsAuthority true c = false :=
        hwhole c (hmem c (List.mem_of_mem_drop hc))
      rcases drop_hostLength false hostPort with hdrop | ⟨digits, hdrop⟩
      · rw [hdrop, List.nil_append]
        change (if host = .domain [] ∧ _ then _ else _) = _
        rw [if_neg fun h => hhost h.1]
        split
        · exact absurd (hafter ':' rfl) (by decide)
        · rfl
      · rw [hdrop] at hdigits ⊢
        rw [List.cons_append]
        change (if host = .domain [] ∧ _ then _ else (port? scheme (digits ++ after) >>= _)) = _
        rw [if_neg fun h => hhost h.1,
          port?_append (fun c hc => hdigits c (List.mem_cons_of_mem _ hc)) hafter]
        change _ = Except.map _ (port? scheme digits >>= _)
        cases port? scheme digits <;> rfl

theorem scheme?_of_parse (h : parse s = .ok u) :
    ∃ rest, scheme? (cleaned s) = some (u.scheme, rest) := by
  unfold parse at h
  split at h
  · cases h
  · next scheme rest hread =>
    refine ⟨rest, hread.trans ?_⟩
    split at h
    · next hfile =>
      rw [scheme_of_parseFile h, ← eq_of_beq hfile]
    · split at h
      · obtain ⟨a, tail, rfl⟩ := eq_assemble_of_authority h
        rfl
      · split at h
        · obtain ⟨a, tail, rfl⟩ := eq_assemble_of_authority h
          rfl
        · cases h
          rfl

theorem parse_of_scheme? (h : scheme? (cleaned s) = some (scheme, rest)) (hserver : IsServer scheme) :
    parse s = (authority? scheme (rest.dropWhile isSlash)).map fun x => assemble scheme x.1 x.2 := by
  unfold parse
  rw [h]
  simp only [hserver.isFile, hserver.isSpecial]
  cases authority? scheme (rest.dropWhile isSlash) <;> rfl

/-- How the text of a server's URL is made up: after its scheme and the slashes comes the authority,
and then what starts with a character that ends it. -/
structure ServerText (scheme whole after cs : Chars) : Prop where
  read : ∃ rest, scheme? cs = some (scheme, rest) ∧ rest.dropWhile isSlash = whole ++ after
  inside : ∀ c ∈ whole, endsAuthority true c = false
  ends : ∀ c ∈ after.head?, endsAuthority true c = true

namespace ServerText

theorem parse_eq (h : ServerText scheme whole after (cleaned s)) (hserver : IsServer scheme) :
    parse s = (hostAndPort? scheme (cutAtLastAt whole).2).map
      fun x => assemble scheme (Authority.of (cutAtLastAt whole).1 x) after := by
  obtain ⟨rest, hscheme, hrest⟩ := h.read
  rw [parse_of_scheme? hscheme hserver, hrest, authority?_eq hserver.isSpecial h.inside h.ends]
  cases hostAndPort? scheme (cutAtLastAt whole).2 <;> rfl

theorem ne_nil_of_hostAndPort? {x : Host × Option Nat}
    (h : hostAndPort? scheme (cutAtLastAt whole).2 = .ok x) : whole ≠ [] := by
  rintro rfl
  cases h

theorem of_scheme? (h : scheme? cs = some (scheme, rest)) :
    ∃ whole after, ServerText scheme whole after cs ∧ rest.dropWhile isSlash = whole ++ after := by
  have hcut := List.takeWhile_append_dropWhile (p := (!endsAuthority true ·))
    (l := rest.dropWhile isSlash)
  refine ⟨_, _, ⟨⟨rest, h, hcut.symm⟩, ?_, ?_⟩, hcut.symm⟩
  · intro c hc
    simpa using List.all_eq_true.mp List.all_takeWhile c hc
  · intro c hc
    have hnot := List.head?_dropWhile_not (!endsAuthority true ·) (rest.dropWhile isSlash)
    rw [Option.mem_def.mp hc] at hnot
    simpa using hnot

theorem of_parse (h : parse s = .ok u) :
    ∃ whole after, ServerText u.scheme whole after (cleaned s) := by
  obtain ⟨rest, hscheme⟩ := scheme?_of_parse h
  obtain ⟨whole, after, htext, -⟩ := of_scheme? hscheme
  exact ⟨whole, after, htext⟩

theorem eq_assemble (h : ServerText scheme whole after (cleaned s)) (hserver : IsServer scheme)
    (hparse : parse s = .ok u) : ∃ x, hostAndPort? scheme (cutAtLastAt whole).2 = .ok x ∧
      u = assemble scheme (Authority.of (cutAtLastAt whole).1 x) after := by
  rw [h.parse_eq hserver] at hparse
  cases hx : hostAndPort? scheme (cutAtLastAt whole).2 with
  | error e =>
    rw [hx] at hparse
    cases hparse
  | ok x =>
    rw [hx] at hparse
    exact ⟨x, rfl, (Except.ok.inj hparse).symm⟩

theorem append (h : ServerText scheme whole after cs) (ys : Chars) (hne : whole ++ after ≠ [])
    (hys : ∀ c ∈ (after ++ ys).head?, endsAuthority true c = true) :
    ServerText scheme whole (after ++ ys) (cs ++ ys) := by
  obtain ⟨rest, hscheme, hrest⟩ := h.read
  refine ⟨⟨rest ++ ys, scheme?_append hscheme ys, ?_⟩, h.inside, hys⟩
  rw [List.dropWhile_append, hrest, if_neg (by simpa using hne), List.append_assoc]

theorem append_slash (h : ServerText scheme whole after cs) (ys : Chars)
    (hne : whole ++ after ≠ []) (hys : ∀ c ∈ ys.head?, c = '/') :
    ServerText scheme whole (after ++ ys) (cs ++ ys) := by
  apply h.append ys hne
  cases after with
  | nil => exact fun c hc => hys c hc ▸ rfl
  | cons c after => exact h.ends

theorem extend (h : ServerText scheme whole [] cs) (hne : whole ≠ [])
    (hys : ∀ c ∈ ys, endsAuthority true c = false) :
    ServerText scheme (whole ++ ys) [] (cs ++ ys) := by
  obtain ⟨rest, hscheme, hrest⟩ := h.read
  refine ⟨⟨rest ++ ys, scheme?_append hscheme ys, ?_⟩, ?_, nofun⟩
  · rw [List.dropWhile_append, hrest, if_neg (by simpa using hne), List.append_nil, List.append_nil]
  · exact List.forall_mem_append.mpr ⟨h.inside, hys⟩

theorem of_append (h : ServerText scheme whole after (cs ++ ys)) (hne : whole ++ after ≠ [])
    (hys : ∀ c ∈ ys, c = '/') :
    ∃ whole after, ServerText scheme whole after cs ∧ whole ++ after ≠ [] := by
  obtain ⟨rest, hscheme, hrest⟩ := h.read
  have hcolon : ':' ∉ ys := fun hmem => absurd (hys _ hmem) (by decide)
  obtain ⟨before, hbefore, rfl⟩ := scheme?_of_append hscheme hcolon
  obtain ⟨whole, after, htext, hcut⟩ := of_scheme? hbefore
  refine ⟨whole, after, htext, fun hnil => hne ?_⟩
  have hslash : ∀ c ∈ ys, isSlash c = true := fun c hc => hys c hc ▸ rfl
  rw [← hrest, List.dropWhile_append, hcut, hnil, List.dropWhile_eq_nil_iff.mpr hslash]
  rfl

end ServerText

end StockGate.Url
