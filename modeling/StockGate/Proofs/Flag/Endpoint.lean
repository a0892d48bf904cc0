import StockGate.Flag.Client
import StockGate.Proofs.Settings.Check
import StockGate.Proofs.Url.Blank

namespace StockGate

open Url (Chars Path IsServer ServerText assemble stem blanksAfter opening)

namespace FlagClient

variable {text : String} {base u : Url} {scheme cs ys after : Chars} {segs : List Chars} {k : Nat}

theorem trimSlashes_concat_slash (cs : Chars) : trimSlashes (cs ++ ['/']) = trimSlashes cs :=
  List.rdropWhile_concat_pos _ _ _ (by decide)

theorem trimSlashes_concat (cs : Chars) {c : Char} (hc : c ≠ '/') :
    trimSlashes (cs ++ [c]) = cs ++ [c] :=
  List.rdropWhile_concat_neg _ _ _ (by simpa using hc)

theorem trimSlashes_append (cs : Chars) (k : Nat) :
    trimSlashes (cs ++ List.replicate k '/') = trimSlashes cs := by
  induction k with
  | zero => rw [List.replicate_zero, List.append_nil]
  | succ k ih => rw [List.replicate_succ', ← List.append_assoc, trimSlashes_concat_slash, ih]

theorem length_trimSlashes_le (cs : Chars) : (trimSlashes cs).length ≤ cs.length :=
  (List.rdropWhile_prefix (· = '/') (l := cs)).length_le

theorem exists_slashes (cs : Chars) : ∃ k, cs = trimSlashes cs ++ List.replicate k '/' := by
  have hslashes : ∀ c ∈ cs.rtakeWhile (· = '/'), c = '/' := by
    intro c hc
    simpa using List.mem_rtakeWhile_imp hc
  refine ⟨(cs.rtakeWhile (· = '/')).length, ?_⟩
  rw [← List.eq_replicate_of_mem hslashes]
  exact List.rdropWhile_append_rtakeWhile.symm

theorem trimSlashes_print_iff (h : ∀ seg ∈ segs, '/' ∉ seg) :
    trimSlashes (Path.segments segs).print = (Path.segments segs).print ↔
      segs.getLast? ≠ some [] := by
  rcases List.eq_nil_or_concat' segs with rfl | ⟨before, seg, rfl⟩
  · exact iff_of_true rfl nofun
  · have hprint : (Path.segments (before ++ [seg])).print =
        (Path.segments before).print ++ '/' :: seg := by
      rw [Url.print_append]
      exact congrArg (_ ++ '/' :: ·) (List.append_nil seg)
    have hseg := h seg (List.mem_append_right _ (List.mem_singleton_self seg))
    rw [hprint, List.getLast?_concat]
    rcases List.eq_nil_or_concat' seg with rfl | ⟨seg, c, rfl⟩
    · apply iff_of_false _ (· rfl)
      intro heq
      have hlength := congrArg List.length heq
      have hle := length_trimSlashes_le (Path.segments before).print
      rw [trimSlashes_concat_slash, List.length_append, List.length_singleton] at hlength
      omega
    · have hc : c ≠ '/' := by
        rintro rfl
        exact hseg (List.mem_append_right _ (List.mem_singleton_self _))
      apply iff_of_true _ (by simp)
      rw [← List.cons_append, ← List.append_assoc, trimSlashes_concat _ hc]

theorem not_around_resolvePath : ∀ c ∈ resolvePath.toList, Url.isAround c = false :=
  Text.forall_of_all (by decide)

theorem not_mark_resolvePath : ∀ c ∈ resolvePath.toList, Url.endsPath c = false :=
  Text.forall_of_all (by decide)

theorem not_mark_slashes (k : Nat) : ∀ c ∈ List.replicate k '/', Url.endsPath c = false :=
  fun _ hc => List.eq_of_mem_replicate hc ▸ rfl

theorem head?_resolvePath : resolvePath.toList.head? = some '/' := by
  decide

theorem trimSlashes_resolvePath (cs : Chars) :
    trimSlashes (cs ++ resolvePath.toList) = cs ++ resolvePath.toList := by
  have hlast : resolvePath.toList = resolvePath.toList.dropLast ++ ['n'] := by decide
  rw [hlast, ← List.append_assoc, trimSlashes_concat _ (by decide)]

theorem ne_append_resolvePath (cs : Chars) : cs ≠ trimSlashes cs ++ resolvePath.toList := by
  intro heq
  have hself : trimSlashes cs = trimSlashes cs ++ resolvePath.toList :=
    (congrArg trimSlashes heq).trans (trimSlashes_resolvePath _)
  exact absurd (List.self_eq_append_right.mp hself) (by decide)

theorem endpointOf_eq (text : String) :
    endpointOf text = String.ofList (trimSlashes text.toList ++ resolvePath.toList) := by
  apply String.toList_injective
  rw [endpointOf, String.toList_append, String.toList_ofList, String.toList_ofList]

theorem cleaned_endpointOf (text : String) :
    Url.cleaned (endpointOf text) = opening (trimSlashes text.toList) ++ resolvePath.toList := by
  rw [endpointOf_eq, Url.cleaned_append not_around_resolvePath (by decide)]

theorem exists_opening_slashes (text : String) :
    ∃ k, opening (trimSlashes text.toList) ++ List.replicate k '/' =
      Url.cleaned text ++ blanksAfter text := by
  obtain ⟨k, hk⟩ := exists_slashes text.toList
  have hopening := Url.opening_eq text
  rw [hk, Url.opening_append fun c hc => List.eq_of_mem_replicate hc ▸ rfl] at hopening
  exact ⟨k, hopening⟩

/-- The endpoint is on the base's server, and the service's path comes behind the base's. -/
structure Joins (base endpoint : Url) : Prop where
  scheme : endpoint.scheme = base.scheme
  host : endpoint.host = base.host
  port : endpoint.port = base.port
  path : endpoint.path.print = trimSlashes base.path.print ++ resolvePath.toList

/-- What is asked for under a base is a URL that joins it. -/
def JoinsCleanly (text : String) (base : Url) : Prop :=
  ∃ endpoint, Url.parse (endpointOf text) = .ok endpoint ∧ Joins base endpoint

/-- One more segment behind a base comes behind an empty one. -/
def EndsEmpty (text : String) : Prop :=
  ∃ u segs, Url.parse (String.ofList (trimSlashes text.toList ++ "/x".toList)) = .ok u ∧
    u.path = .segments (segs ++ [[], ['x']])

theorem joins_assemble_iff (scheme : Chars) (a : Url.Authority) (cs ys : Chars) :
    Joins (assemble scheme a cs) (assemble scheme a ys) ↔
      (Url.rootedPath scheme (Url.cutTail ys).1).print =
        trimSlashes (Url.rootedPath scheme (Url.cutTail cs).1).print ++ resolvePath.toList :=
  ⟨fun h => h.path, fun h => ⟨rfl, rfl, rfl, h⟩⟩

theorem assemble_bare_iff (scheme : Chars) (a : Url.Authority) (cs : Chars) :
    (assemble scheme a cs).query = none ∧ (assemble scheme a cs).fragment = none ↔
      ∀ c ∈ cs, Url.endsPath c = false := by
  change (Url.cutTail cs).2.1.map _ = none ∧ (Url.cutTail cs).2.2.map _ = none ↔ _
  rw [Option.map_eq_none_iff, Option.map_eq_none_iff]
  constructor
  · rintro ⟨hquery, hfragment⟩ c hc
    apply Bool.eq_false_iff.mpr
    intro hmark
    exact Url.cutTail_of_mark ⟨c, hc, hmark⟩ (Prod.ext hquery hfragment)
  · intro h
    rw [Url.cutTail_of_plain h]
    exact ⟨rfl, rfl⟩

theorem not_joins_of_mark (h : ∃ c ∈ cs, Url.endsPath c = true) (scheme : Chars) (a : Url.Authority)
    (xs ys : Chars) : ¬ Joins (assemble scheme a (cs ++ xs)) (assemble scheme a (cs ++ ys)) := by
  -- The query or the fragment takes all that follows it.
  rw [joins_assemble_iff, Url.cutTail_append h, Url.cutTail_append h]
  exact ne_append_resolvePath _

theorem rootedPath_resolvePath (hs : IsServer scheme) (cs : Chars) :
    (Url.rootedPath scheme (cs ++ resolvePath.toList)).print =
      (Path.segments (stem cs)).print ++ resolvePath.toList := by
  have hpath : resolvePath.toList = '/' :: resolvePath.toList.tail := by decide
  have hprint : (Path.segments (Url.written resolvePath.toList.tail)).print =
      resolvePath.toList := by
    decide
  rw [hpath, Url.rootedPath_append_of_dots hs _ (by decide), Url.print_append, hprint, ← hpath]

theorem endsEmpty_iff_stem (hs : IsServer scheme) (hcs : ∀ c ∈ cs, Url.endsPath c = false)
    (a : Url.Authority) :
    (∃ segs, (assemble scheme a (cs ++ "/x".toList)).path = .segments (segs ++ [[], ['x']])) ↔
      (stem cs).getLast? = some [] := by
  have hplain : ∀ c ∈ cs ++ "/x".toList, Url.endsPath c = false :=
    List.forall_mem_append.mpr ⟨hcs, Text.forall_of_all (by decide)⟩
  have hpath : (assemble scheme a (cs ++ "/x".toList)).path = .segments (stem cs ++ [['x']]) := by
    change Url.rootedPath scheme (Url.cutTail _).1 = _
    rw [Url.cutTail_of_plain hplain]
    exact Url.rootedPath_append_of_dots hs ['x'] (by decide) cs
  have hsplit (segs : List Chars) :
      stem cs ++ [['x']] = segs ++ [[], ['x']] ↔ stem cs = segs ++ [[]] := by
    rw [← List.singleton_append (x := []), ← List.append_assoc, List.append_left_inj]
  simp only [hpath, Path.segments.injEq, hsplit, List.getLast?_eq_some_iff]

theorem joins_iff_print (hs : IsServer scheme) (hcs : ∀ c ∈ cs, Url.endsPath c = false)
    (hys : ∀ c ∈ ys, Url.endsPath c = false) (a : Url.Authority) :
    Joins (assemble scheme a cs) (assemble scheme a (ys ++ resolvePath.toList)) ↔
      (Path.segments (stem ys)).print = trimSlashes (Url.rootedPath scheme cs).print := by
  have hmore : ∀ c ∈ ys ++ resolvePath.toList, Url.endsPath c = false :=
    List.forall_mem_append.mpr ⟨hys, not_mark_resolvePath⟩
  rw [joins_assemble_iff, Url.cutTail_of_plain hcs, Url.cutTail_of_plain hmore,
    rootedPath_resolvePath hs, List.append_left_inj]

/-- A path without marks is joined unless what stays of it ends in an empty segment. -/
theorem joins_iff_stem (hs : IsServer scheme) (hcs : ∀ c ∈ cs, Url.endsPath c = false)
    (a : Url.Authority) (k : Nat) :
    Joins (assemble scheme a (cs ++ List.replicate k '/'))
      (assemble scheme a (cs ++ resolvePath.toList)) ↔ (stem cs).getLast? ≠ some [] := by
  have hnoSlash : ∀ seg ∈ stem cs, '/' ∉ seg :=
    fun seg hseg hmem => absurd (Url.clean_stem cs seg hseg '/' hmem) (by decide)
  obtain ⟨n, hbase⟩ := Url.rootedPath_append_slashes hs cs k
  rw [joins_iff_print hs (List.forall_mem_append.mpr ⟨hcs, not_mark_slashes k⟩) hcs, hbase,
    Url.print_append, Url.print_nils, trimSlashes_append, eq_comm, trimSlashes_print_iff hnoSlash]

theorem not_joins_of_blanks {blanks : Chars} (hs : IsServer scheme) (hcs : cs ≠ [])
    (hne : blanks ≠ []) (hblanks : ∀ c ∈ blanks, Url.IsBlank c) (a : Url.Authority) :
    ¬ Joins (assemble scheme a cs) (assemble scheme a (cs ++ (blanks ++ resolvePath.toList))) := by
  -- The blanks would have to be in the path.
  by_cases hmark : ∃ c ∈ cs, Url.endsPath c = true
  · have hno := not_joins_of_mark hmark scheme a [] (blanks ++ resolvePath.toList)
    rwa [List.append_nil] at hno
  · have hplain : ∀ c ∈ cs, Url.endsPath c = false :=
      fun c hc => Bool.eq_false_iff.mpr fun h => hmark ⟨c, hc, h⟩
    obtain ⟨n, hbase⟩ := Url.rootedPath_stem hs cs
    rw [← List.append_assoc, joins_iff_print hs hplain
      (List.forall_mem_append.mpr ⟨hplain, fun c hc => (hblanks c hc).not_mark⟩), hbase,
      Url.print_append, Url.print_nils, trimSlashes_append]
    intro heq
    have hlength := congrArg List.length heq
    have hle := length_trimSlashes_le (Path.segments (stem cs)).print
    have hlt := Url.length_print_stem_lt hcs hne hblanks
    omega

theorem exists_parse_eq (h : Url.parse text = .ok base) (hs : IsServer base.scheme)
    (hblanks : blanksAfter text = []) :
    ∃ a after k, base = assemble base.scheme a (after ++ List.replicate k '/') ∧
      ∀ ys : Chars, ys.head? = some '/' → (∀ c ∈ ys, Url.isAround c = false) →
        Url.parse (String.ofList (trimSlashes text.toList ++ ys)) =
          .ok (assemble base.scheme a (after ++ ys)) := by
  obtain ⟨k, hopening⟩ := exists_opening_slashes text
  have hslashes : ∀ c ∈ List.replicate k '/', c = '/' := fun c hc => List.eq_of_mem_replicate hc
  have hcleaned : Url.cleaned text =
      opening (trimSlashes text.toList) ++ List.replicate k '/' := by
    rw [hopening, hblanks, List.append_nil]
  obtain ⟨whole, after, htext⟩ := ServerText.of_parse h
  obtain ⟨x, hx, -⟩ := htext.eq_assemble hs h
  have hne := List.append_ne_nil_of_left_ne_nil (ServerText.ne_nil_of_hostAndPort? hx) after
  rw [hcleaned] at htext
  obtain ⟨whole, after, htext, hne⟩ := htext.of_append hne hslashes
  have hwhole := htext.append_slash (List.replicate k '/') hne
    fun c hc => hslashes c (List.mem_of_mem_head? hc)
  rw [← hcleaned] at hwhole
  obtain ⟨x, hx, hbase⟩ := hwhole.eq_assemble hs h
  refine ⟨_, after, k, hbase, fun ys hhead hys => ?_⟩
  have hnil : ys ≠ [] := by
    rintro rfl
    cases hhead
  have hmore := htext.append_slash ys hne
    fun c hc => Option.some.inj ((Option.mem_def.mp hc).symm.trans hhead)
  rw [← Url.cleaned_append hys hnil] at hmore
  rw [hmore.parse_eq hs, hx]
  rfl

theorem opening_of_blanks (hblanks : blanksAfter text ≠ []) :
    opening (trimSlashes text.toList) = Url.cleaned text ++ blanksAfter text := by
  obtain ⟨k, hopening⟩ := exists_opening_slashes text
  cases k with
  | zero => rwa [List.replicate_zero, List.append_nil] at hopening
  | succ k =>
    have hlast := congrArg List.getLast? hopening
    rw [List.replicate_succ', ← List.append_assoc, List.getLast?_concat, List.getLast?_append,
      List.getLast?_eq_some_getLast hblanks, Option.some_or] at hlast
    have hblank := Url.isBlank_of_mem (List.getLast_mem hblanks)
    exact absurd (Option.some.inj hlast).symm (hblank.ne (by decide))

theorem not_joinsCleanly_of_blanks (h : Url.parse text = .ok base) (hs : IsServer base.scheme)
    (hblanks : blanksAfter text ≠ []) : ¬ JoinsCleanly text base := by
  -- Blanks at the end of a base become part of it.
  have hblank : ∀ c ∈ blanksAfter text, Url.IsBlank c := fun c hc => Url.isBlank_of_mem hc
  have hcleaned : Url.cleaned (endpointOf text) =
      Url.cleaned text ++ blanksAfter text ++ resolvePath.toList := by
    rw [cleaned_endpointOf, opening_of_blanks hblanks]
  have hslash : ∀ c ∈ resolvePath.toList.head?, c = '/' := by simp [head?_resolvePath]
  obtain ⟨whole, after, htext⟩ := ServerText.of_parse h
  obtain ⟨x, hx, hbase⟩ := htext.eq_assemble hs h
  have hwhole := ServerText.ne_nil_of_hostAndPort? hx
  rintro ⟨endpoint, hparse, hjoins⟩
  by_cases hafter : after = []
  · subst hafter
    have hmore := (htext.extend hwhole fun c hc => (hblank c hc).inside).append_slash
      resolvePath.toList (by simp [hwhole]) hslash
    rw [← hcleaned] at hmore
    obtain ⟨e, he⟩ := Url.hostAndPort?_of_blanks
      (fun c hc => htext.inside c (Url.mem_of_mem_cutAtLastAt hc)) hx hblanks hblank
    obtain ⟨y, hy, -⟩ := hmore.eq_assemble hs hparse
    rw [Url.cutAtLastAt_append (Url.IsBlank.not_mem hblank (by decide)), he] at hy
    cases hy
  · have hmore := htext.append (blanksAfter text ++ resolvePath.toList) (by simp [hwhole])
      (by
        rw [List.head?_append_of_ne_nil _ hafter]
        exact htext.ends)
    rw [← List.append_assoc (Url.cleaned text), ← hcleaned] at hmore
    obtain ⟨y, hy, hendpoint⟩ := hmore.eq_assemble hs hparse
    obtain rfl := Except.ok.inj (hx.symm.trans hy)
    rw [hbase, hendpoint] at hjoins
    exact not_joins_of_blanks hs hafter hblanks hblank _ hjoins

/-- What is asked for under the base of a server joins it unless the base has a query, a fragment,
blanks at its end, or a path to which more comes behind an empty segment. -/
theorem joinsCleanly_iff (h : Url.parse text = .ok base) (hs : IsServer base.scheme) :
    JoinsCleanly text base ↔ base.query = none ∧ base.fragment = none ∧ blanksAfter text = [] ∧
      ¬ EndsEmpty text := by
  by_cases hblanks : blanksAfter text = []
  · obtain ⟨a, after, k, hbase, hparse⟩ := exists_parse_eq h hs hblanks
    have hendpoint := hparse resolvePath.toList head?_resolvePath not_around_resolvePath
    rw [← endpointOf_eq] at hendpoint
    have hjoins : JoinsCleanly text base ↔
        Joins base (assemble base.scheme a (after ++ resolvePath.toList)) := by
      rw [JoinsCleanly, hendpoint]
      simp
    have hempty : EndsEmpty text ↔ ∃ segs,
        (assemble base.scheme a (after ++ "/x".toList)).path = .segments (segs ++ [[], ['x']]) := by
      rw [EndsEmpty, hparse "/x".toList rfl (Text.forall_of_all (by decide))]
      simp
    have hbare := assemble_bare_iff base.scheme a (after ++ List.replicate k '/')
    rw [← hbase] at hbare
    rw [hjoins, hempty, ← and_assoc, hbare, and_iff_right hblanks]
    by_cases hmark : ∃ c ∈ after, Url.endsPath c = true
    · have hno := not_joins_of_mark hmark base.scheme a (List.replicate k '/') resolvePath.toList
      rw [← hbase] at hno
      obtain ⟨c, hc, hends⟩ := hmark
      refine iff_of_false hno fun hall => ?_
      exact absurd (hends.symm.trans (hall.1 c (List.mem_append_left _ hc))) nofun
    · have hplain : ∀ c ∈ after, Url.endsPath c = false :=
        fun c hc => Bool.eq_false_iff.mpr fun h => hmark ⟨c, hc, h⟩
      have hiff := joins_iff_stem hs hplain a k
      rw [← hbase] at hiff
      rw [hiff, endsEmpty_iff_stem hs hplain,
        and_iff_right (List.forall_mem_append.mpr ⟨hplain, not_mark_slashes k⟩)]
  · exact iff_of_false (not_joinsCleanly_of_blanks h hs hblanks) fun hall => hblanks hall.2.2.1

theorem scheme_of_parse_endpointOf (h : Url.parse text = .ok base)
    (hu : Url.parse (endpointOf text) = .ok u) : u.scheme = base.scheme := by
  obtain ⟨k, hopening⟩ := exists_opening_slashes text
  obtain ⟨rest, hrest⟩ := Url.scheme?_of_parse h
  have hbase := Url.scheme?_append hrest (blanksAfter text)
  rw [← hopening] at hbase
  obtain ⟨before, hbefore, -⟩ := Url.scheme?_of_append hbase
    fun hmem => absurd (List.eq_of_mem_replicate hmem) (by decide)
  have hmore := Url.scheme?_append hbefore resolvePath.toList
  rw [← cleaned_endpointOf] at hmore
  obtain ⟨more, hread⟩ := Url.scheme?_of_parse hu
  exact (congrArg Prod.fst (Option.some.inj (hread.symm.trans hmore)))

theorem request_error_of_not_web (h : Url.parse text = .ok base) (hweb : ¬ Url.IsWeb base.scheme)
    (connectTimeout : Nat) (q : FlagQuestion) :
    ∃ e, (make text connectTimeout).request q = .error e := by
  cases hu : Url.parse (endpointOf text) with
  | error fault =>
    refine ⟨.transport fault.message, ?_⟩
    simp only [request, make, hu, Except.mapError]
    rfl
  | ok u =>
    have hsendable : HttpRequest.isSendable u = false := by
      have hno (scheme : String) (hne : String.ofList base.scheme ≠ scheme) :
          (u.scheme == scheme.toList) = false := by
        apply beq_eq_false_iff_ne.mpr
        intro heq
        rw [scheme_of_parse_endpointOf h hu] at heq
        exact hne (heq ▸ String.ofList_toList)
      rw [HttpRequest.isSendable, hno "http" fun h => hweb (Or.inl h),
        hno "https" fun h => hweb (Or.inr h)]
      rfl
    have hpost : HttpRequest.post? u (questionJson q) = none := by
      rw [HttpRequest.post?, hsendable]
      rfl
    refine ⟨.transport "not a web address", ?_⟩
    simp only [request, make, hu, Except.mapError, bind, Except.bind, hpost]
    rfl

/-- Settings that pass their checks name a base for the flag service, under which one URL is asked
for. If the base is on a server, that URL joins it just if the base has no query, no fragment, no
blanks at its end, and no path to which more would come behind an empty segment. If it is not on the
web, nothing is asked for. -/
theorem joins_cleanly_iff_bare (s : Settings) (h : s.errors = []) (hs : s.flag.source = .service) :
    ∃ text base, s.flag.serviceUrl = some text ∧ Url.parse text = .ok base ∧
      (IsServer base.scheme → (JoinsCleanly text base ↔ base.query = none ∧ base.fragment = none ∧
        blanksAfter text = [] ∧ ¬ EndsEmpty text)) ∧
      (¬ Url.IsWeb base.scheme → ∀ connectTimeout q,
        ∃ e, (make text connectTimeout).request q = .error e) := by
  obtain ⟨text, base, htext, hbase⟩ := FlagSettings.base_of_errors (Settings.flag_errors h) hs
  exact ⟨text, base, htext, hbase, joinsCleanly_iff hbase, request_error_of_not_web hbase⟩

def served (url : String) : Settings where
  flag := { source := .service, serviceUrl := some url }

theorem joins_cleanly_below_path :
    ∃ base, Url.parse "http://flagd:8013/base//" = .ok base ∧
      JoinsCleanly "http://flagd:8013/base//" base := by
  have h : (served "http://flagd:8013/base//").errors = [] := by decide +kernel
  obtain ⟨text, base, htext, hbase, hiff, -⟩ := joins_cleanly_iff_bare _ h rfl
  cases htext
  have hparts : (Url.parse "http://flagd:8013/base//").toOption.map
      (fun u => (u.scheme, u.query, u.fragment)) = some ("http".toList, none, none) := by
    decide +kernel
  have hprobe : (Url.parse (String.ofList (trimSlashes "http://flagd:8013/base//".toList ++
      "/x".toList))).toOption.map (·.path) = some (.segments ["base".toList, ['x']]) := by
    decide +kernel
  rw [hbase, Except.toOption, Option.map_some] at hparts
  obtain ⟨hscheme, hquery, hfragment⟩ : base.scheme = "http".toList ∧ base.query = none ∧
      base.fragment = none := by
    simpa only [Option.some.injEq, Prod.mk.injEq] using hparts
  refine ⟨base, hbase, (hiff (hscheme ▸ by decide)).mpr
    ⟨hquery, hfragment, by decide +kernel, ?_⟩⟩
  rintro ⟨u, segs, hu, hpath⟩
  rw [hu, Except.toOption, Option.map_some, hpath] at hprobe
  have hsegs : segs ++ [[], ['x']] = ["base".toList] ++ [['x']] :=
    Path.segments.inj (Option.some.inj hprobe)
  rw [← List.singleton_append (x := []), ← List.append_assoc, List.append_left_inj] at hsegs
  exact absurd (congrArg List.getLast? hsegs) (by rw [List.getLast?_concat]; decide)

/-- The fragment of a base takes the service's path. -/
theorem fragment_takes_path :
    (served "http://flagd:8013/#flags").errors = [] ∧
      ∃ base, Url.parse "http://flagd:8013/#flags" = .ok base ∧
        ¬ JoinsCleanly "http://flagd:8013/#flags" base := by
  have h : (served "http://flagd:8013/#flags").errors = [] := by decide +kernel
  obtain ⟨text, base, htext, hbase⟩ := FlagSettings.base_of_errors (Settings.flag_errors h) rfl
  cases htext
  have hpath : (Url.parse (endpointOf "http://flagd:8013/#flags")).toOption.map (·.path) =
      (Url.parse "http://flagd:8013/#flags").toOption.map (·.path) := by
    decide +kernel
  refine ⟨h, base, hbase, ?_⟩
  rintro ⟨endpoint, hendpoint, hjoins⟩
  rw [hendpoint, hbase] at hpath
  have hsame : endpoint.path = base.path := Option.some.inj hpath
  exact ne_append_resolvePath base.path.print (hsame ▸ hjoins.path)

end FlagClient
end StockGate
