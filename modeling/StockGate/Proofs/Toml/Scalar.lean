import Mathlib.Algebra.Group.Nat.Defs
import Mathlib.Data.List.Basic
import StockGate.Toml.Parser

namespace StockGate.Toml

open Text

variable {cs ds rest : List Char} {c : Char} {n : Nat}

theorem digitValue?_of_isDigit (h : c.isDigit = true) :
    digitValue? 10 c = some (c.toNat - '0'.toNat) := by
  have hrange : '0' ≤ c ∧ c ≤ '9' := by
    rw [Char.isDigit, Bool.and_eq_true, decide_eq_true_eq, decide_eq_true_eq] at h
    exact h
  have hsmall : c.toNat - '0'.toNat < 10 := by
    have hle : c.toNat ≤ '9'.toNat := hrange.2
    have hnine : '9'.toNat = 57 := rfl
    have hzero : '0'.toNat = 48 := rfl
    omega
  rw [digitValue?, hexValue?, if_pos hrange]
  exact Option.filter_some_pos (decide_eq_true hsmall)

def Digits (ds : List Char) : Prop :=
  ∀ c ∈ ds, isDecimal c = true

theorem digits_toDigits (n : Nat) : Digits (Nat.toDigits 10 n) := by
  intro c h
  have hdigit := Nat.isDigit_of_mem_toDigits (by decide) (by decide) h
  rw [isDecimal, isDigitIn, digitValue?_of_isDigit hdigit]
  rfl

theorem numeral_toDigits (n : Nat) : numeral 10 (Nat.toDigits 10 n) = n := by
  have hfold : numeral 10 (Nat.toDigits 10 n) = Nat.ofDigitChars 10 (Nat.toDigits 10 n) 0 := by
    apply List.foldl_ext
    intro m c hc
    have hdigit := Nat.isDigit_of_mem_toDigits (by decide) (by decide) hc
    rw [digitValue?_of_isDigit hdigit, Nat.mul_comm]
    rfl
  rw [hfold, Nat.ofDigitChars_toDigits (by decide) (by decide)]

theorem head_toDigits_ne_zero (h : 0 < n) : ∀ c ∈ (Nat.toDigits 10 n).head?, c ≠ '0' := by
  induction n using Nat.strongRecOn with
  | ind n ih =>
    by_cases hlt : n < 10
    · have hone : ∀ d : Fin 10, 0 < d.val → Nat.digitChar d.val ≠ '0' := by decide
      rw [Nat.toDigits_of_lt_base hlt]
      rintro c ⟨⟩
      exact hone ⟨n, hlt⟩ h
    · rw [Nat.toDigits_of_base_le (by decide) (by omega), List.head?_append_of_ne_nil]
      · exact ih (n / 10) (by omega) (by omega)
      · exact Nat.toDigits_ne_nil

/-- A line is over here. -/
def AtLineEnd (cs : List Char) : Prop :=
  ∀ c ∈ cs.head?, c = '\n'

/-- Only more digits can come here before the end of the line. -/
def OnlyDigits (cs : List Char) : Prop :=
  ∀ c ∈ cs.head?, isDecimal c = true ∨ c = '\n'

theorem OnlyDigits.append (hds : Digits ds) (hrest : AtLineEnd rest) :
    OnlyDigits (ds ++ rest) := by
  intro c hc
  cases ds with
  | nil => exact Or.inr (hrest c hc)
  | cons d ds =>
    obtain rfl := Option.some.inj hc
    exact Or.inl (hds _ List.mem_cons_self)

theorem AtLineEnd.cases (h : AtLineEnd rest) : rest = [] ∨ ∃ more, rest = '\n' :: more := by
  cases rest with
  | nil => exact Or.inl rfl
  | cons c more =>
    obtain rfl : c = '\n' := h c rfl
    exact Or.inr ⟨more, rfl⟩

theorem expect?_of_onlyDigits (h : OnlyDigits cs) (hc : isDecimal c = false) (hn : c ≠ '\n') :
    expect? c cs = none := by
  cases cs with
  | nil => rfl
  | cons d cs =>
    apply if_neg
    rintro rfl
    rcases h d rfl with hd | rfl
    · rw [hc] at hd
      cases hd
    · exact hn rfl

theorem OnlyDigits.of_field? {k low high v : Nat} {after : List Char}
    (hds : Digits ds) (hrest : AtLineEnd rest)
    (h : field? k low high (ds ++ rest) = some (v, after)) : OnlyDigits after := by
  simp only [field?, Option.ite_none_right_eq_some, Option.some.injEq, Prod.mk.injEq] at h
  obtain ⟨⟨hlength, hall⟩, -, -, rfl⟩ := h
  by_cases hk : k ≤ ds.length
  · rw [List.drop_append_of_le_length hk]
    exact OnlyDigits.append (fun c hc => hds c (List.mem_of_mem_drop hc)) hrest
  · rcases hrest.cases with rfl | ⟨more, rfl⟩
    · rw [List.append_nil, List.length_take] at hlength
      omega
    · have hmem : '\n' ∈ (ds ++ '\n' :: more).take k := by
        rw [List.take_append, List.take_of_length_le (by omega)]
        obtain ⟨j, hj⟩ : ∃ j, k - ds.length = j + 1 := ⟨k - ds.length - 1, by omega⟩
        rw [hj, List.take_succ_cons]
        exact List.mem_append_right _ List.mem_cons_self
      exact absurd (List.all_eq_true.mp hall _ hmem) (by decide)

theorem moment?_digits (hds : Digits ds) (hrest : AtLineEnd rest) :
    moment? (ds ++ rest) = none := by
  have hdate : date? (ds ++ rest) = none := by
    rw [date?]
    cases hfield : field? 4 0 9999 (ds ++ rest) with
    | none => rfl
    | some read =>
      have hafter := OnlyDigits.of_field? hds hrest hfield
      simp [expect?_of_onlyDigits hafter (c := '-') (by decide) (by decide)]
  have htime : time? (ds ++ rest) = none := by
    rw [time?]
    cases hfield : field? 2 0 23 (ds ++ rest) with
    | none => rfl
    | some read =>
      have hafter := OnlyDigits.of_field? hds hrest hfield
      simp [expect?_of_onlyDigits hafter (c := ':') (by decide) (by decide)]
  rw [moment?, hdate]
  exact htime

theorem more_append (hds : Digits ds) (hrest : AtLineEnd rest) :
    digits?.more 10 (ds ++ rest) = some (ds, rest) := by
  induction ds with
  | nil =>
    rcases hrest.cases with rfl | ⟨more, rfl⟩
    · rfl
    · rfl
  | cons d ds ih =>
    obtain ⟨hd, hds⟩ := List.forall_mem_cons.mp hds
    have hdigit : isDigitIn 10 d = true := hd
    have hunderscore : d ≠ '_' := by
      rintro rfl
      exact absurd hd (by decide)
    rw [List.cons_append, digits?.more.eq_def]
    split
    · next heq => cases heq
    · next heq => exact absurd (List.cons.inj heq).1 hunderscore
    · next heq =>
      cases heq
      rw [if_neg hunderscore, if_pos hdigit, ih hds]
      rfl

theorem digits?_append (hds : Digits ds) (hnil : ds ≠ []) (hrest : AtLineEnd rest) :
    digits? 10 (ds ++ rest) = some (ds, rest) := by
  cases ds with
  | nil => exact absurd rfl hnil
  | cons d ds =>
    obtain ⟨hd, hds⟩ := List.forall_mem_cons.mp hds
    have hdigit : isDigitIn 10 d = true := hd
    rw [List.cons_append, digits?, if_pos hdigit, more_append hds hrest]
    rfl

theorem wholePart?_toDigits (n : Nat) (hrest : AtLineEnd rest) :
    wholePart? (Nat.toDigits 10 n ++ rest) = some (Nat.toDigits 10 n, rest) := by
  rw [wholePart?.eq_def]
  split
  · next after heq =>
    by_cases hn : n = 0
    · rw [hn] at heq ⊢
      cases heq
      rfl
    · have hzero := head_toDigits_ne_zero (Nat.pos_of_ne_zero hn)
      have hhead := congrArg List.head? heq
      rw [List.head?_append_of_ne_nil _ Nat.toDigits_ne_nil] at hhead
      exact absurd rfl (hzero '0' hhead)
  · exact digits?_append (digits_toDigits n) Nat.toDigits_ne_nil hrest

theorem head_append_ne (hds : Digits ds) (hnil : ds ≠ []) (hc : isDecimal c = false) :
    ds ++ rest ≠ c :: cs := by
  cases ds with
  | nil => exact absurd rfl hnil
  | cons d ds =>
    intro heq
    have hd := hds d List.mem_cons_self
    rw [(List.cons.inj heq).1, hc] at hd
    cases hd

theorem sign_append (hds : Digits ds) (hnil : ds ≠ []) :
    sign (ds ++ rest) = (false, ds ++ rest) := by
  rw [sign.eq_def]
  split
  · next heq => exact absurd heq (head_append_ne hds hnil (by decide))
  · next heq => exact absurd heq (head_append_ne hds hnil (by decide))
  · rfl

theorem mark_append_ne {m : Char} (hds : Digits ds) (hnil : ds ≠ []) (hrest : AtLineEnd rest)
    (hm : isDecimal m = false) (hn : m ≠ '\n') : ds ++ rest ≠ c :: m :: cs := by
  cases ds with
  | nil => exact absurd rfl hnil
  | cons d ds =>
    intro heq
    have honly := OnlyDigits.append (fun c hc => hds c (List.mem_cons_of_mem _ hc)) hrest
    have htail : ds ++ rest = m :: cs := (List.cons.inj heq).2
    rw [htail] at honly
    rcases honly m rfl with hdigit | heq
    · rw [hm] at hdigit
      cases hdigit
    · exact hn heq

theorem integer?_toDigits (h : n < 2 ^ 63) (hrest : AtLineEnd rest) :
    integer? (Nat.toDigits 10 n ++ rest) = some ((n : Int), rest) := by
  have hds := digits_toDigits n
  have hnil : Nat.toDigits 10 n ≠ [] := Nat.toDigits_ne_nil
  have hword : inWord n = true := by
    have hmin : Int64.minValue.toInt = -2 ^ 63 := by decide
    have hmax : Int64.maxValue.toInt = 2 ^ 63 - 1 := by decide
    simp only [inWord, hmin, hmax, Bool.and_eq_true, decide_eq_true_eq]
    omega
  rw [integer?.eq_def]
  split
  · next heq => exact absurd heq (mark_append_ne hds hnil hrest (by decide) (by decide))
  · next heq => exact absurd heq (mark_append_ne hds hnil hrest (by decide) (by decide))
  · next heq => exact absurd heq (mark_append_ne hds hnil hrest (by decide) (by decide))
  · rw [sign_append hds hnil]
    simp [wholePart?_toDigits n hrest, numeral_toDigits, hword]

theorem float?_toDigits (n : Nat) (hrest : AtLineEnd rest) :
    float? (Nat.toDigits 10 n ++ rest) = none := by
  have hds := digits_toDigits n
  have hnil : Nat.toDigits 10 n ≠ [] := Nat.toDigits_ne_nil
  rw [float?, sign_append hds hnil]
  dsimp only
  split
  · next heq => exact absurd heq (head_append_ne hds hnil (by decide))
  · next heq => exact absurd heq (head_append_ne hds hnil (by decide))
  · rw [wholePart?_toDigits n hrest]
    rcases hrest.cases with rfl | ⟨more, rfl⟩
    · rfl
    · rfl

theorem string?_append (hds : Digits ds) (hnil : ds ≠ []) : string? (ds ++ rest) = none := by
  rw [string?, string?.read.eq_def]
  split
  · next heq => exact absurd heq (head_append_ne hds hnil (by decide))
  · next heq => exact absurd heq (head_append_ne hds hnil (by decide))
  · next heq => exact absurd heq (head_append_ne hds hnil (by decide))
  · next heq => exact absurd heq (head_append_ne hds hnil (by decide))
  · rfl

/-- A text that is read as a value where its line ends. It starts as a bare key does, so it opens
neither brackets nor braces. -/
structure Writes (text : List Char) (item : Item) : Prop where
  bare : ∃ c cs, text = c :: cs ∧ isBareKey c = true
  reads : ∀ rest, AtLineEnd rest → scalar? (text ++ rest) = some (item, rest)

theorem writes_number (h : n < 2 ^ 63) : Writes (Nat.toDigits 10 n) (.integer n) where
  bare := by
    obtain ⟨c, cs, heq⟩ := List.exists_cons_of_ne_nil (@Nat.toDigits_ne_nil n 10)
    have hdigit : c.isDigit = true :=
      Nat.isDigit_of_mem_toDigits (by decide) (by decide) (heq ▸ List.mem_cons_self)
    refine ⟨c, cs, heq, ?_⟩
    simp [isBareKey, Char.isAlphanum, hdigit]
  reads rest hrest := by
    have hds := digits_toDigits n
    have hnil : Nat.toDigits 10 n ≠ [] := Nat.toDigits_ne_nil
    rw [scalar?.eq_def]
    split
    · next heq => exact absurd heq (head_append_ne hds hnil (by decide))
    · next heq => exact absurd heq (head_append_ne hds hnil (by decide))
    · rw [string?_append hds hnil, moment?_digits hds hrest, float?_toDigits n hrest,
        integer?_toDigits h hrest]
      rfl

theorem writes_true : Writes "true".toList (.bool true) :=
  ⟨⟨_, _, rfl, rfl⟩, fun _ _ => rfl⟩

theorem writes_false : Writes "false".toList (.bool false) :=
  ⟨⟨_, _, rfl, rfl⟩, fun _ _ => rfl⟩

end StockGate.Toml
