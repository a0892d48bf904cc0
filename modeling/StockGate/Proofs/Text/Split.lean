import StockGate.Text.Split

namespace StockGate.Text

variable {p : Char → Bool} {c : Char} {cs part pattern before after : List Char}

theorem takeWhile_append_of_stop {α : Type} {q : α → Bool} {xs rest : List α}
    (hxs : ∀ x ∈ xs, q x = true) (hrest : ∀ x ∈ rest.head?, q x = false) :
    (xs ++ rest).takeWhile q = xs ∧ (xs ++ rest).dropWhile q = rest := by
  induction xs with
  | nil =>
    cases rest with
    | nil => exact ⟨rfl, rfl⟩
    | cons x rest =>
      have hx := hrest x rfl
      simp [hx]
  | cons x xs ih =>
    have hx := hxs x List.mem_cons_self
    have ih := ih fun y hy => hxs y (List.mem_cons_of_mem x hy)
    simp [hx, ih.1, ih.2]

theorem forall_of_all (h : cs.all (!p ·) = true) : ∀ c ∈ cs, p c = false := by
  simpa using h

theorem not_of_mem_splitWhere (h : part ∈ splitWhere p cs) :
    ∀ c ∈ part, p c = false := by
  induction cs generalizing part with
  | nil =>
    rw [splitWhere, List.mem_singleton] at h
    exact h ▸ List.forall_mem_nil _
  | cons c cs ih =>
    rw [splitWhere] at h
    split at h
    · rcases List.mem_cons.mp h with rfl | h
      · exact List.forall_mem_nil _
      · exact ih h
    · next hc =>
      split at h
      · rcases List.mem_singleton.mp h with rfl
        simpa using hc
      · next part₀ parts heq =>
        have hfirst : ∀ c ∈ part₀, p c = false := ih (heq ▸ List.mem_cons_self)
        rcases List.mem_cons.mp h with rfl | h
        · exact List.forall_mem_cons.mpr ⟨Bool.eq_false_iff.mpr hc, hfirst⟩
        · exact ih (heq ▸ List.mem_cons_of_mem _ h)

theorem exists_mem_splitWhere (h : c ∈ cs) (hc : p c = false) :
    ∃ part ∈ splitWhere p cs, c ∈ part := by
  induction cs with
  | nil => cases h
  | cons d cs ih =>
    rw [splitWhere]
    split
    · next hd =>
      have hmem : c ∈ cs := by
        rcases List.mem_cons.mp h with rfl | h
        · exact absurd hd (by simp [hc])
        · exact h
      obtain ⟨part, hpart, hmem⟩ := ih hmem
      exact ⟨part, List.mem_cons_of_mem _ hpart, hmem⟩
    · split
      · next heq => exact absurd heq (splitWhere_ne_nil p cs)
      · next first parts heq =>
        rcases List.mem_cons.mp h with rfl | h
        · exact ⟨_, List.mem_cons_self, List.mem_cons_self⟩
        · obtain ⟨part, hpart, hmem⟩ := ih h
          rw [heq] at hpart
          rcases List.mem_cons.mp hpart with rfl | hpart
          · exact ⟨_, List.mem_cons_self, List.mem_cons_of_mem _ hmem⟩
          · exact ⟨part, List.mem_cons_of_mem _ hpart, hmem⟩

theorem splitWhere_append_cons (hc : p c = true) (xs ys : List Char) :
    splitWhere p (xs ++ c :: ys) = splitWhere p xs ++ splitWhere p ys := by
  induction xs with
  | nil => simp [splitWhere, hc]
  | cons d xs ih =>
    rw [List.cons_append, splitWhere, splitWhere, ih]
    split
    · rfl
    · cases hxs : splitWhere p xs with
      | nil => exact absurd hxs (splitWhere_ne_nil p xs)
      | cons part parts => rfl

theorem splitWhere_of_forall (h : ∀ c ∈ cs, p c = false) : splitWhere p cs = [cs] := by
  induction cs with
  | nil => rfl
  | cons c cs ih =>
    obtain ⟨hc, hcs⟩ := List.forall_mem_cons.mp h
    rw [splitWhere, if_neg (Bool.eq_false_iff.mp hc), ih hcs]

theorem exists_splitWhere_append (p : Char → Bool) (xs : List Char) :
    ∃ parts part, ∀ cs, (∀ c ∈ cs, p c = false) →
      splitWhere p (xs ++ cs) = parts ++ [part ++ cs] := by
  induction xs with
  | nil => exact ⟨[], [], fun cs h => splitWhere_of_forall h⟩
  | cons d xs ih =>
    obtain ⟨parts, part, ih⟩ := ih
    by_cases hd : p d = true
    · refine ⟨[] :: parts, part, fun cs h => ?_⟩
      rw [List.cons_append, splitWhere, if_pos hd, ih cs h, List.cons_append]
    · cases parts with
      | nil =>
        refine ⟨[], d :: part, fun cs h => ?_⟩
        rw [List.cons_append, splitWhere, if_neg hd, ih cs h]
        rfl
      | cons first parts =>
        refine ⟨(d :: first) :: parts, part, fun cs h => ?_⟩
        rw [List.cons_append, splitWhere, if_neg hd, ih cs h]
        rfl

theorem eq_of_cutAt? (h : cutAt? pattern cs = some (before, after)) :
    cs = before ++ pattern ++ after := by
  induction cs generalizing before after with
  | nil =>
    rw [cutAt?] at h
    split at h
    · next hp =>
      cases h
      rw [hp]
      rfl
    · cases h
  | cons c cs ih =>
    rw [cutAt?] at h
    split at h
    · next hprefix =>
      cases h
      obtain ⟨rest, hrest⟩ := List.isPrefixOf_iff_prefix.mp hprefix
      rw [← hrest, List.drop_left, List.nil_append]
    · obtain ⟨⟨b, a⟩, hcut, he⟩ := Option.map_eq_some_iff.mp h
      cases he
      rw [ih hcut]
      rfl

theorem mem_of_contains (h : contains pattern cs = true) (hc : c ∈ pattern) : c ∈ cs := by
  obtain ⟨⟨before, after⟩, hcut⟩ := Option.isSome_iff_exists.mp h
  rw [eq_of_cutAt? hcut]
  exact List.mem_append_left _ (List.mem_append_right _ hc)

theorem replaceAll_of_not_contains (hp : pattern ≠ []) (replacement : List Char)
    (h : contains pattern cs = false) : replaceAll pattern hp replacement cs = cs := by
  rw [replaceAll.eq_def]
  split
  · rfl
  · next hcut =>
    rw [contains, hcut] at h
    cases h

theorem cutAt?_self (hp : pattern ≠ []) : cutAt? pattern pattern = some ([], []) := by
  cases pattern with
  | nil => exact absurd rfl hp
  | cons c cs =>
    have hprefix : (c :: cs).isPrefixOf (c :: cs) = true :=
      List.isPrefixOf_iff_prefix.mpr (List.prefix_refl _)
    rw [cutAt?, if_pos hprefix, List.drop_length]

theorem replaceAll_self (hp : pattern ≠ []) (replacement : List Char) :
    replaceAll pattern hp replacement pattern = replacement := by
  have hnil : contains pattern [] = false := by
    rw [contains, cutAt?, if_neg hp]
    rfl
  rw [replaceAll.eq_def]
  split
  · next hcut =>
    rw [cutAt?_self hp] at hcut
    cases hcut
  · next hcut =>
    rw [cutAt?_self hp] at hcut
    cases hcut
    rw [replaceAll_of_not_contains hp replacement hnil, List.nil_append, List.append_nil]

end StockGate.Text
