import Mathlib.Data.List.Sort
import Mathlib.Data.String.Basic
import StockGate.Text.Map

namespace StockGate.TextMap

/-- The keys ascend, so none stands twice. -/
def Sorted (m : TextMap) : Prop :=
  m.entries.Pairwise fun e f => e.1 < f.1

variable {m n : TextMap} {l : List (String × String)} {e : String × String}

theorem sorted_empty : empty.Sorted :=
  List.Pairwise.nil

theorem lookup_cons_eq (key : String) (e : String × String) (l : List (String × String)) :
    List.lookup key (e :: l) = if key = e.1 then some e.2 else List.lookup key l := by
  by_cases h : key = e.1
  · rw [if_pos h, List.lookup_cons, beq_iff_eq.mpr h]
  · rw [if_neg h, List.lookup_cons, beq_eq_false_iff_ne.mpr h]

theorem lookup_insertEntry (key value k : String) (l : List (String × String)) :
    List.lookup k (insertEntry key value l) =
      if k = key then some value else List.lookup k l := by
  induction l with
  | nil => rw [insertEntry, lookup_cons_eq]
  | cons e l ih =>
    rw [insertEntry]
    split
    · rw [lookup_cons_eq]
    · split
      · next h => simp only [lookup_cons_eq, h]; split <;> rfl
      · next h =>
        rw [lookup_cons_eq, lookup_cons_eq, ih]
        by_cases hk : k = key
        · rw [if_neg (fun he => h (hk ▸ he)), if_pos hk, if_pos hk]
        · rw [if_neg hk, if_neg hk]

theorem get?_insert (m : TextMap) (key value k : String) :
    (m.insert key value).get? k = if k = key then some value else m.get? k :=
  lookup_insertEntry key value k m.entries

theorem get?_insertNew (m : TextMap) (key value k : String) :
    (m.insertNew key value).get? k = (m.get? k).or (if k = key then some value else none) := by
  unfold insertNew
  by_cases hk : k = key
  · rw [hk, if_pos rfl]
    cases h : m.get? key with
    | none => simp [get?_insert]
    | some old => simp [h]
  · rw [if_neg hk, Option.or_none]
    split
    · rfl
    · rw [get?_insert, if_neg hk]

theorem mem_insertEntry {key value : String} (h : e ∈ insertEntry key value l) :
    e.1 = key ∨ e ∈ l := by
  induction l with
  | nil => exact Or.inl (congrArg Prod.fst (List.mem_singleton.mp h))
  | cons f l ih =>
    rw [insertEntry] at h
    split at h
    · rcases List.mem_cons.mp h with rfl | h
      · exact Or.inl rfl
      · exact Or.inr h
    · split at h
      · rcases List.mem_cons.mp h with rfl | h
        · exact Or.inl rfl
        · exact Or.inr (List.mem_cons_of_mem _ h)
      · rcases List.mem_cons.mp h with rfl | h
        · exact Or.inr List.mem_cons_self
        · exact (ih h).imp_right (List.mem_cons_of_mem _)

theorem pairwise_insertEntry (key value : String) (h : l.Pairwise fun e f => e.1 < f.1) :
    (insertEntry key value l).Pairwise fun e f => e.1 < f.1 := by
  induction l with
  | nil => exact List.pairwise_singleton _ _
  | cons f l ih =>
    obtain ⟨hf, hl⟩ := List.pairwise_cons.mp h
    rw [insertEntry]
    split
    · next hlt =>
      apply List.pairwise_cons.mpr
      refine ⟨fun g hg => ?_, h⟩
      rcases List.mem_cons.mp hg with rfl | hg
      · exact hlt
      · exact String.lt_trans hlt (hf g hg)
    · next hge =>
      split
      · next heq => exact List.pairwise_cons.mpr ⟨fun g hg => heq ▸ hf g hg, hl⟩
      · next hne =>
        apply List.pairwise_cons.mpr
        refine ⟨fun g hg => ?_, ih hl⟩
        rcases mem_insertEntry hg with hg | hg
        · have hlt : f.1 < key := lt_of_le_of_ne (String.not_lt.mp hge) (Ne.symm hne)
          exact hg ▸ hlt
        · exact hf g hg

theorem Sorted.insert (h : m.Sorted) (key value : String) : (m.insert key value).Sorted :=
  pairwise_insertEntry key value h

theorem Sorted.insertNew (h : m.Sorted) (key value : String) : (m.insertNew key value).Sorted := by
  unfold TextMap.insertNew
  split
  · exact h
  · exact h.insert key value

theorem get?_foldl_insertNew (m : TextMap) (l : List (String × String)) (key : String) :
    (l.foldl (fun m e => m.insertNew e.1 e.2) m).get? key =
      (m.get? key).or (List.lookup key l) := by
  induction l generalizing m with
  | nil => simp
  | cons e l ih =>
    rw [List.foldl_cons, ih, get?_insertNew, Option.or_assoc, lookup_cons_eq]
    split <;> simp

theorem Sorted.foldl_insertNew (h : m.Sorted) (l : List (String × String)) :
    (l.foldl (fun m e => m.insertNew e.1 e.2) m).Sorted := by
  induction l generalizing m with
  | nil => exact h
  | cons e l ih => exact ih (h.insertNew e.1 e.2)

theorem lookup_eq_some_iff_mem (h : l.Pairwise fun e f => e.1 < f.1) :
    List.lookup e.1 l = some e.2 ↔ e ∈ l := by
  induction l with
  | nil => simp
  | cons f l ih =>
    obtain ⟨hf, hl⟩ := List.pairwise_cons.mp h
    rw [lookup_cons_eq, List.mem_cons]
    by_cases he : e.1 = f.1
    · -- Further on there are greater keys only.
      have hnot : e ∉ l := fun hmem => String.lt_irrefl _ (he ▸ hf e hmem)
      rw [if_pos he, Option.some.injEq, or_iff_left hnot, Prod.ext_iff]
      exact ⟨fun hv => ⟨he, hv.symm⟩, fun hv => hv.2.symm⟩
    · have hne : e ≠ f := fun hef => he (congrArg Prod.fst hef)
      rw [if_neg he, ih hl, or_iff_right hne]

theorem Sorted.ext (hm : m.Sorted) (hn : n.Sorted) (h : ∀ key, m.get? key = n.get? key) :
    m = n := by
  have : Std.Irrefl fun e f : String × String => e.1 < f.1 := ⟨fun e => String.lt_irrefl e.1⟩
  have : Std.Antisymm fun e f : String × String => e.1 < f.1 :=
    ⟨fun _ _ hef hfe => absurd hfe (String.lt_asymm hef)⟩
  have hentries : m.entries = n.entries := by
    apply List.Pairwise.eq_of_mem_iff hm hn
    intro e
    rw [← lookup_eq_some_iff_mem hm, ← lookup_eq_some_iff_mem hn]
    exact iff_of_eq (congrArg (· = some e.2) (h e.1))
  cases m
  cases n
  exact congrArg TextMap.mk hentries

end StockGate.TextMap
