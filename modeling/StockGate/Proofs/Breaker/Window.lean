import Mathlib.Data.List.DropRight
import StockGate.Proofs.Breaker.Session

namespace StockGate

namespace Window

variable {l H : List Sample} {now span : Nat}

def fresh (now span : Nat) (s : Sample) : Bool :=
  now ≤ s.time + span

/-- The part of a history that a window of unlimited memory would show. -/
def view (H : List Sample) (now span : Nat) : Window :=
  (H.filter (fresh now span)).rtake capacity

@[simp]
theorem view_nil : view [] now span = [] := by
  simp [view]

def Sorted (l : List Sample) : Prop :=
  l.Pairwise fun a b => a.time ≤ b.time

theorem Sorted.concat (h : Sorted l) (hpast : ∀ o ∈ l, o.time ≤ now) (failed : Bool) :
    Sorted (l ++ [⟨now, failed⟩]) := by
  rw [Sorted, List.pairwise_append]
  refine ⟨h, List.pairwise_singleton _ _, ?_⟩
  intro o ho s hs
  rw [List.mem_singleton.mp hs]
  exact hpast o ho

theorem past_concat (hpast : ∀ o ∈ l, o.time ≤ now) (failed : Bool) :
    ∀ o ∈ l ++ [(⟨now, failed⟩ : Sample)], o.time ≤ now := by
  intro o ho
  rcases List.mem_append.mp ho with ho | ho
  · exact hpast o ho
  · exact Nat.le_of_eq (congrArg Sample.time (List.mem_singleton.mp ho))

theorem rtake_append {α : Type} (l₁ l₂ : List α) (n : Nat) :
    (l₁ ++ l₂).rtake n = l₁.drop (l₁.length + l₂.length - n) ++ l₂.rtake n := by
  have hlen : l₁.length + l₂.length - n - l₁.length = l₂.length - n := by omega
  rw [List.rtake, List.rtake, List.drop_append, List.length_append, hlen]

theorem rtake_rtake {α : Type} (l : List α) {n m : Nat} (h : n ≤ m) :
    (l.rtake m).rtake n = l.rtake n := by
  have hlen : l.length - m + (l.length - (l.length - m) - n) = l.length - n := by omega
  rw [List.rtake, List.rtake, List.rtake, List.length_drop, List.drop_drop, hlen]

theorem length_rtake_le {α : Type} (l : List α) (n : Nat) : (l.rtake n).length ≤ n := by
  rw [List.rtake, List.length_drop]
  omega

theorem Sorted.split (h : Sorted l) (now span : Nat) : ∃ old new, l = old ++ new ∧
    (∀ s ∈ old, fresh now span s = false) ∧ ∀ s ∈ new, fresh now span s = true := by
  induction l with
  | nil => exact ⟨[], [], rfl, nofun, nofun⟩
  | cons a l ih =>
    rw [Sorted, List.pairwise_cons] at h
    by_cases ha : fresh now span a = true
    · refine ⟨[], a :: l, rfl, nofun, ?_⟩
      intro s hs
      rcases List.mem_cons.mp hs with rfl | hs
      · exact ha
      · have hle := h.1 s hs
        simp only [fresh, decide_eq_true_eq] at ha ⊢
        omega
    · obtain ⟨old, new, rfl, hold, hnew⟩ := ih h.2
      refine ⟨a :: old, new, rfl, ?_, hnew⟩
      intro s hs
      rcases List.mem_cons.mp hs with rfl | hs
      · simpa using ha
      · exact hold s hs

theorem filter_of_split {old new : List Sample}
    (hold : ∀ s ∈ old, fresh now span s = false) (hnew : ∀ s ∈ new, fresh now span s = true) :
    (old ++ new).filter (fresh now span) = new := by
  have ho : old.filter (fresh now span) = [] := by
    rw [List.filter_eq_nil_iff]
    intro s hs
    simp [hold s hs]
  rw [List.filter_append, ho, List.filter_eq_self.mpr hnew, List.nil_append]

theorem prune_eq_filter (h : Sorted l) (now span : Nat) :
    prune l now span = l.filter (fresh now span) := by
  -- In a sorted window the stale samples are all in front of the fresh ones.
  obtain ⟨old, new, rfl, hold, hnew⟩ := h.split now span
  have hstale : (fun s : Sample => decide (span < now - s.time)) = fun s => !fresh now span s := by
    funext s
    rw [fresh, ← decide_not, decide_eq_decide]
    omega
  rw [filter_of_split hold hnew, prune, hstale, List.dropWhile_append_of_pos]
  · cases new with
    | nil => rfl
    | cons s new => rw [List.dropWhile_cons_of_neg (by simp [hnew s])]
  · intro s hs
    simp [hold s hs]

theorem filter_rtake (h : Sorted l) (now span n : Nat) :
    (l.rtake n).filter (fresh now span) = (l.filter (fresh now span)).rtake n := by
  obtain ⟨old, new, rfl, hold, hnew⟩ := h.split now span
  rw [filter_of_split hold hnew, rtake_append]
  apply filter_of_split
  · intro s hs
    exact hold s (List.mem_of_mem_drop hs)
  · intro s hs
    exact hnew s (List.mem_of_mem_drop hs)

theorem rtake_capacity_concat (w : Window) (s : Sample) :
    (w ++ [s]).rtake capacity = w.rtake 4095 ++ [s] :=
  List.rtake_concat_succ w 4095 s

theorem push_eq_rtake {w : Window} (h : w.length ≤ capacity) (s : Sample) :
    w.push s = (w ++ [s]).rtake capacity := by
  rw [rtake_capacity_concat, push, List.rtake]
  rw [capacity] at h ⊢
  by_cases hfull : 4096 ≤ w.length
  · have hone : w.length - 4095 = 1 := by omega
    rw [if_pos hfull, hone]
  · have hzero : w.length - 4095 = 0 := by omega
    rw [if_neg hfull, hzero, List.drop_zero]

theorem filter_fresh_of_le {now' : Nat} (h : now ≤ now') :
    (H.filter (fresh now span)).filter (fresh now' span) = H.filter (fresh now' span) := by
  rw [List.filter_filter]
  congr 1
  funext s
  simp only [fresh, Bool.and_eq_left_iff_imp, decide_eq_true_eq]
  omega

/-- A window that was a view of the history is one again once a new outcome has been counted. -/
theorem push_prune_view {now' : Nat} (h : Sorted H) (hle : now ≤ now') (failed : Bool) :
    ((view H now span).prune now' span).push ⟨now', failed⟩ =
      view (H ++ [⟨now', failed⟩]) now' span := by
  have hsorted : Sorted (H.filter (fresh now span)) := h.sublist List.filter_sublist
  -- Pruning takes the view on to the later time, whatever was evicted before.
  have hview : (view H now span).prune now' span = view H now' span := by
    have hs : Sorted (view H now span) := hsorted.sublist (List.drop_sublist _ _)
    rw [prune_eq_filter hs, view, filter_rtake hsorted, filter_fresh_of_le hle, view]
  have hfresh : [(⟨now', failed⟩ : Sample)].filter (fresh now' span) = [⟨now', failed⟩] := by
    simp [fresh]
  have hlen : (view H now' span).length ≤ capacity := length_rtake_le _ capacity
  rw [hview, push_eq_rtake hlen, view, view, List.filter_append, hfresh, rtake_capacity_concat,
    rtake_capacity_concat, rtake_rtake _ (by decide)]

end Window

end StockGate
