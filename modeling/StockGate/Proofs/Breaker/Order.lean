import StockGate.Proofs.Breaker.Window

namespace StockGate

namespace Window

variable {w : Window} {now : Nat}

/-- Oldest first, nothing from the future, and no more than there is room for. -/
structure Ordered (w : Window) (now : Nat) : Prop where
  sorted : Sorted w
  past : ∀ o ∈ w, o.time ≤ now
  length : w.length ≤ capacity

/-- What becomes of a window that takes one more sample: only a full one forgets a sample, and that
is its oldest. -/
inductive Pushed (w : Window) (o : Sample) : Window → Prop
  | joined (hroom : w.length < capacity) : Pushed w o (w ++ [o])
  | replaced {oldest : Sample} {rest : Window} (hw : w = oldest :: rest)
      (hfull : w.length = capacity) (hold : ∀ s ∈ rest, oldest.time ≤ s.time) :
      Pushed w o (rest ++ [o])

theorem ordered_nil (now : Nat) : Ordered [] now :=
  ⟨List.Pairwise.nil, nofun, Nat.zero_le _⟩

theorem Ordered.later {now' : Nat} (h : w.Ordered now) (hle : now ≤ now') : w.Ordered now' :=
  ⟨h.sorted, fun o ho => Nat.le_trans (h.past o ho) hle, h.length⟩

theorem Ordered.sublist {w' : Window} (h : w.Ordered now) (hsub : List.Sublist w' w) :
    w'.Ordered now where
  sorted := List.Pairwise.sublist hsub h.sorted
  past := fun o ho => h.past o (hsub.subset ho)
  length := Nat.le_trans hsub.length_le h.length

theorem Ordered.prune (h : w.Ordered now) (time span : Nat) : (w.prune time span).Ordered now :=
  h.sublist (List.dropWhile_sublist _)

theorem Ordered.pushed (h : w.Ordered now) (o : Sample) : Pushed w o (w.push o) := by
  unfold push
  by_cases hfull : capacity ≤ w.length
  · rw [if_pos hfull]
    have hlength := Nat.le_antisymm h.length hfull
    cases w with
    | nil => exact absurd hfull (by decide)
    | cons oldest rest => exact .replaced rfl hlength (List.pairwise_cons.mp h.sorted).1
  · rw [if_neg hfull]
    exact .joined (Nat.lt_of_not_le hfull)

theorem Ordered.concat (h : w.Ordered now) (hroom : w.length < capacity) (failed : Bool) :
    Ordered (w ++ [⟨now, failed⟩]) now where
  sorted := h.sorted.concat h.past failed
  past := past_concat h.past failed
  length := by
    rw [List.length_append, List.length_singleton]
    exact hroom

theorem Ordered.push (h : w.Ordered now) (failed : Bool) : (w.push ⟨now, failed⟩).Ordered now := by
  have hpushed := h.pushed ⟨now, failed⟩
  generalize w.push ⟨now, failed⟩ = w' at hpushed ⊢
  cases hpushed with
  | joined hroom => exact h.concat hroom failed
  | replaced hw hfull =>
    subst hw
    exact (h.sublist (List.sublist_cons_self _ _)).concat (Nat.le_of_eq hfull) failed

theorem Ordered.prune_eq (h : w.Ordered now) (span : Nat) :
    w.prune now span = w.filter fun o => now - o.time ≤ span := by
  -- Nothing that is too old is left behind a sample that is not.
  rw [prune_eq_filter h.sorted]
  congr 1
  funext o
  rw [fresh, decide_eq_decide]
  omega

end Window

theorem Breaker.Recording.ordered {b b' : Breaker} {now : Nat} {permit : Permit} {success : Bool}
    {t : Option Transition} (hr : b.Recording now permit success b' t)
    (h : b.window.Ordered now) : b'.window.Ordered now := by
  cases hr with
  | close => exact Window.ordered_nil now
  | reopen | late => exact h
  | trip | count => exact (h.prune now permit.policy.samplingWindow).push (!success)

namespace BreakerSession

variable {s : BreakerSession}

theorem Sound.ordered_step (hsound : s.Sound) (h : s.breaker.window.Ordered s.now)
    (step : BreakerStep) : (s.step step).breaker.window.Ordered (s.step step).now := by
  have hst := hsound.stride step
  generalize s.step step = s' at hst ⊢
  cases hst with
  | refuse | giveUp | reportNone | dropNone => exact h
  | grant he =>
    cases he with
    | pass | probe => exact h
  | record _ hr => exact hr.ordered h
  | abandon _ _ hr => exact hr.ordered h
  | wait ms => exact h.later (Nat.le_add_right s.now ms)

theorem ordered_run (steps : List BreakerStep) :
    (run steps).breaker.window.Ordered (run steps).now := by
  induction steps using List.reverseRecOn with
  | nil => exact Window.ordered_nil 0
  | append_singleton steps step ih =>
    rw [run_append]
    exact (sound_run steps).ordered_step ih step

/-- Whatever policies its permits were granted under, the window of a breaker in use is in order.
So pruning it for any span leaves just the samples that are no older than that, and one more sample
then costs it at most the one that is the oldest. -/
theorem window_stays_in_order (steps : List BreakerStep) :
    let now := (run steps).now
    let w := (run steps).breaker.window
    Window.Sorted w ∧ (∀ o ∈ w, o.time ≤ now) ∧ w.length ≤ 4096 ∧
    ∀ span, w.prune now span = w.filter (fun o => now - o.time ≤ span) ∧
      ∀ o, Window.Pushed (w.prune now span) o ((w.prune now span).push o) := by
  have h := ordered_run steps
  refine ⟨h.sorted, h.past, h.length, fun span => ⟨h.prune_eq span, fun o => ?_⟩⟩
  exact (h.prune _ span).pushed o

end BreakerSession
end StockGate
