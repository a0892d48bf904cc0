import StockGate.Proofs.Breaker.Window

namespace StockGate
namespace BreakerSession

variable {s s' : BreakerSession} {holder : String} {permit : Permit} {p : Policy}
  {H : List Sample} {act : BreakerStep}

/-- The outcome that a step hands to a closed circuit. -/
def outcome? (s : BreakerSession) : BreakerStep → Option Sample
  | .report holder success =>
    if s.breaker.state = .closed ∧ (s.holding? holder).isSome then some ⟨s.now, !success⟩
    else none
  | _ => none

/-- The history after a step from `s` to `s'`. A circuit that closes begins a new one. -/
def remember (H : List Sample) (s s' : BreakerSession) (step : BreakerStep) : List Sample :=
  if s.breaker.state ≠ .closed ∧ s'.breaker.state = .closed then []
  else H ++ (s.outcome? step).toList

/-- The outcomes recorded while the circuit was closed, since it last closed or since the start. -/
def outcomes (steps : List BreakerStep) : List Sample :=
  (steps.foldl (fun x step => (x.1.step step, remember x.2 x.1 (x.1.step step) step))
    (({}, []) : BreakerSession × List Sample)).2

theorem outcomes_append (steps : List BreakerStep) (step : BreakerStep) :
    outcomes (steps ++ [step]) =
      remember (outcomes steps) (run steps) (run (steps ++ [step])) step := by
  rw [run_append, outcomes, List.foldl_append, List.foldl_cons, List.foldl_nil, fst_foldl]
  rfl

/-- The history of a run under one policy, and the window as a view of it. -/
structure Watched (p : Policy) (s : BreakerSession) (H : List Sample) : Prop where
  sorted : Window.Sorted H
  past : ∀ o ∈ H, o.time ≤ s.now
  window : s.breaker.state = .closed →
    ∃ t ≤ s.now, s.breaker.window = Window.view H t p.samplingWindow
  policy : ∀ x ∈ s.held, x.2.policy = p

theorem Watched.sorted_append (h : Watched p s H) (failed : Bool) :
    Window.Sorted (H ++ [⟨s.now, failed⟩]) :=
  h.sorted.concat h.past failed

theorem Watched.past_append (h : Watched p s H) (failed : Bool) :
    ∀ o ∈ H ++ [(⟨s.now, failed⟩ : Sample)], o.time ≤ s.now :=
  Window.past_concat h.past failed

theorem Watched.policy_without (h : Watched p s H) (holder : String) :
    ∀ x ∈ (s.without holder).held, x.2.policy = p :=
  fun x hx => h.policy x (List.mem_of_mem_filter hx)

theorem Watched.policy_of_holding (h : Watched p s H) (hh : s.holding? holder = some permit) :
    permit.policy = p := by
  obtain ⟨l₁, l₂, hl, -⟩ := List.lookup_eq_some_iff.mp hh
  exact h.policy (holder, permit) (by simp [hl])

theorem Watched.windowAfter_eq (h : Watched p s H) (hs : s.breaker.state = .closed)
    (success : Bool) : s.breaker.windowAfter s.now p success =
      Window.view (H ++ [⟨s.now, !success⟩]) s.now p.samplingWindow := by
  obtain ⟨t, ht, hw⟩ := h.window hs
  rw [Breaker.windowAfter, hw]
  exact Window.push_prune_view h.sorted ht (!success)

theorem outcome?_report (hh : s.holding? holder = some permit) (success : Bool) :
    s.outcome? (.report holder success) =
      if s.breaker.state = .closed then some ⟨s.now, !success⟩ else none := by
  simp [outcome?, hh]

theorem remember_of_closed (hs : s.breaker.state = .closed) :
    remember H s s' act = H ++ (s.outcome? act).toList := by
  simp [remember, hs]

theorem remember_of_none (ho : s.outcome? act = none)
    (hs : s'.breaker.state = .closed → s.breaker.state = .closed) :
    remember H s s' act = H := by
  have hc : ¬ (s.breaker.state ≠ .closed ∧ s'.breaker.state = .closed) := fun hc => hc.1 (hs hc.2)
  rw [remember, if_neg hc, ho]
  exact List.append_nil H

theorem Watched.keep (h : Watched p s H) (ho : s.outcome? act = none) (hnow : s.now ≤ s'.now)
    (hb : s'.breaker.state = .closed →
      s.breaker.state = .closed ∧ s'.breaker.window = s.breaker.window)
    (hpolicy : ∀ x ∈ s'.held, x.2.policy = p) : Watched p s' (remember H s s' act) := by
  rw [remember_of_none ho fun hs => (hb hs).1]
  refine ⟨h.sorted, fun o hm => Nat.le_trans (h.past o hm) hnow, ?_, hpolicy⟩
  intro hs
  obtain ⟨hs, hw⟩ := hb hs
  obtain ⟨t, ht, hview⟩ := h.window hs
  exact ⟨t, Nat.le_trans ht hnow, hw.trans hview⟩

theorem Watched.record {success : Bool} {b : Breaker} {t : Option Transition} (h : Watched p s H)
    (hh : s.holding? holder = some permit) (hr : s.breaker.Recording s.now permit success b t) :
    Watched p ((s.without holder).update b t)
      (remember H s ((s.without holder).update b t) (.report holder success)) := by
  have hpolicy := h.policy_without holder
  have ho := outcome?_report hh success
  cases hr with
  | close _ hs =>
    have hc : remember H s ((s.without holder).update {} (some ⟨.halfOpen, .closed⟩))
        (.report holder success) = [] := by
      rw [remember, if_pos ⟨by rw [hs]; exact nofun, rfl⟩]
    rw [hc]
    exact ⟨List.Pairwise.nil, nofun,
      fun _ => ⟨s.now, Nat.le_refl s.now, Window.view_nil.symm⟩, hpolicy⟩
  | reopen _ hs =>
    rw [if_neg (by rw [hs]; exact nofun)] at ho
    exact h.keep ho (Nat.le_refl s.now) nofun hpolicy
  | trip _ hs =>
    rw [remember_of_closed hs, ho, if_pos hs]
    exact ⟨h.sorted_append _, h.past_append _, nofun, hpolicy⟩
  | count _ hs =>
    rw [remember_of_closed hs, ho, if_pos hs, h.policy_of_holding hh]
    exact ⟨h.sorted_append _, h.past_append _,
      fun _ => ⟨s.now, Nat.le_refl s.now, h.windowAfter_eq hs success⟩, hpolicy⟩
  | late _ hs =>
    rw [if_neg hs] at ho
    exact h.keep ho (Nat.le_refl s.now) (fun hc => ⟨hc, rfl⟩) hpolicy

theorem Watched.step (hsound : s.Sound) (h : Watched p s H)
    (hp : ∀ holder q, act = .ask holder q → q = p) :
    Watched p (s.step act) (remember H s (s.step act) act) := by
  have hstride := hsound.stride act
  generalize s.step act = s' at hstride ⊢
  cases hstride with
  | refuse => exact h.keep rfl (Nat.le_refl s.now) (fun hs => ⟨hs, rfl⟩) h.policy
  | @grant holder q permit b t he =>
    obtain rfl := hp holder q rfl
    have hpolicy : ∀ x ∈ (holder, permit) :: (s.without holder).held, x.2.policy = q := by
      intro x hx
      rcases List.mem_cons.mp hx with rfl | hx
      · cases he with
        | pass => rfl
        | probe => rfl
      · exact h.policy_without holder x hx
    cases he with
    | pass hs => exact h.keep rfl (Nat.le_refl s.now) (fun _ => ⟨hs, rfl⟩) hpolicy
    | probe hs => exact h.keep rfl (Nat.le_refl s.now) nofun hpolicy
  | record hh hr => exact h.record hh hr
  | @giveUp holder permit =>
    exact h.keep rfl (Nat.le_refl s.now) (fun hs => ⟨hs, rfl⟩) (h.policy_without holder)
  | @abandon holder permit b t hh hprobe hr =>
    -- A probe given up counts as failed, so it closes nothing and adds nothing to the window.
    have hb : b.state ≠ .closed := by
      cases hr with
      | close _ _ hok => cases hok
      | reopen => exact nofun
      | trip hp => rw [hprobe] at hp; cases hp
      | count hp => rw [hprobe] at hp; cases hp
      | late _ hs => exact hs
    exact h.keep rfl (Nat.le_refl s.now) (fun hs => absurd hs hb) (h.policy_without holder)
  | @reportNone holder success hh =>
    have ho : s.outcome? (.report holder success) = none := by simp [outcome?, hh]
    exact h.keep ho (Nat.le_refl s.now) (fun hs => ⟨hs, rfl⟩) h.policy
  | dropNone => exact h.keep rfl (Nat.le_refl s.now) (fun hs => ⟨hs, rfl⟩) h.policy
  | wait ms => exact h.keep rfl (Nat.le_add_right s.now ms) (fun hs => ⟨hs, rfl⟩) h.policy

theorem watched_run {steps : List BreakerStep}
    (hp : ∀ holder q, .ask holder q ∈ steps → q = p) : Watched p (run steps) (outcomes steps) := by
  induction steps using List.reverseRecOn with
  | nil =>
    exact ⟨List.Pairwise.nil, nofun, fun _ => ⟨0, Nat.le_refl 0, Window.view_nil.symm⟩, nofun⟩
  | append_singleton steps step ih =>
    have hw := ih fun holder q hm => hp holder q (List.mem_append_left _ hm)
    rw [outcomes_append, run_append]
    apply hw.step (sound_run steps)
    intro holder q hs
    exact hp holder q (by simp [hs])

theorem trips_eq_true_iff (w : Window) (success : Bool) (p : Policy) :
    Breaker.trips w success p = true ↔ success = false ∧
      p.failureThreshold.toNat ≤ w.failures ∧ p.minimumThroughput.toNat ≤ w.length := by
  simp [Breaker.trips, and_assoc]

theorem report_of_closed (success : Bool) (hsound : s.Sound) (hs : s.breaker.state = .closed)
    (hh : s.holding? holder = some permit) :
    (s.report holder success).breaker.window =
        s.breaker.windowAfter s.now permit.policy success ∧
      ((s.report holder success).breaker.state = .opened ↔ Breaker.trips
        (s.breaker.windowAfter s.now permit.policy success) success permit.policy = true) := by
  have hstride := hsound.stride (.report holder success)
  rw [BreakerSession.step] at hstride
  generalize s.report holder success = s' at hstride ⊢
  cases hstride with
  | @record _ _ permit' b t hh' hr =>
    obtain rfl : permit = permit' := Option.some.inj (hh.symm.trans hh')
    cases hr with
    | close _ hs' => rw [hs] at hs'; cases hs'
    | reopen _ hs' => rw [hs] at hs'; cases hs'
    | trip _ _ ht => exact ⟨rfl, fun _ => ht, fun _ => rfl⟩
    | count _ _ ht =>
      refine ⟨rfl, fun hc => ?_, fun hc => ?_⟩
      · exact absurd (hs.symm.trans hc) (by decide)
      · rw [ht] at hc
        cases hc
    | late _ hs' => exact absurd hs hs'
  | reportNone hh' => rw [hh] at hh'; cases hh'

/-- When a call reports to a closed circuit in a run under one policy, the circuit opens just if the
newest outcomes of the whole history that are not too old speak for it, and they are what the
window then shows. -/
theorem window_refines_history {p : Policy} {steps : List BreakerStep} {holder : String}
    {permit : Permit} (success : Bool) (hp : ∀ holder q, .ask holder q ∈ steps → q = p)
    (hh : (run steps).holding? holder = some permit)
    (hs : (run steps).breaker.state = .closed) :
    let now := (run steps).now
    let H := outcomes (steps ++ [.report holder success])
    let W := (H.filter fun o => now ≤ o.time + p.samplingWindow).rtake 4096
    let after := (run (steps ++ [.report holder success])).breaker
    H = outcomes steps ++ [⟨now, !success⟩] ∧
    (after.state = .opened ↔ success = false ∧
      p.failureThreshold.toNat ≤ W.countP Sample.failed ∧
      p.minimumThroughput.toNat ≤ W.length) ∧
    after.window.failures = W.countP Sample.failed ∧ after.window.length = W.length ∧
    after.window.start? = W.head?.map Sample.time := by
  have hw := watched_run hp
  have hH : outcomes (steps ++ [.report holder success]) =
      outcomes steps ++ [⟨(run steps).now, !success⟩] := by
    rw [outcomes_append, remember_of_closed hs, outcome?_report hh, if_pos hs]
    rfl
  obtain ⟨hwindow, hopened⟩ := report_of_closed success (sound_run steps) hs hh
  rw [hw.policy_of_holding hh, hw.windowAfter_eq hs] at hwindow hopened
  rw [trips_eq_true_iff] at hopened
  have hrun : run (steps ++ [.report holder success]) = (run steps).report holder success :=
    run_append steps _
  intro now H W after
  -- All three numbers are read off the same window, which is the view of the longer history.
  have hW : after.window = W := by
    rw [show after = ((run steps).report holder success).breaker from congrArg breaker hrun,
      hwindow, ← hH]
    rfl
  refine ⟨hH, ?_, ?_, ?_, ?_⟩
  · rw [show after = ((run steps).report holder success).breaker from congrArg breaker hrun,
      hopened, ← hH]
    rfl
  · exact congrArg Window.failures hW
  · exact congrArg List.length hW
  · exact congrArg Window.start? hW

/-- A failure that is just as old as the window still counts, and with a second one the circuit
opens. -/
theorem window_refines_history_at_age :
    let p : Policy := { failureThreshold := 2, minimumThroughput := 2, samplingWindowMs := 10 }
    let steps : List BreakerStep :=
      [.ask "a" p, .ask "b" p, .report "a" false, .wait 10]
    (∀ holder q, .ask holder q ∈ steps → q = p) ∧ (run steps).holding? "b" = some ⟨p, false⟩ ∧
      (run steps).breaker.state = .closed ∧
      (run (steps ++ [.report "b" false])).breaker.state = .opened := by
  intro p steps
  have hp : ∀ holder q, .ask holder q ∈ steps → q = p := by
    intro holder q hm
    simp only [steps, List.mem_cons, BreakerStep.ask.injEq] at hm
    rcases hm with ⟨-, rfl⟩ | ⟨-, rfl⟩ | hm
    · rfl
    · rfl
    · simp at hm
  have hh : (run steps).holding? "b" = some ⟨p, false⟩ := by decide
  have hs : (run steps).breaker.state = .closed := by decide
  refine ⟨hp, hh, hs, ?_⟩
  exact (window_refines_history false hp hh hs).2.1.mpr (by decide)

end BreakerSession
end StockGate
