import StockGate.Proofs.Breaker.History
import StockGate.Settings.Check

namespace StockGate

/-- The number of failures in a row after which a circuit should be open. -/
def Policy.burst (p : Policy) : Nat :=
  max p.failureThreshold.toNat p.minimumThroughput.toNat

namespace BreakerSession

variable {s s' : BreakerSession} {steps : List BreakerStep} {step : BreakerStep}
  {holder : String} {permit : Permit} {p : Policy} {n : Nat}

/-- From `s` on the steps record `n` outcomes, all of them failures of calls under the policy. -/
inductive Failing (p : Policy) : BreakerSession → List BreakerStep → Nat → Prop
  | nil {s : BreakerSession} : Failing p s [] 0
  | fail {s : BreakerSession} {holder : String} {permit : Permit} {steps : List BreakerStep}
      {n : Nat} (hh : s.holding? holder = some permit) (hp : permit.policy = p)
      (rest : Failing p (s.step (.report holder false)) steps n) :
      Failing p s (.report holder false :: steps) (n + 1)
  | pass {s : BreakerSession} {step : BreakerStep} {steps : List BreakerStep} {n : Nat}
      (hstep : ∀ holder success, step = .report holder success → s.holding? holder = none)
      (rest : Failing p (s.step step) steps n) : Failing p s (step :: steps) n

/-- A closed circuit with an empty window, and then as many failures in a row as the policy asks for,
within one sampling window. -/
structure Burst (p : Policy) (before burst : List BreakerStep) : Prop where
  closed : (run before).breaker.state = .closed
  empty : (run before).breaker.window = []
  failing : ∃ n, Failing p (run before) burst n ∧ p.burst ≤ n
  quick : (run (before ++ burst)).now ≤ (run before).now + p.samplingWindow

theorem trips_eq_false_of_capacity_lt {w : Window} (hw : w.length ≤ Window.capacity)
    (hp : Window.capacity < p.burst) (success : Bool) : Breaker.trips w success p = false := by
  rw [Bool.eq_false_iff, Ne, trips_eq_true_iff]
  rintro ⟨-, hf, hn⟩
  have hle : w.failures ≤ w.length := List.countP_le_length
  rw [Policy.burst] at hp
  omega

/-- Under a policy that asks for more outcomes than the window holds the circuit never opens. -/
theorem closed_of_capacity_lt (hp : Window.capacity < p.burst)
    (hsteps : ∀ holder q, .ask holder q ∈ steps → q = p) :
    (run steps).breaker.state = .closed := by
  induction steps using List.reverseRecOn with
  | nil => rfl
  | append_singleton steps step ih =>
    have hsteps' : ∀ holder q, .ask holder q ∈ steps → q = p :=
      fun holder q hm => hsteps holder q (List.mem_append_left _ hm)
    have hs := ih hsteps'
    have hst := (sound_run steps).stride step
    rw [run_append]
    generalize (run steps).step step = s' at hst ⊢
    cases hst with
    | refuse | giveUp | reportNone | dropNone | wait => exact hs
    | grant he =>
      cases he with
      | pass => exact hs
      | probe ho => exact absurd (ho.symm.trans hs) nofun
    | record hh hr =>
      cases hr with
      | close => rfl
      | count => exact hs
      | reopen _ ho => exact absurd (ho.symm.trans hs) nofun
      | late _ ho => exact absurd hs ho
      | trip _ _ ht =>
        -- The window is a view of the history, which never exceeds the capacity.
        have hw := watched_run hsteps'
        rw [hw.policy_of_holding hh, hw.windowAfter_eq hs, trips_eq_false_of_capacity_lt] at ht
        · cases ht
        · exact Window.length_rtake_le _ _
        · exact hp
    | abandon hh hprobe =>
      have ho := halfOpen_of_holding (sound_run steps) hh hprobe
      exact absurd (ho.symm.trans hs) nofun

/-- The window holds `n` outcomes, all of them failures since `start`. -/
structure Filling (start : Nat) (w : Window) (n : Nat) : Prop where
  length : w.length = n
  failed : ∀ o ∈ w, o.failed = true
  fresh : ∀ o ∈ w, start ≤ o.time

variable {start now span : Nat} {w : Window}

theorem filling_nil (start : Nat) : Filling start [] 0 :=
  ⟨rfl, nofun, nofun⟩

theorem Filling.concat (h : Filling start w n) (hnow : start ≤ now) :
    Filling start (w ++ [⟨now, true⟩]) (n + 1) where
  length := by rw [List.length_append, h.length, List.length_singleton]
  failed := by
    intro o ho
    rcases List.mem_append.mp ho with ho | ho
    · exact h.failed o ho
    · rw [List.mem_singleton.mp ho]
  fresh := by
    intro o ho
    rcases List.mem_append.mp ho with ho | ho
    · exact h.fresh o ho
    · rw [List.mem_singleton.mp ho]
      exact hnow

theorem Filling.push_prune (h : Filling start w n) (hroom : n < Window.capacity)
    (hnow : now ≤ start + span) (failed : Bool) :
    (w.prune now span).push ⟨now, failed⟩ = w ++ [⟨now, failed⟩] := by
  -- Nothing is too old, and there is still room.
  have hprune : w.prune now span = w := by
    cases w with
    | nil => rfl
    | cons o w =>
      have ho := h.fresh o List.mem_cons_self
      exact List.dropWhile_cons_of_neg (by simp only [decide_eq_true_eq]; omega)
  rw [hprune, Window.push, h.length, if_neg (Nat.not_le.mpr hroom)]

theorem Filling.trips_iff (h : Filling start w n) (p : Policy) :
    Breaker.trips w false p = true ↔ p.burst ≤ n := by
  have hf : w.failures = n := (List.countP_eq_length.mpr h.failed).trans h.length
  rw [trips_eq_true_iff, hf, h.length, Policy.burst, Nat.max_le]
  exact and_iff_right rfl

theorem Stride.now_le (hst : s.Stride step s') : s.now ≤ s'.now := by
  cases hst with
  | wait ms => exact Nat.le_add_right s.now ms
  | _ => exact Nat.le_refl s.now

theorem Sound.now_le_foldl (h : s.Sound) (steps : List BreakerStep) :
    s.now ≤ (steps.foldl BreakerSession.step s).now := by
  induction steps generalizing s with
  | nil => exact Nat.le_refl s.now
  | cons step steps ih => exact Nat.le_trans (h.stride step).now_le (ih (h.step step))

theorem Stride.breaker_eq_of_closed (h : s.Sound) (hst : s.Stride step s')
    (hs : s.breaker.state = .closed)
    (hstep : ∀ holder success, step = .report holder success → s.holding? holder = none) :
    s'.breaker = s.breaker := by
  cases hst with
  | refuse | giveUp | reportNone | dropNone | wait => rfl
  | grant he =>
    cases he with
    | pass => rfl
    | probe ho => exact absurd (ho.symm.trans hs) nofun
  | record hh => exact absurd (hh.symm.trans (hstep _ _ rfl)) nofun
  | abandon hh hprobe => exact absurd ((halfOpen_of_holding h hh hprobe).symm.trans hs) nofun

theorem Stride.not_closed (hst : s.Stride step s') (hs : s.breaker.state ≠ .closed)
    (hstep : ∀ holder, step = .report holder true → s.holding? holder = none) :
    s'.breaker.state ≠ .closed := by
  cases hst with
  | refuse | giveUp | reportNone | dropNone | wait => exact hs
  | grant he =>
    cases he with
    | pass hc => exact absurd hc hs
    | probe => exact nofun
  | record hh hr =>
    cases hr with
    | close _ _ hok =>
      subst hok
      exact absurd (hh.symm.trans (hstep _ rfl)) nofun
    | reopen => exact nofun
    | trip _ hc | count _ hc => exact absurd hc hs
    | late => exact hs
  | abandon _ _ hr =>
    cases hr with
    | close _ _ hok => cases hok
    | reopen => exact nofun
    | trip _ hc | count _ hc => exact absurd hc hs
    | late => exact hs

theorem Failing.not_closed (h : Failing p s steps n) (hsound : s.Sound)
    (hs : s.breaker.state ≠ .closed) :
    (steps.foldl BreakerSession.step s).breaker.state ≠ .closed := by
  induction h with
  | nil => exact hs
  | fail _ _ _ ih => exact ih (hsound.step _) ((hsound.stride _).not_closed hs nofun)
  | pass hstep _ ih =>
    exact ih (hsound.step _)
      ((hsound.stride _).not_closed hs fun holder he => hstep holder true he)

/-- One more failure opens the circuit or fills the window further. -/
theorem Filling.report (hsound : s.Sound) (hs : s.breaker.state = .closed)
    (hh : s.holding? holder = some permit) (hf : Filling start s.breaker.window n)
    (hroom : n < Window.capacity) (hstart : start ≤ s.now)
    (hnow : s.now ≤ start + permit.policy.samplingWindow) :
    (s.step (.report holder false)).breaker.state = .opened ∨
      (s.step (.report holder false)).breaker.state = .closed ∧ n + 1 < permit.policy.burst ∧
        Filling start (s.step (.report holder false)).breaker.window (n + 1) := by
  have hw : s.breaker.windowAfter s.now permit.policy false =
      s.breaker.window ++ [⟨s.now, true⟩] := hf.push_prune hroom hnow true
  have hmore : Filling start (s.breaker.windowAfter s.now permit.policy false) (n + 1) :=
    hw ▸ hf.concat hstart
  have hst := hsound.stride (.report holder false)
  generalize s.step (.report holder false) = s' at hst ⊢
  cases hst with
  | reportNone hh' => exact absurd (hh'.symm.trans hh) nofun
  | record hh' hr =>
    obtain rfl := Option.some.inj (hh.symm.trans hh')
    cases hr with
    | close _ ho | reopen _ ho => exact absurd (ho.symm.trans hs) nofun
    | trip => exact .inl rfl
    | late _ ho => exact absurd hs ho
    | count _ _ ht =>
      rw [Bool.eq_false_iff, Ne, hmore.trips_iff, Nat.not_le] at ht
      exact .inr ⟨hs, ht, hmore⟩

/-- The window fills up with the failures of a burst until they are enough. -/
theorem Failing.opens (h : Failing p s steps n) (hsound : s.Sound)
    (hs : s.breaker.state = .closed) {k : Nat} (hf : Filling start s.breaker.window k)
    (hk : k < p.burst) (hcap : p.burst ≤ Window.capacity) (hn : p.burst ≤ k + n)
    (hstart : start ≤ s.now)
    (hend : (steps.foldl BreakerSession.step s).now ≤ start + p.samplingWindow) :
    (∃ first rest, steps = first ++ rest ∧
      (first.foldl BreakerSession.step s).breaker.state = .opened) ∧
    (steps.foldl BreakerSession.step s).breaker.state ≠ .closed := by
  induction h generalizing k with
  | nil => exact absurd hk (Nat.not_lt.mpr hn)
  | @fail s holder permit steps n hh hp rest ih =>
    subst hp
    have hnext := hsound.step (.report holder false)
    have hnow := Nat.le_trans (hsound.now_le_foldl (.report holder false :: steps)) hend
    have hroom := Nat.lt_of_lt_of_le hk hcap
    rcases hf.report hsound hs hh hroom hstart hnow with hopened | ⟨hclosed, hk', hmore⟩
    · have hne : (s.step (.report holder false)).breaker.state ≠ .closed := by
        rw [hopened]
        exact nofun
      exact ⟨⟨[.report holder false], steps, rfl, hopened⟩, rest.not_closed hnext hne⟩
    · have hlater := Nat.le_trans hstart (hsound.stride (.report holder false)).now_le
      obtain ⟨⟨first, rest', hsplit, hopened⟩, hend'⟩ :=
        ih hnext hclosed hmore hk' (by omega) hlater hend
      exact ⟨⟨_ :: first, rest', by rw [hsplit]; rfl, hopened⟩, hend'⟩
  | @pass s step steps n hstep rest ih =>
    have hst := hsound.stride step
    have hb := hst.breaker_eq_of_closed hsound hs hstep
    have hclosed : (s.step step).breaker.state = .closed := hb ▸ hs
    have hwindow : Filling start (s.step step).breaker.window k := hb ▸ hf
    obtain ⟨⟨first, rest', hsplit, hopened⟩, hend'⟩ :=
      ih (hsound.step step) hclosed hwindow hk hn (Nat.le_trans hstart hst.now_le) hend
    exact ⟨⟨step :: first, rest', by rw [hsplit]; rfl, hopened⟩, hend'⟩

/-- A number of calls one after the other that all fail. -/
def failures (p : Policy) : Nat → List BreakerStep
  | 0 => []
  | n + 1 => .ask "caller" p :: .report "caller" false :: failures p n

theorem policy_of_mem_failures {q : Policy} (h : .ask holder q ∈ failures p n) : q = p := by
  induction n with
  | zero => cases h
  | succ n ih =>
    rcases List.mem_cons.mp h with h | h
    · exact (BreakerStep.ask.inj h).2
    · rcases List.mem_cons.mp h with h | h
      · cases h
      · exact ih h

theorem Sound.now_step (h : s.Sound) (step : BreakerStep) (hstep : ∀ ms, step ≠ .wait ms) :
    (s.step step).now = s.now := by
  have hst := h.stride step
  generalize s.step step = s' at hst ⊢
  cases hst with
  | wait ms => exact absurd rfl (hstep ms)
  | _ => rfl

theorem Sound.now_foldl_failures (h : s.Sound) (n : Nat) :
    ((failures p n).foldl BreakerSession.step s).now = s.now := by
  induction n generalizing s with
  | zero => rfl
  | succ n ih =>
    have hask := h.step (.ask "caller" p)
    rw [failures, List.foldl_cons, List.foldl_cons, ih (hask.step _),
      hask.now_step (.report "caller" false) (fun _ => nofun),
      h.now_step (.ask "caller" p) (fun _ => nofun)]

theorem Sound.holding?_ask_of_closed (h : s.Sound) (hs : s.breaker.state = .closed)
    (holder : String) (p : Policy) :
    (s.step (.ask holder p)).holding? holder = some ⟨p, false⟩ := by
  have hpass : s.breaker.Entry s.now p s.breaker (.granted ⟨p, false⟩) none := .pass hs
  have hst := h.stride (.ask holder p)
  generalize s.step (.ask holder p) = s' at hst ⊢
  cases hst with
  | refuse he => exact absurd (hpass.admission_eq he) nofun
  | grant he =>
    obtain rfl := Admission.granted.inj (hpass.admission_eq he)
    exact List.lookup_cons_self

theorem failing_failures (hp : Window.capacity < p.burst)
    (hsteps : ∀ holder q, .ask holder q ∈ steps → q = p) (n : Nat) :
    Failing p (run steps) (failures p n) n := by
  -- The circuit never opens, so every one of the failures is recorded.
  induction n generalizing steps with
  | zero => exact .nil
  | succ n ih =>
    have hs := closed_of_capacity_lt hp hsteps
    have hnext := @ih (steps ++ [.ask "caller" p] ++ [.report "caller" false]) (by
      intro holder q hq
      simp only [List.append_assoc, List.mem_append, List.mem_singleton, reduceCtorEq,
        or_false, BreakerStep.ask.injEq] at hq
      rcases hq with hq | ⟨-, rfl⟩
      · exact hsteps holder q hq
      · rfl)
    rw [run_append, run_append] at hnext
    exact .pass nofun (.fail ((sound_run steps).holding?_ask_of_closed hs "caller" p) rfl hnext)

theorem foldl_run (before steps : List BreakerStep) :
    steps.foldl BreakerSession.step (run before) = run (before ++ steps) := by
  rw [run, run, List.foldl_append]

theorem burst_failures (hp : Window.capacity < p.burst) : Burst p [] (failures p p.burst) where
  closed := rfl
  empty := rfl
  failing := by
    have hnone : ∀ holder q, .ask holder q ∈ ([] : List BreakerStep) → q = p := fun _ _ => nofun
    exact ⟨p.burst, failing_failures hp hnone _, Nat.le_refl _⟩
  quick := by
    rw [← foldl_run, (sound_run []).now_foldl_failures]
    exact Nat.le_add_right _ _

theorem failureThreshold_pos (hp : p.errors = []) : 0 < p.failureThreshold.toNat := by
  have hne : p.failureThreshold ≠ 0 := by
    intro hzero
    simp [Policy.errors, require, hzero] at hp
  have hne' : p.failureThreshold.toNat ≠ 0 := fun h => hne (UInt32.toNat_inj.mp h)
  omega

theorem burst_pos (hp : p.errors = []) : 0 < p.burst :=
  Nat.lt_of_lt_of_le (failureThreshold_pos hp) (Nat.le_max_left _ _)

/-- Of the policies that settings accept, just those within the capacity of the window make every
burst of failures open the circuit. -/
theorem burst_opens_iff (p : Policy) (hp : p.errors = []) :
    (∀ before burst, Burst p before burst →
      (∃ first rest, burst = first ++ rest ∧ (run (before ++ first)).breaker.state = .opened) ∧
      (run (before ++ burst)).breaker.state ≠ .closed) ↔ p.burst ≤ Window.capacity := by
  constructor
  · intro hopens
    by_contra hcap
    have hlt := Nat.lt_of_not_le hcap
    exact (hopens _ _ (burst_failures hlt)).2
      (closed_of_capacity_lt hlt fun _ _ => policy_of_mem_failures)
  · rintro hcap before burst ⟨hs, hempty, ⟨n, hfailing, hn⟩, hquick⟩
    have hf : Filling (run before).now (run before).breaker.window 0 := hempty ▸ filling_nil _
    rw [← foldl_run] at hquick
    have hopens := hfailing.opens (sound_run before) hs hf (burst_pos hp) hcap
      (by omega) (Nat.le_refl _) hquick
    simpa only [foldl_run] using hopens

/-- Two failures open the circuit if the second comes no more than ten milliseconds later. -/
def twice : Policy :=
  { failureThreshold := 2, minimumThroughput := 2, samplingWindowMs := 10 }

/-- The second failure comes at the very end of the sampling window. -/
theorem burst_opens_at_end_of_window :
    let steps : List BreakerStep :=
      [.ask "a" twice, .ask "b" twice, .report "a" false, .wait 10, .report "b" false]
    twice.errors = [] ∧ twice.burst ≤ Window.capacity ∧ Burst twice [] steps ∧
      ∃ first rest, steps = first ++ rest ∧ (run ([] ++ first)).breaker.state = .opened := by
  intro steps
  have hp : twice.errors = [] := by decide
  have hcap : twice.burst ≤ Window.capacity := by decide
  have hburst : Burst twice [] steps := by
    refine ⟨rfl, rfl, ⟨2, ?_, by decide⟩, by decide⟩
    refine .pass (fun _ _ => nofun) (.pass (fun _ _ => nofun) ?_)
    refine .fail (by decide : holding? _ "a" = some ⟨twice, false⟩) rfl ?_
    refine .pass (fun _ _ => nofun) ?_
    exact .fail (by decide : holding? _ "b" = some ⟨twice, false⟩) rfl .nil
  exact ⟨hp, hcap, hburst, ((burst_opens_iff twice hp).mpr hcap [] steps hburst).1⟩

/-- A policy that settings accept, and 4097 failures in a row that leave the circuit closed. -/
theorem closed_after_4097_failures :
    let p : Policy := { failureThreshold := 4097 }
    p.errors = [] ∧ Burst p [] (failures p 4097) ∧
      (run ([] ++ failures p 4097)).breaker.state = .closed := by
  intro p
  have hp : Window.capacity < p.burst := by decide
  have hburst : Burst p [] (failures p 4097) := burst_failures hp
  exact ⟨by decide, hburst, closed_of_capacity_lt hp fun _ _ => policy_of_mem_failures⟩

end BreakerSession
end StockGate
