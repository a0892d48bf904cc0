import StockGate.Proofs.Breaker.Capacity

namespace StockGate

/-- Either failures or outcomes are too few in the window for the policy to open the circuit. -/
def Window.Short (w : Window) (p : Policy) : Prop :=
  w.failures < p.failureThreshold.toNat ∨ w.length < p.minimumThroughput.toNat

instance (w : Window) (p : Policy) : Decidable (w.Short p) :=
  inferInstanceAs (Decidable (_ ∨ _))

namespace BreakerSession

variable {s s' : BreakerSession} {steps : List BreakerStep} {step : BreakerStep}
  {holder : String} {permit : Permit} {p : Policy} {success : Bool} {n start : Nat}

/-- In every run under the policy, an outcome of this kind opens the circuit if it leaves nothing
short: when the circuit is closed after it, the window is short of failures or of outcomes. -/
def CompletesOn (p : Policy) (success : Bool) : Prop :=
  ∀ steps holder permit, (∀ holder q, .ask holder q ∈ steps → q = p) →
    (run steps).holding? holder = some permit →
    (run (steps ++ [.report holder success])).breaker.state = .closed →
    (run (steps ++ [.report holder success])).breaker.window.Short p

/-- An outcome after which the circuit is closed is that of a probe, which empties the window, or
one that the window of a closed circuit counts. -/
theorem Sound.report_closed (h : s.Sound) (hh : s.holding? holder = some permit)
    (hs : (s.step (.report holder success)).breaker.state = .closed) :
    (s.step (.report holder success)).breaker.window = [] ∨
      s.breaker.state = .closed ∧
        (s.step (.report holder success)).breaker.window =
          s.breaker.windowAfter s.now permit.policy success ∧
        Breaker.trips (s.breaker.windowAfter s.now permit.policy success) success
          permit.policy = false := by
  have hst := h.stride (.report holder success)
  generalize s.step (.report holder success) = s' at hst hs ⊢
  cases hst with
  | reportNone hh' => exact absurd (hh'.symm.trans hh) nofun
  | record hh' hr =>
    obtain rfl := Option.some.inj (hh.symm.trans hh')
    cases hr with
    | close => exact .inl rfl
    | reopen | trip => exact absurd hs nofun
    | count _ hc ht => exact .inr ⟨hc, rfl, ht⟩
    | late _ hc => exact absurd hs hc

theorem Sound.closed_of_success (h : s.Sound) (hs : s.breaker.state = .closed) :
    (s.step (.report holder true)).breaker.state = .closed := by
  have hst := h.stride (.report holder true)
  generalize s.step (.report holder true) = s' at hst ⊢
  cases hst with
  | reportNone => exact hs
  | record hh hr =>
    cases hr with
    | close => rfl
    | reopen _ _ hok => cases hok
    | trip _ _ ht => cases ht
    | count | late => exact hs

theorem short_nil (hp : p.errors = []) : Window.Short [] p :=
  .inl (failureThreshold_pos hp)

theorem completesOn_failure (hp : p.errors = []) : CompletesOn p false := by
  intro steps holder permit hsteps hh hs
  rw [run_append] at hs ⊢
  have hpolicy := (watched_run hsteps).policy_of_holding hh
  rcases (sound_run steps).report_closed hh hs with hnil | ⟨-, hw, ht⟩
  · rw [hnil]
    exact short_nil hp
  · rw [hpolicy, Bool.eq_false_iff, Ne, trips_eq_true_iff] at ht
    rw [hw, hpolicy, Window.Short]
    have hnot : ¬ (p.failureThreshold.toNat ≤ _ ∧ p.minimumThroughput.toNat ≤ _) :=
      fun hboth => ht ⟨rfl, hboth⟩
    omega

theorem failures_windowAfter_le (b : Breaker) (now : Nat) (p : Policy) :
    (b.windowAfter now p true).failures ≤ b.window.failures := by
  have hprune : (b.window.prune now p.samplingWindow).failures ≤ b.window.failures :=
    (List.dropWhile_sublist _).countP_le
  have hdrop : Window.failures ((b.window.prune now p.samplingWindow).drop 1) ≤
      (b.window.prune now p.samplingWindow).failures :=
    (List.drop_sublist _ _).countP_le
  rw [Breaker.windowAfter, Window.push, Window.failures, List.countP_append]
  split
  · exact Nat.le_trans hdrop hprune
  · exact hprune

theorem failures_lt_of_not_trips {w : Window} (hfloor : p.minimumThroughput ≤ p.failureThreshold)
    (ht : Breaker.trips w false p = false) : w.failures < p.failureThreshold.toNat := by
  have hle : w.failures ≤ w.length := List.countP_le_length
  have hfloor' : p.minimumThroughput.toNat ≤ p.failureThreshold.toNat :=
    UInt32.le_iff_toNat_le.mp hfloor
  rw [Bool.eq_false_iff, Ne, trips_eq_true_iff] at ht
  by_contra hge
  exact ht ⟨rfl, by omega, by omega⟩

/-- Under such a policy a closed circuit has fewer failures in its window than the threshold. -/
theorem failures_lt_of_closed (hp : p.errors = [])
    (hfloor : p.minimumThroughput ≤ p.failureThreshold)
    (hsteps : ∀ holder q, .ask holder q ∈ steps → q = p)
    (hs : (run steps).breaker.state = .closed) :
    (run steps).breaker.window.failures < p.failureThreshold.toNat := by
  induction steps using List.reverseRecOn with
  | nil => exact failureThreshold_pos hp
  | append_singleton steps step ih =>
    have hsteps' : ∀ holder q, .ask holder q ∈ steps → q = p :=
      fun holder q hm => hsteps holder q (List.mem_append_left _ hm)
    have ih := ih hsteps'
    have hst := (sound_run steps).stride step
    rw [run_append] at hs ⊢
    generalize (run steps).step step = s' at hst hs ⊢
    cases hst with
    | refuse | giveUp | reportNone | dropNone | wait => exact ih hs
    | grant he =>
      cases he with
      | pass => exact ih hs
      | probe => exact absurd hs nofun
    | @record _ success _ _ _ hh hr =>
      have hpolicy := (watched_run hsteps').policy_of_holding hh
      cases hr with
      | close => exact failureThreshold_pos hp
      | reopen | trip => exact absurd hs nofun
      | late _ hc => exact absurd hs hc
      | count _ hc ht =>
        rw [hpolicy] at ht
        change ((run steps).breaker.windowAfter _ _ _).failures < _
        rw [hpolicy]
        cases success with
        | true => exact Nat.lt_of_le_of_lt (failures_windowAfter_le _ _ _) (ih hc)
        | false => exact failures_lt_of_not_trips hfloor ht
    | abandon hh hprobe hr =>
      cases hr with
      | close _ _ hok => cases hok
      | reopen => exact absurd hs nofun
      | trip hord | count hord => exact absurd (hprobe.symm.trans hord) nofun
      | late _ hc => exact absurd hs hc

theorem length_window_le (hsteps : ∀ holder q, .ask holder q ∈ steps → q = p)
    (hs : (run steps).breaker.state = .closed) :
    (run steps).breaker.window.length ≤ Window.capacity := by
  obtain ⟨t, -, hw⟩ := (watched_run hsteps).window hs
  rw [hw]
  exact Window.length_rtake_le _ _

theorem Filling.report_of_lt (hsound : s.Sound) (hs : s.breaker.state = .closed)
    (hh : s.holding? holder = some permit) (hf : Filling start s.breaker.window n)
    (hroom : n < Window.capacity) (hstart : start ≤ s.now)
    (hnow : s.now ≤ start + permit.policy.samplingWindow) (hn : n + 1 < permit.policy.burst) :
    (s.step (.report holder false)).breaker.state = .closed ∧
      Filling start (s.step (.report holder false)).breaker.window (n + 1) := by
  rcases hf.report hsound hs hh hroom hstart hnow with hopened | ⟨hclosed, -, hmore⟩
  · have htrips := (report_of_closed false hsound hs hh).2.mp hopened
    rw [Breaker.windowAfter, hf.push_prune hroom hnow, Bool.not_false,
      (hf.concat hstart).trips_iff] at htrips
    omega
  · exact ⟨hclosed, hmore⟩

theorem Sound.ask_of_closed (h : s.Sound) (hs : s.breaker.state = .closed) (holder : String)
    (p : Policy) :
    (s.step (.ask holder p)).breaker = s.breaker ∧ (s.step (.ask holder p)).now = s.now ∧
      (s.step (.ask holder p)).holding? holder = some ⟨p, false⟩ :=
  ⟨(h.stride (.ask holder p)).breaker_eq_of_closed h hs fun _ _ => nofun,
    h.now_step (.ask holder p) fun _ => nofun, h.holding?_ask_of_closed hs holder p⟩

theorem Filling.failures (hsound : s.Sound) (hs : s.breaker.state = .closed) {k : Nat}
    (hf : Filling s.now s.breaker.window k) (hcap : p.burst ≤ Window.capacity)
    (hn : k + n < p.burst) :
    ((BreakerSession.failures p n).foldl BreakerSession.step s).breaker.state = .closed ∧
      Filling s.now ((BreakerSession.failures p n).foldl BreakerSession.step s).breaker.window
        (k + n) := by
  induction n generalizing s k with
  | zero => exact ⟨hs, hf⟩
  | succ n ih =>
    -- The caller is let through, and its failure is counted in the same moment.
    let s₁ := s.step (.ask "caller" p)
    let s₂ := s₁.step (.report "caller" false)
    have hsound₁ : s₁.Sound := hsound.step _
    obtain ⟨hb, hnow₁, hheld⟩ : s₁.breaker = s.breaker ∧ s₁.now = s.now ∧
        s₁.holding? "caller" = some ⟨p, false⟩ := hsound.ask_of_closed hs "caller" p
    have hnow₂ : s₂.now = s.now :=
      (hsound₁.now_step (.report "caller" false) fun _ => nofun).trans hnow₁
    have hf₁ : Filling s₁.now s₁.breaker.window k := by rwa [hnow₁, hb]
    obtain ⟨hs₂, hf₂⟩ := hf₁.report_of_lt hsound₁ (hb ▸ hs) hheld (by omega) (Nat.le_refl _)
      (Nat.le_add_right _ _) (show k + 1 < p.burst by omega)
    have hf₂ : Filling s₂.now s₂.breaker.window (k + 1) := by rwa [hnow₂, ← hnow₁]
    obtain ⟨hs', hf'⟩ := ih (hsound₁.step _) hs₂ hf₂ (by omega)
    rw [hnow₂, Nat.add_assoc, Nat.add_comm 1 n] at hf'
    exact ⟨hs', hf'⟩

theorem not_completesOn_success (hlt : p.failureThreshold < p.minimumThroughput)
    (hcap : p.minimumThroughput.toNat ≤ Window.capacity) : ¬ CompletesOn p true := by
  have hlt' : p.failureThreshold.toNat < p.minimumThroughput.toNat := UInt32.lt_iff_toNat_lt.mp hlt
  have hburst : p.burst = p.minimumThroughput.toNat := Nat.max_eq_right (Nat.le_of_lt hlt')
  obtain ⟨n, hn⟩ : ∃ n, p.minimumThroughput.toNat = n + 1 := ⟨_, (Nat.succ_pred (by omega)).symm⟩
  -- All but one of the outcomes that the floor asks for are failures, and the last is a success.
  let before := BreakerSession.failures p n
  let steps := before ++ [.ask "caller" p]
  have hsteps : ∀ holder q, .ask holder q ∈ steps → q = p := by
    intro holder q hq
    rcases List.mem_append.mp hq with hq | hq
    · exact policy_of_mem_failures hq
    · exact (BreakerStep.ask.inj (List.mem_singleton.mp hq)).2
  obtain ⟨hs, hf⟩ : (run before).breaker.state = .closed ∧
      Filling 0 (run before).breaker.window (0 + n) :=
    (filling_nil 0).failures sound_new rfl (by omega) (by omega)
  rw [Nat.zero_add] at hf
  have hnow : (run before).now = 0 := sound_new.now_foldl_failures n
  have hrun : run steps = (run before).step (.ask "caller" p) := run_append before _
  obtain ⟨hb, hnow', hheld⟩ := (sound_run before).ask_of_closed hs "caller" p
  rw [← hrun] at hb hnow' hheld
  rw [hnow] at hnow'
  have hclosed : (run (steps ++ [.report "caller" true])).breaker.state = .closed := by
    rw [run_append]
    exact (sound_run steps).closed_of_success (hb ▸ hs)
  have hwindow : (run (steps ++ [.report "caller" true])).breaker.window =
      (run before).breaker.window ++ [⟨0, false⟩] := by
    rw [run_append]
    refine (report_of_closed true (sound_run steps) (hb ▸ hs) hheld).1.trans ?_
    rw [Breaker.windowAfter, hb, hnow', hf.push_prune (by omega) (Nat.zero_le _), Bool.not_true]
  intro hcompletes
  have hshort := hcompletes steps "caller" _ hsteps hheld hclosed
  have hfailures : (run before).breaker.window.failures = n :=
    (List.countP_eq_length.mpr hf.failed).trans hf.length
  rw [hwindow, Window.Short, Window.failures, List.countP_append, ← Window.failures, hfailures,
    List.length_append, hf.length] at hshort
  simp only [List.countP_singleton, List.length_singleton] at hshort
  omega

/-- A failure opens the circuit whenever it leaves the window short of nothing. A success never
opens it, so that both conditions can hold while the circuit is closed: of the policies that
settings accept, just those are safe from this whose floor is no higher than the threshold, or
higher than the capacity of the window. -/
theorem success_completes_iff (p : Policy) (hp : p.errors = []) :
    CompletesOn p false ∧
      (CompletesOn p true ↔
        p.minimumThroughput ≤ p.failureThreshold ∨
          Window.capacity < p.minimumThroughput.toNat) := by
  refine ⟨completesOn_failure hp, fun hcompletes => ?_, fun hpolicy => ?_⟩
  · by_contra hno
    rw [not_or, UInt32.not_le, Nat.not_lt] at hno
    exact not_completesOn_success hno.1 hno.2 hcompletes
  · intro steps holder permit hsteps hh hs
    have hsteps' : ∀ holder' q, .ask holder' q ∈ steps ++ [.report holder true] → q = p := by
      intro holder' q hq
      rcases List.mem_append.mp hq with hq | hq
      · exact hsteps holder' q hq
      · cases List.mem_singleton.mp hq
    rcases hpolicy with hfloor | hfloor
    · exact .inl (failures_lt_of_closed hp hfloor hsteps' hs)
    · exact .inr (Nat.lt_of_le_of_lt (length_window_le hsteps' hs) hfloor)

/-- Two failures are enough, but not before there are three outcomes. -/
def hesitant : Policy :=
  { failureThreshold := 2, minimumThroughput := 3 }

theorem success_completes_iff_hesitant :
    hesitant.errors = [] ∧ CompletesOn hesitant false ∧ ¬ CompletesOn hesitant true := by
  have hp : hesitant.errors = [] := by decide
  obtain ⟨hfailure, hsuccess⟩ := success_completes_iff hesitant hp
  exact ⟨hp, hfailure, fun h => absurd (hsuccess.mp h) (by decide)⟩

/-- Two failures and then a success: the window is short of nothing, and the circuit is closed. -/
theorem closed_with_both_conditions_met :
    let p := hesitant
    let steps : List BreakerStep :=
      [.ask "a" p, .report "a" false, .ask "a" p, .report "a" false, .ask "a" p]
    let after := (run (steps ++ [.report "a" true])).breaker
    p.errors = [] ∧ (run steps).holding? "a" = some ⟨p, false⟩ ∧ after.state = .closed ∧
      p.failureThreshold.toNat ≤ after.window.failures ∧
      p.minimumThroughput.toNat ≤ after.window.length := by
  decide

end BreakerSession

end StockGate
