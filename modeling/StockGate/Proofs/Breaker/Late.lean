import StockGate.Proofs.Breaker.Session

namespace StockGate
namespace BreakerSession

variable {s s' : BreakerSession} {steps : List BreakerStep} {step : BreakerStep}
  {holder other : String} {permit : Permit}

/-- Whether the step gives the holder a new permit. -/
def grantsTo (s : BreakerSession) (holder : String) : BreakerStep → Bool
  | .ask other p =>
    match (s.ask other p).2 with
    | .granted _ => other = holder
    | .refused _ => false
  | _ => false

/-- How many moves the circuit had made when the holder got its latest permit. -/
def grantedAt (holder : String) (steps : List BreakerStep) : Nat :=
  (steps.foldl (fun x step =>
    (x.1.step step, if x.1.grantsTo holder step then x.1.moves.length else x.2))
    (({}, 0) : BreakerSession × Nat)).2

/-- The circuit has opened since the holder got its latest permit. -/
def OpenedSince (steps : List BreakerStep) (holder : String) : Prop :=
  ⟨.closed, .opened⟩ ∈ ((run steps).moves.drop (grantedAt holder steps)).map Prod.snd

instance : Decidable (OpenedSince steps holder) :=
  inferInstanceAs (Decidable (_ ∈ List.map _ _))

theorem grantedAt_append (holder : String) (steps : List BreakerStep) (step : BreakerStep) :
    grantedAt holder (steps ++ [step]) =
      if (run steps).grantsTo holder step then (run steps).moves.length
      else grantedAt holder steps := by
  rw [grantedAt, List.foldl_append, List.foldl_cons, List.foldl_nil, fst_foldl]
  rfl

theorem holding?_without_of_ne (h : other ≠ holder) :
    (s.without holder).holding? other = s.holding? other := by
  rw [holding?, holding?, without]
  induction s.held with
  | nil => rfl
  | cons x l ih =>
    obtain ⟨name, permit⟩ := x
    by_cases hn : name = holder
    · have hne : (other == name) = false := by simpa [hn] using h
      rw [List.filter_cons_of_neg (by simp [hn]), ih, List.lookup_cons, hne]
    · rw [List.filter_cons_of_pos (by simp [hn]), List.lookup_cons, List.lookup_cons, ih]

theorem holding?_without_self : (s.without holder).holding? holder = none := by
  rw [holding?, without, List.lookup_eq_none_iff]
  intro x hx
  have hne : x.1 ≠ holder := by simpa using List.of_mem_filter hx
  simpa using Ne.symm hne

theorem grantsTo_of_refused {p : Policy} {state : CircuitState} {t : Option Transition}
    {b : Breaker} (h : s.Sound) (he : s.breaker.Entry s.now p b (.refused state) t) :
    s.grantsTo other (.ask holder p) = false := by
  have ha : (s.ask holder p).2 = .refused state := by
    rw [ask_snd]
    exact (h.coherent.entry p).admission_eq he
  simp only [grantsTo, ha]

theorem holding?_of_without (hh : (s.without holder).holding? other = some permit) :
    s.holding? other = some permit := by
  by_cases hne : other = holder
  · subst hne
    rw [holding?_without_self] at hh
    cases hh
  · rwa [holding?_without_of_ne hne] at hh

/-- The circuit comes away from the closed state only by opening, and an ordinary permit that is out
while it is away was out before the step. -/
theorem Stride.ordinary (h : s.Sound) (hst : s.Stride step s')
    (hs : s'.breaker.state ≠ .closed) (hh : s'.holding? other = some permit)
    (hp : permit.probe = false) :
    s.holding? other = some permit ∧ s.grantsTo other step = false ∧
      (s.breaker.state = .closed → s'.moves = s.moves ++ [(s.now, ⟨.closed, .opened⟩)]) := by
  cases hst with
  | refuse he => exact ⟨hh, grantsTo_of_refused h he, fun hc => absurd hc hs⟩
  | @grant holder p new b t he hold =>
    cases he with
    | pass hc => exact absurd hc hs
    | probe ho =>
      by_cases hne : other = holder
      · subst hne
        rw [holding?, List.lookup_cons_self] at hh
        obtain rfl := Option.some.inj hh
        cases hp
      · have hother : (other == holder) = false := by simpa using hne
        rw [holding?, List.lookup_cons, hother] at hh
        refine ⟨holding?_of_without hh, ?_, fun hc => absurd (ho.symm.trans hc) nofun⟩
        simp only [grantsTo]
        split
        · simpa using Ne.symm hne
        · rfl
  | @record holder success old b t hh' hr =>
    refine ⟨holding?_of_without hh, rfl, fun hc => ?_⟩
    cases hr with
    | close _ ho | reopen _ ho => exact absurd (ho.symm.trans hc) nofun
    | trip => rfl
    | count => exact absurd hc hs
    | late _ ho => exact absurd hc ho
  | giveUp => exact ⟨holding?_of_without hh, rfl, fun hc => absurd hc hs⟩
  | @abandon holder old b t hh' hprobe hr =>
    refine ⟨holding?_of_without hh, rfl, fun hc => ?_⟩
    have ho := halfOpen_of_holding h hh' hprobe
    exact absurd (ho.symm.trans hc) nofun
  | reportNone | dropNone | wait => exact ⟨hh, rfl, fun hc => absurd hc hs⟩

theorem Stride.moves_eq (hst : s.Stride step s') : ∃ new, s'.moves = s.moves ++ new := by
  cases hst with
  | grant | record | abandon => exact ⟨_, rfl⟩
  | refuse | giveUp | reportNone | dropNone | wait => exact ⟨[], (List.append_nil _).symm⟩

theorem grantedAt_le (holder : String) (steps : List BreakerStep) :
    grantedAt holder steps ≤ (run steps).moves.length := by
  induction steps using List.reverseRecOn with
  | nil => exact Nat.le_refl 0
  | append_singleton steps step ih =>
    obtain ⟨new, hnew⟩ := ((sound_run steps).stride step).moves_eq
    rw [grantedAt_append, run_append, hnew, List.length_append]
    split <;> omega

/-- Every ordinary permit that is out while the circuit is open or half-open was granted before the
circuit last opened. -/
theorem openedSince_of_not_closed (hs : (run steps).breaker.state ≠ .closed)
    (hh : (run steps).holding? holder = some permit) (hp : permit.probe = false) :
    OpenedSince steps holder := by
  induction steps using List.reverseRecOn with
  | nil => exact absurd rfl hs
  | append_singleton steps step ih =>
    have hst := (sound_run steps).stride step
    obtain ⟨new, hnew⟩ := hst.moves_eq
    rw [run_append] at hs hh
    obtain ⟨hheld, hgrant, hopening⟩ := hst.ordinary (sound_run steps) hs hh hp
    rw [OpenedSince, grantedAt_append, hgrant, run_append, if_neg Bool.false_ne_true]
    by_cases hc : (run steps).breaker.state = .closed
    · rw [hopening hc, List.drop_append_of_le_length (grantedAt_le holder steps), List.map_append]
      exact List.mem_append_right _ (List.mem_singleton.mpr rfl)
    · rw [hnew, List.drop_append_of_le_length (grantedAt_le holder steps), List.map_append]
      exact List.mem_append_left _ (ih hc hheld)

theorem record_of_not_closed (success : Bool) (hs : s.breaker.state ≠ .closed)
    (hp : permit.probe = false) : s.record permit success = s := by
  have hb : s.breaker.record s.now permit success = (s.breaker, none) := by
    simp [Breaker.record, Breaker.recordOrdinary, hp, hs]
  simp only [BreakerSession.record, hb, update_self]

theorem call_of_closed (success : Bool) (hs : s.breaker.state = .closed)
    (hp : permit.probe = false) : (s.call permit.policy success).1 = s.record permit success := by
  have hb : s.breaker.enter s.now permit.policy = (s.breaker, .granted permit, none) := by
    obtain ⟨policy, probe⟩ := permit
    obtain rfl : probe = false := hp
    simp only [Breaker.enter, hs]
  simp only [call, enter_eq, hb, update_self]

/-- An ordinary outcome that comes while the circuit is open or half-open comes late and changes
nothing; one that comes while the circuit is closed, late or not, counts like that of a call made
just now. -/
theorem ordinary_outcome_counts_iff_closed {steps : List BreakerStep} {holder : String}
    {permit : Permit} (success : Bool) (hh : (run steps).holding? holder = some permit)
    (hp : permit.probe = false) :
    ((run steps).breaker.state ≠ .closed → OpenedSince steps holder ∧
      run (steps ++ [.report holder success]) = (run steps).without holder) ∧
    ((run steps).breaker.state = .closed →
      run (steps ++ [.report holder success]) =
        (((run steps).without holder).call permit.policy success).1) := by
  have hr : run (steps ++ [.report holder success]) =
      ((run steps).without holder).record permit success := by
    rw [run_append]
    simp only [BreakerSession.step, report, hh]
  rw [hr]
  constructor
  · intro hs
    exact ⟨openedSince_of_not_closed hs hh hp, record_of_not_closed success hs hp⟩
  · intro hs
    exact (call_of_closed (s := (run steps).without holder) success hs hp).symm

/-- One failure opens the circuit, for one millisecond. -/
def touchy : Policy :=
  { failureThreshold := 1, minimumThroughput := 1, samplingWindowMs := 10, breakDurationMs := 1 }

/-- A slow call is still out when another one fails and opens the circuit. -/
def overtaken : List BreakerStep :=
  [.ask "slow" touchy, .ask "quick" touchy, .report "quick" false]

theorem slow_failure_ignored_while_open :
    (run overtaken).holding? "slow" = some ⟨touchy, false⟩ ∧
      (run overtaken).breaker.state = .opened ∧ OpenedSince overtaken "slow" ∧
      run (overtaken ++ [.report "slow" false]) = (run overtaken).without "slow" := by
  have hh : (run overtaken).holding? "slow" = some ⟨touchy, false⟩ := by decide
  have hs : (run overtaken).breaker.state = .opened := by decide
  have hne : (run overtaken).breaker.state ≠ .closed := by decide
  exact ⟨hh, hs, (ordinary_outcome_counts_iff_closed false hh rfl).1 hne⟩

/-- The slow call reports when a probe has closed the circuit again, and its late failure opens it
once more. -/
theorem slow_failure_reopens_closed_circuit :
    let steps := overtaken ++ [.wait 1, .ask "probe" touchy, .report "probe" true]
    let after := run (steps ++ [.report "slow" false])
    (run steps).holding? "slow" = some ⟨touchy, false⟩ ∧ OpenedSince steps "slow" ∧
      (run steps).breaker.state = .closed ∧ after.breaker.state = .opened ∧
      after.moves = (run steps).moves ++ [(1, ⟨.closed, .opened⟩)] := by
  decide

end BreakerSession
end StockGate
