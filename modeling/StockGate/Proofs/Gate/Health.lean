import StockGate.Proofs.Gate.Ledger

namespace StockGate

/-- The circuit is closed, and no failure speaks against it. -/
structure Breaker.Calm (b : Breaker) : Prop where
  state : b.state = .closed
  failures : b.window.failures = 0

/-- The outcome does nothing to open a closed circuit. -/
def Report.Harmless (r : Report) : Prop :=
  r.success = true ∨ r.permit.probe = true

namespace Breaker

variable {b : Breaker}

theorem calm_new : Calm {} :=
  ⟨rfl, rfl⟩

theorem enter_of_closed (hs : b.state = .closed) (now : Nat) (p : Policy) :
    b.enter now p = (b, .granted ⟨p, false⟩, none) := by
  rw [enter, hs]

theorem Calm.record (h : b.Calm) {r : Report} (hr : r.Harmless) :
    (b.record r.time r.permit r.success).1.Calm := by
  unfold Breaker.record
  cases hp : r.permit.probe with
  | true =>
    have hno : ¬ b.state = .halfOpen := by
      intro hs
      cases h.state.symm.trans hs
    simp only [recordProbe, if_neg hno, if_pos]
    exact ⟨h.state, h.failures⟩
  | false =>
    have hok : r.success = true := hr.resolve_right fun hprobe => by cases hp.symm.trans hprobe
    have hle := BreakerSession.failures_windowAfter_le b r.time r.permit.policy
    rw [h.failures, windowAfter] at hle
    simp only [recordOrdinary, h.state, hok, reduceIte, trips, Bool.not_true, Bool.false_and,
      Bool.false_eq_true]
    exact ⟨rfl, Nat.le_zero.mp hle⟩

theorem Calm.use (h : b.Calm) {u : BreakerUse} (hu : ∀ r, u.report? = some r → r.Harmless) :
    (b.use u).Calm := by
  cases u with
  | enter now p =>
    rw [Breaker.use, enter_of_closed h.state]
    exact h
  | record r => exact h.record (hu r rfl)

end Breaker

theorem CallAdvance.records_transitions (c : Call) (a : CallAdvance) :
    (a.records c).filterMap Record.transition? = [] := by
  rcases a with _ | _ | (e | _ | _)
  · rfl
  · rfl
  · rw [records, List.filterMap_append, Evaluation.note]
    split <;> rfl
  · rfl
  · rfl

theorem Gate.filterMap_moved (g g' : Gate) :
    (g.moved g').filterMap Record.transition? = (g.breaker.change? g'.breaker).toList := by
  unfold moved
  cases g.breaker.change? g'.breaker <;> rfl

namespace GateSession

variable {s s' : GateSession} {g g' : Gate} {i : Nat} {v : Visit} {c : Call} {step : GateStep}
  {steps : List GateStep} {e : Ending} {x : Evaluation}

/-- The log and the memories tell of the moves that the turns make. -/
structure Announced (g : Gate) (s : GateSession) : Prop where
  emitter : s.gate.emitter = g.emitter
  log : s.gate.telemetry.log.filterMap Event.move? =
    g.telemetry.log.filterMap Event.move? ++ s.turns.filterMap Turn.move?
  memory : ∀ n, g.emitter.KeepsIn n → (s.gate.telemetry.memory n).transitions =
    (g.telemetry.memory n).transitions ++ s.turns.filterMap Turn.move?

theorem Announced.turn (h : Announced g s) {status : CallStatus} {told : Option Admission}
    {rs : List Record} (htells : s.gate.Tells g' (s.gate.moved g' ++ rs))
    (hrs : rs.filterMap Record.transition? = []) : Announced g (s.turn i v g' status told) := by
  have hmoves : (s.gate.moved g' ++ rs).filterMap Record.transition? =
      (Turn.move? ⟨i, s.gate, g', told⟩).toList := by
    rw [List.filterMap_append, hrs, List.append_nil]
    exact s.gate.filterMap_moved g'
  refine ⟨htells.emitter.trans h.emitter, ?_, fun n hn => ?_⟩
  · change g'.telemetry.log.filterMap _ = _ ++ (s.turns ++ [_]).filterMap _
    rw [htells.log, h.log, hmoves, filterMap_concat, List.append_assoc]
  · change (g'.telemetry.memory n).transitions = _ ++ (s.turns ++ [_]).filterMap _
    rw [htells.memory n (h.emitter ▸ hn), Memory.foldl_keep_transitions, h.memory n hn, hmoves,
      filterMap_concat, List.append_assoc]

theorem Reached.announced (h : Reached g s) : Announced g s := by
  apply h.induct
  case start => exact ⟨rfl, (List.append_nil _).symm, fun _ _ => (List.append_nil _).symm⟩
  case arrive =>
    intro s r draws _ ih
    have hmoves : (s.step (.arrive r draws)).turns.filterMap Turn.move? =
        s.turns.filterMap Turn.move? := by
      -- An arrival does not ask the breaker.
      have hnew : Turn.move? ⟨s.visits.length, s.gate, (s.gate.begin r draws).1, none⟩ = none :=
        Turn.move?_of_eq rfl
      refine (filterMap_concat Turn.move? s.turns _).trans ?_
      exact (congrArg (_ ++ Option.toList ·) hnew).trans (List.append_nil _)
    exact ⟨ih.emitter, hmoves ▸ ih.log, fun n hn => hmoves ▸ ih.memory n hn⟩
  case advance =>
    intro s i v c _ ih _
    exact ih.turn (s.gate.tells_step c) (CallAdvance.records_transitions c _)
  case cancel =>
    intro s i v c _ ih _
    have htells := s.gate.tells_cancel c
    rw [← List.append_nil (s.gate.moved _)] at htells
    exact ih.turn htells rfl
  case wait => exact fun s ms _ ih => ⟨ih.emitter, ih.log, ih.memory⟩
  case replace => exact fun s p _ ih => ⟨ih.emitter, ih.log, ih.memory⟩

theorem Happens.turns (hs : s.Happens step s') :
    ∀ t ∈ s'.turns, t ∈ s.turns ∨ t.before = s.gate ∧ t.after = s'.gate := by
  have hlast {t u : Turn} (h : t ∈ s.turns ++ [u]) : t ∈ s.turns ∨ t = u :=
    (List.mem_append.mp h).imp_right List.mem_singleton.mp
  intro t ht
  cases hs with
  | arrive | advance | cancel =>
    rcases hlast ht with ht | rfl
    · exact .inl ht
    · exact .inr ⟨rfl, rfl⟩
  | miss | wait | replace => exact .inl ht

/-- The circuit is calm now, and was so before and after every turn. -/
structure AlwaysCalm (s : GateSession) : Prop where
  now : s.gate.breaker.Calm
  turns : ∀ t ∈ s.turns, t.before.breaker.Calm ∧ t.after.breaker.Calm

theorem AlwaysCalm.happens (h : s.AlwaysCalm) (hs : s.Happens step s')
    (hu : ∀ u ∈ (s.use? step).toList, ∀ r, u.report? = some r → r.Harmless) : s'.AlwaysCalm := by
  have hnow : s'.gate.breaker.Calm := by
    rw [hs.breaker_eq]
    cases hstep : s.use? step with
    | none => exact h.now
    | some u => exact h.now.use (hu u (by rw [hstep]; exact List.mem_singleton_self u))
  refine ⟨hnow, fun t ht => ?_⟩
  rcases hs.turns t ht with ht | ⟨hbefore, hafter⟩
  · exact h.turns t ht
  · rw [hbefore, hafter]
    exact ⟨h.now, hnow⟩

theorem alwaysCalm_run (hg : g.breaker = {})
    (hu : ∀ u ∈ uses g steps, ∀ r, u.report? = some r → r.Harmless) : (run g steps).AlwaysCalm := by
  revert hu
  apply collect_induct (f := use?) (P := fun s us =>
    (∀ u ∈ us, ∀ r, u.report? = some r → r.Harmless) → s.AlwaysCalm)
  case start =>
    intro _
    refine ⟨?_, fun t ht => absurd ht List.not_mem_nil⟩
    change g.breaker.Calm
    rw [hg]
    exact Breaker.calm_new
  case step =>
    intro s us step s' _ ih hs hu
    have hcalm := ih fun u hmem => hu u (List.mem_append_left _ hmem)
    exact hcalm.happens hs fun u hmem => hu u (List.mem_append_right _ hmem)

theorem AlwaysCalm.move?_eq_none (h : s.AlwaysCalm) : s.turns.filterMap Turn.move? = [] := by
  rw [List.filterMap_eq_nil_iff]
  intro t ht
  obtain ⟨hbefore, hafter⟩ := h.turns t ht
  exact if_pos (hbefore.state.trans hafter.state.symm)

theorem AlwaysCalm.not_refused (h : s.AlwaysCalm) (hchron : s.Chronicled) {t : Turn}
    (ht : t ∈ s.turns) (state : CircuitState) : t.told ≠ some (.refused state) := by
  intro htold
  obtain ⟨l, r, hsplit⟩ := List.append_of_mem ht
  obtain ⟨a, -, hf⟩ := hchron.follows l t r hsplit
  -- What the call was told, it was told by the breaker that its turn has met.
  obtain ⟨held, held', hu⟩ := hf.usage
  rw [htold] at hu
  obtain ⟨-, m, he⟩ := hu.entry
  have hclosed := (h.turns t ht).1.state
  generalize t.after.breaker = after at he
  cases he with
  | early hs | busy hs => cases hs.symm.trans hclosed

/-- Every lookup of a call that has returned brought the product's record by the deadline. -/
def Supplied (s : GateSession) (es : List Ending) : Prop :=
  ∀ e ∈ es, ∀ x, e.result = .evaluated x →
    ∀ time permit, (time, .granted permit) ∈ s.toldOf e.number → ∀ l ∈ s.lookupsOf e.number,
      ∃ q, l.InStock e.request.product (time + e.met.policy.timeout) q

theorem Supplied.evaluation (h : (run g steps).Supplied (endings g steps))
    (he : e ∈ endings g steps) (hx : e.result = .evaluated x) :
    x = e.evaluation .skipped ∨
      (x = e.evaluation .shed ∧
        ∃ time state, (time, .refused state) ∈ (run g steps).toldOf e.number) ∨
      ∃ q duration attempts, x = e.evaluation (.checked q duration attempts) := by
  obtain ⟨v, hv, harrival, hstatus⟩ := (tallied_run g steps).ended e he
  have ha := (reached_run g steps).accounted e.number v hv
  rw [hstatus, hx, harrival] at ha
  generalize hr : CallStatus.over (.evaluated x) = status at ha
  cases ha with
  | asking | validating => cases hr
  | skipped =>
    obtain rfl := CallResult.evaluated.inj (CallStatus.over.inj hr)
    exact .inl rfl
  | @shed time state _ ht =>
    obtain rfl := CallResult.evaluated.inj (CallStatus.over.inj hr)
    have hmem : (time, .refused state) ∈ (run g steps).toldOf e.number := by
      rw [toldOf, ht]
      exact List.mem_singleton_self _
    exact .inr (.inl ⟨rfl, time, state, hmem⟩)
  | @found time permit l f hadm hl hf =>
    obtain rfl := CallResult.evaluated.inj (CallStatus.over.inj hr)
    have hmem : (time, .granted permit) ∈ (run g steps).toldOf e.number := by
      rw [toldOf, hadm.told]
      exact List.mem_singleton_self _
    -- The finding is that of the last lookup, which brought the record.
    obtain ⟨q, hq⟩ := h e he _ hx time permit hmem l (List.mem_of_getLast? hl)
    cases hf with
    | checked => exact .inr (.inr ⟨_, _, _, rfl⟩)
    | failed hno => exact absurd hq (hno q)
  | gone hgone =>
    obtain rfl := CallStatus.over.inj hr
    exact absurd rfl (hgone x)

theorem Supplied.harmless (h : (run g steps).Supplied (endings g steps))
    (he : e ∈ endings g steps) {r : Report} (hr : e.report? = some r) : r.Harmless := by
  unfold Ending.report? at hr
  split at hr
  · next x permit hx hpermit =>
    rcases h.evaluation he hx with rfl | ⟨rfl, -⟩ | ⟨q, duration, attempts, rfl⟩
    · cases hr
    · cases hr
    · have hperformed :
          (e.evaluation (.checked q duration attempts)).outcome.performed = true := rfl
      rw [if_pos hperformed] at hr
      rcases Outcome.errorKind?_checked e.request q duration attempts with hk | hk
      · simp only [Arrival.evaluation, hk, Option.some.injEq] at hr
        exact .inl (hr ▸ rfl)
      · simp only [Arrival.evaluation, hk, Option.some.injEq] at hr
        exact .inl (hr ▸ rfl)
  · next permit _ _ =>
    split at hr
    · next hp =>
      obtain rfl := Option.some.inj hr
      exact .inr hp
    · cases hr
  · cases hr

theorem Supplied.alwaysCalm (h : (run g steps).Supplied (endings g steps)) (hg : g.breaker = {}) :
    (run g steps).AlwaysCalm := by
  apply alwaysCalm_run hg
  intro u hu r hr
  have hmem : r ∈ (endings g steps).filterMap Ending.report? := by
    rw [← reports_run]
    exact List.mem_filterMap.mpr ⟨u, hu, hr⟩
  obtain ⟨e, he, hreport⟩ := List.mem_filterMap.mp hmem
  exact h.harmless he hreport

theorem Supplied.not_shed (h : (run g steps).Supplied (endings g steps)) (hg : g.breaker = {})
    (he : e ∈ endings g steps) (hx : e.result = .evaluated x) :
    x.outcome.errorKind? ≠ some .circuitOpen := by
  rcases h.evaluation he hx with rfl | ⟨rfl, time, state, htold⟩ | ⟨q, duration, attempts, rfl⟩
  · nofun
  · obtain ⟨t, ht, hanswer⟩ := List.mem_filterMap.mp htold
    obtain ⟨admission, hadm, hpair⟩ := Option.map_eq_some_iff.mp hanswer
    obtain ⟨-, rfl⟩ := Prod.mk.inj hpair
    have hchron := (reached_run g steps).chronicled hg
    exact absurd hadm ((h.alwaysCalm hg).not_refused hchron (List.mem_filter.mp ht).1 state)
  · intro hk
    rcases Outcome.errorKind?_checked e.request q duration attempts with hk' | hk'
    · cases hk'.symm.trans hk
    · cases hk'.symm.trans hk

/-- The breaker goes through what its calls do to it: it is asked, and it gets one outcome of each
call that has performed its validation, at the end of the call, and one failure for each probe that
is cancelled, but nothing of any other call. So where every lookup of a call that returns has
brought its product's record in time, the circuit stays closed without a failure in its window, no
move of it is announced, and no call is turned away. -/
theorem outcomes_counted_once (g : Gate) (steps : List GateStep) :
    (run g steps).Tallied (endings g steps) ∧
    (run g steps).gate.breaker = (uses g steps).foldl Breaker.use g.breaker ∧
    (uses g steps).filterMap BreakerUse.report? = (endings g steps).filterMap Ending.report? ∧
    (∀ e ∈ endings g steps, ∀ x, e.result = .evaluated x → x.outcome.performed = true →
      ∃ r, e.report? = some r) ∧
    (g.breaker = {} → (run g steps).Supplied (endings g steps) →
      (run g steps).AlwaysCalm ∧
      (run g steps).gate.telemetry.log.filterMap Event.move? =
        g.telemetry.log.filterMap Event.move? ∧
      (∀ n, g.emitter.KeepsIn n → ((run g steps).gate.telemetry.memory n).transitions =
        (g.telemetry.memory n).transitions) ∧
      ∀ e ∈ endings g steps, ∀ x, e.result = .evaluated x →
        x.outcome.errorKind? ≠ some .circuitOpen) := by
  refine ⟨tallied_run g steps, breaker_run g steps, reports_run g steps, exists_report g steps,
    fun hg hsupplied => ?_⟩
  have hcalm := hsupplied.alwaysCalm hg
  have hannounced := (reached_run g steps).announced
  have hmoves := hcalm.move?_eq_none
  refine ⟨hcalm, ?_, fun n hn => ?_, fun e he x hx => hsupplied.not_shed hg he hx⟩
  · rw [hannounced.log, hmoves, List.append_nil]
  · rw [hannounced.memory n hn, hmoves, List.append_nil]

/-- The scarce gate with a breaker that opens at the first failure. -/
def strict : Gate :=
  { scarce with policy := { failureThreshold := 1, minimumThroughput := 1 } }

/-- Two calls, of which one is cancelled while it waits for the catalog and the other asks for more
than there is. -/
def rush : List GateStep :=
  [.arrive fiveOfOne fun _ => 0, .arrive fiveOfOne fun _ => 0, .advance 0, .advance 1, .cancel 1,
    .wait 500, .advance 0]

theorem supplied_rush : (run strict rush).Supplied (endings strict rush) := by
  intro e he x hx time permit ht l hl
  have he : e ∈ [(endings strict rush)[0], (endings strict rush)[1]] := he
  rcases List.mem_pair.mp he with rfl | rfl
  · have hcancelled : (endings strict rush)[0].result = .cancelled := rfl
    cases hcancelled.symm.trans hx
  · have htold : (run strict rush).toldOf 0 = [(0, .granted ⟨strict.policy, false⟩)] := rfl
    have hlookups : (run strict rush).lookupsOf 0 =
        [⟨0, "lamp", (strict.catalog.ask "lamp").2⟩] := rfl
    have ht : (time, .granted permit) ∈ (run strict rush).toldOf 0 := ht
    have hl : l ∈ (run strict rush).lookupsOf 0 := hl
    rw [htold] at ht
    rw [hlookups] at hl
    cases List.mem_singleton.mp ht
    rw [List.mem_singleton.mp hl]
    exact ⟨3, 500, _, _, rfl, by decide, rfl, rfl, rfl, rfl⟩

theorem outcomes_counted_once_in_rush :
    strict.breaker = {} ∧ (run strict rush).Supplied (endings strict rush) ∧
      (uses strict rush).filterMap BreakerUse.report? = [⟨500, ⟨strict.policy, false⟩, true⟩] ∧
      (run strict rush).gate.breaker.Calm := by
  obtain ⟨-, -, hreports, -, hcalm⟩ := outcomes_counted_once strict rush
  exact ⟨rfl, supplied_rush, hreports.trans (by decide +kernel), (hcalm rfl supplied_rush).1.now⟩

end GateSession

end StockGate
