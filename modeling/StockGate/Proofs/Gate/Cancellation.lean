import StockGate.Proofs.Gate.Recovery
import StockGate.Proofs.Gate.Telling

namespace StockGate

/-- The call holds the one probe of a half-open circuit. -/
def Call.HoldsProbe (c : Call) : Prop :=
  ∃ permit, c.permit? = some permit ∧ permit.probe = true

/-- Nothing has been told of what became of a call. -/
structure Telemetry.SameOutcomes (t t' : Telemetry) : Prop where
  spans : ∀ n, (t'.memory n).spans = (t.memory n).spans
  durations : ∀ n, (t'.memory n).durations = (t.memory n).durations
  results : ∀ n, (t'.memory n).results = (t.memory n).results
  degraded : ∀ n, (t'.memory n).degraded = (t.memory n).degraded
  counted : t'.metrics.validations = t.metrics.validations
  observed : t'.metrics.durations = t.metrics.durations
  failures : t'.metrics.degraded = t.metrics.degraded

namespace Telemetry

variable {t t' t'' : Telemetry}

theorem sameOutcomes_of_eq (hm : t'.memory = t.memory) (hc : t'.metrics = t.metrics) :
    t.SameOutcomes t' where
  spans := fun n => by rw [hm]
  durations := fun n => by rw [hm]
  results := fun n => by rw [hm]
  degraded := fun n => by rw [hm]
  counted := by rw [hc]
  observed := by rw [hc]
  failures := by rw [hc]

theorem SameOutcomes.trans (h : t.SameOutcomes t') (h' : t'.SameOutcomes t'') :
    t.SameOutcomes t'' where
  spans := fun n => (h'.spans n).trans (h.spans n)
  durations := fun n => (h'.durations n).trans (h.durations n)
  results := fun n => (h'.results n).trans (h.results n)
  degraded := fun n => (h'.degraded n).trans (h.degraded n)
  counted := h'.counted.trans h.counted
  observed := h'.observed.trans h.observed
  failures := h'.failures.trans h.failures

theorem sameOutcomes_logged (t : Telemetry) (events : List Event) :
    t.SameOutcomes (events.foldl logged t) := by
  induction events generalizing t with
  | nil => exact sameOutcomes_of_eq rfl rfl
  | cons e events ih =>
    have hone : t.SameOutcomes (t.logged e) := sameOutcomes_of_eq rfl rfl
    exact hone.trans (ih (t.logged e))

end Telemetry

open Telemetry

theorem Sink.sameOutcomes_accept (s : Sink) (t : Telemetry) (m : Transition) :
    t.SameOutcomes (s.accept t (.transition m)) := by
  -- A sink that refuses the move is noted in the log, which tells of no outcome.
  unfold accept
  split
  · exact sameOutcomes_of_eq rfl rfl
  · unfold deliver
    cases s.destination with
    | memory i =>
      have hmemory (n : Nat) :
          ∃ moves, Metrics.bump t.memory i (·.keep (.transition m)) n =
            { t.memory n with transitions := moves } := by
        unfold Metrics.bump
        by_cases hn : n = i
        · rw [if_pos hn]
          exact ⟨_, rfl⟩
        · rw [if_neg hn]
          exact ⟨_, rfl⟩
      refine ⟨fun n => ?_, fun n => ?_, fun n => ?_, fun n => ?_, rfl, rfl, rfl⟩ <;>
        obtain ⟨moves, hmoves⟩ := hmemory n <;> simp only [hmoves]
    | metrics => exact ⟨fun _ => rfl, fun _ => rfl, fun _ => rfl, fun _ => rfl, rfl, rfl, rfl⟩
    | trace | nowhere => exact sameOutcomes_of_eq rfl rfl

theorem Emitter.sameOutcomes_emit (e : Emitter) (t : Telemetry) (m : Transition) :
    t.SameOutcomes (e.emit t [.transition m]) := by
  unfold emit
  induction e.sinks generalizing t with
  | nil => exact sameOutcomes_of_eq rfl rfl
  | cons s sinks ih => exact (s.sameOutcomes_accept t m).trans (ih _)

namespace Breaker

variable {b : Breaker} {now : Nat} {permit : Permit}

theorem release_ordinary (hp : permit.probe = false) : b.release now permit = (b, none) := by
  rw [release, hp]
  rfl

theorem release_probe (hp : permit.probe = true) (hs : b.state = .halfOpen) :
    b.release now permit =
      ({ b with state := .opened, openedAt := some now, probing := false },
        some ⟨.halfOpen, .opened⟩) := by
  simp [release, record, recordProbe, moveTo, hp, hs]

end Breaker

namespace Gate

variable {g : Gate} {c : Call} {permit : Permit}

theorem sameOutcomes_update (g : Gate) (b : Breaker) (t : Option Transition) :
    g.telemetry.SameOutcomes (g.update b t).telemetry := by
  cases t with
  | none => exact sameOutcomes_of_eq rfl rfl
  | some m =>
    have hlogged := g.telemetry.sameOutcomes_logged [.circuitMoved m]
    exact hlogged.trans (g.emitter.sameOutcomes_emit _ m)

theorem sameOutcomes_cancel (g : Gate) (c : Call) :
    g.telemetry.SameOutcomes (g.cancel c).telemetry := by
  cases hs : c.stage with
  | asking w =>
    rw [cancel_of_asking hs]
    exact sameOutcomes_of_eq rfl rfl
  | validating permit v =>
    rw [cancel_of_validating hs]
    have hlogged := g.telemetry.sameOutcomes_logged permit.dropEvents
    have hmoved := (g.logged permit.dropEvents).sameOutcomes_update
      (g.breaker.release g.now permit).1 (g.breaker.release g.now permit).2
    exact (hlogged.trans hmoved).trans (sameOutcomes_of_eq rfl rfl)

theorem cancel_frame (g : Gate) (c : Call) :
    { g.cancel c with breaker := g.breaker, telemetry := g.telemetry } = g := by
  cases hs : c.stage with
  | asking w =>
    rw [cancel_of_asking hs]
    rfl
  | validating permit v =>
    rw [cancel_of_validating hs]
    simp only [release]
    cases (g.breaker.release g.now permit).2 <;> rfl

theorem cancel_eq_traced (h : ¬ c.HoldsProbe) : g.cancel c = g.traced (c.trace none) := by
  cases hs : c.stage with
  | asking w => exact cancel_of_asking hs
  | validating permit v =>
    have hp : permit.probe = false := by
      by_contra hprobe
      exact h ⟨permit, Call.permit?_of_validating hs, by simpa using hprobe⟩
    have hrelease : g.release permit = g := by
      simp only [release, Breaker.release_ordinary hp, Permit.dropEvents, hp]
      rfl
    rw [cancel_of_validating hs, hrelease]

theorem breaker_cancel_of_probe (hheld : c.permit? = some permit) (hp : permit.probe = true)
    (hs : g.breaker.state = .halfOpen) :
    (g.cancel c).breaker =
      { g.breaker with state := .opened, openedAt := some g.now, probing := false } := by
  cases hstage : c.stage with
  | asking w => cases (Call.permit?_of_asking hstage).symm.trans hheld
  | validating permit' v =>
    obtain rfl := Option.some.inj ((Call.permit?_of_validating hstage).symm.trans hheld)
    have hbreaker : (g.release permit').breaker = (g.breaker.release g.now permit').1 :=
      update_breaker _ _ _
    rw [cancel_of_validating hstage]
    exact hbreaker.trans (congrArg Prod.fst (Breaker.release_probe hp hs))

theorem tells_cancel_of_probe (hheld : c.permit? = some permit) (hp : permit.probe = true)
    (hs : g.breaker.state = .halfOpen) :
    g.Tells (g.cancel c) [.transition ⟨.halfOpen, .opened⟩] := by
  have hmoved : g.moved (g.cancel c) = [.transition ⟨.halfOpen, .opened⟩] := by
    rw [moved, breaker_cancel_of_probe hheld hp hs, Breaker.change?, hs]
    rfl
  rw [← hmoved]
  exact g.tells_cancel c

end Gate

namespace GateSession

variable {s : GateSession} {i : Nat} {v : Visit} {c : Call} {r : CallResult}

theorem over_step (hv : s.visits[i]? = some v) (hr : v.status = .over r) (step : GateStep) :
    (s.step step).visits[i]? = some v ∧ (s.step step).turnsOf i = s.turnsOf i := by
  have hlt := (List.getElem?_eq_some_iff.mp hv).1
  have hturn {j : Nat} {u : Visit} {d : Call} {g' : Gate} {status : CallStatus}
      {told : Option Admission} (hd : s.call? j = some (u, d)) :
      (s.turn j u g' status told).visits[i]? = some v ∧
        (s.turn j u g' status told).turnsOf i = s.turnsOf i := by
    have hne : i ≠ j := by
      rintro rfl
      obtain ⟨hu, hw⟩ := call?_eq_some_iff.mp hd
      obtain rfl := Option.some.inj (hv.symm.trans hu)
      cases hr.symm.trans hw
    exact ⟨(List.getElem?_set_ne hne.symm).trans hv, turnsOf_turn_of_ne hne⟩
  cases step with
  | arrive req draws =>
    exact ⟨(List.getElem?_append_left hlt).trans hv, turnsOf_arrive_of_lt hlt req draws⟩
  | advance j =>
    cases hc : s.call? j with
    | none =>
      simp only [GateSession.step, hc]
      exact ⟨hv, trivial⟩
    | some x => simpa only [GateSession.step, hc] using hturn hc
  | cancel j =>
    cases hc : s.call? j with
    | none =>
      simp only [GateSession.step, hc]
      exact ⟨hv, trivial⟩
    | some x => simpa only [GateSession.step, hc] using hturn hc
  | wait ms => exact ⟨hv, rfl⟩
  | replace p => exact ⟨hv, rfl⟩

theorem over_go (hv : s.visits[i]? = some v) (hr : v.status = .over r) (steps : List GateStep) :
    (s.go steps).visits[i]? = some v ∧ (s.go steps).turnsOf i = s.turnsOf i := by
  induction steps using List.reverseRecOn with
  | nil => exact ⟨hv, rfl⟩
  | append_singleton steps step ih =>
    obtain ⟨hvisit, hturns⟩ := ih
    rw [go_concat]
    obtain ⟨hvisit', hturns'⟩ := over_step hvisit hr step
    exact ⟨hvisit', hturns'.trans hturns⟩

theorem step_cancel (hc : s.call? i = some (v, c)) :
    s.step (.cancel i) = s.turn i v (s.gate.cancel c) (.over .cancelled) none := by
  simp only [GateSession.step, hc]

/-- Wherever a call of a session is cancelled, it is over for good, and of the other calls and of
the settings nothing changes. No memory and no metric is told of an outcome. If the call does not
hold the probe, its trace is closed and that is all; if it does, the circuit, which is half-open,
opens again from now on with its window as it is, and just this move is announced. -/
theorem cancel_leaves_nothing_half_done (g : Gate) (steps : List GateStep) (i : Nat) (v : Visit)
    (c : Call) (hg : g.breaker = {}) (hc : (run g steps).call? i = some (v, c)) :
    let s := run g steps
    let s' := s.step (.cancel i)
    s'.visits = s.visits.set i { v with status := .over .cancelled } ∧
    { s'.gate with breaker := s.gate.breaker, telemetry := s.gate.telemetry } = s.gate ∧
    s.gate.telemetry.SameOutcomes s'.gate.telemetry ∧
    (¬ c.HoldsProbe → s'.gate = s.gate.traced (c.trace none)) ∧
    (c.HoldsProbe →
      s.gate.breaker.state = .halfOpen ∧
      s'.gate.breaker = { s.gate.breaker with
        state := .opened, openedAt := some s.gate.now, probing := false } ∧
      s'.gate.telemetry.log.filterMap Event.move? =
        s.gate.telemetry.log.filterMap Event.move? ++ [⟨.halfOpen, .opened⟩] ∧
      ∀ n, s.gate.emitter.KeepsIn n → (s'.gate.telemetry.memory n).transitions =
        (s.gate.telemetry.memory n).transitions ++ [⟨.halfOpen, .opened⟩]) ∧
    ∀ more, (s'.go more).visits[i]? = some { v with status := .over .cancelled } ∧
      (s'.go more).turnsOf i = s'.turnsOf i := by
  intro s s'
  have hstep : s' = s.turn i v (s.gate.cancel c) (.over .cancelled) none := step_cancel hc
  have hgate : s'.gate = s.gate.cancel c := by rw [hstep]; rfl
  have hvisits : s'.visits = s.visits.set i { v with status := .over .cancelled } := by
    rw [hstep]
    rfl
  refine ⟨hvisits, ?_, ?_, fun hno => ?_, fun hheld => ?_, fun more => ?_⟩
  · rw [hgate]
    exact s.gate.cancel_frame c
  · rw [hgate]
    exact s.gate.sameOutcomes_cancel c
  · rw [hgate]
    exact Gate.cancel_eq_traced hno
  · obtain ⟨permit, hpermit, hp⟩ := hheld
    have hhalf : s.gate.breaker.state = .halfOpen :=
      ((reached_run g steps).sound hg).halfOpen hc hpermit hp
    have hbreaker := Gate.breaker_cancel_of_probe hpermit hp hhalf
    have htells := Gate.tells_cancel_of_probe hpermit hp hhalf
    rw [hgate]
    refine ⟨hhalf, hbreaker, htells.log, fun n hn => ?_⟩
    rw [htells.memory n hn]
    rfl
  · apply over_go _ rfl
    rw [hvisits]
    exact List.getElem?_set_self (lt_of_call? hc)

/-- The brittle gate with a memory. -/
def observed : Gate :=
  { brittle with emitter := ⟨[.memory 0, .metrics]⟩ }

theorem cancel_leaves_nothing_half_done_of_probe :
    ∃ v c, (run observed trial).call? 1 = some (v, c) ∧ c.HoldsProbe ∧
      ((run observed trial).step (.cancel 1)).gate.breaker =
        ⟨.opened, [⟨1, true⟩], some 11, false⟩ ∧
      (((run observed trial).step (.cancel 1)).gate.telemetry.memory 0).transitions =
        [⟨.closed, .opened⟩, ⟨.opened, .halfOpen⟩, ⟨.halfOpen, .opened⟩] := by
  have hprobe : ∃ v c, (run observed trial).call? 1 = some (v, c) ∧ c.HoldsProbe :=
    ⟨_, _, rfl, ⟨observed.policy, true⟩, rfl, rfl⟩
  obtain ⟨v, c, hc, hheld⟩ := hprobe
  obtain ⟨-, -, -, -, hreopened, -⟩ :=
    cancel_leaves_nothing_half_done observed trial 1 v c rfl hc
  obtain ⟨-, hbreaker, -, htransitions⟩ := hreopened hheld
  exact ⟨v, c, hc, hheld, hbreaker, htransitions 0 (by decide)⟩

end GateSession

end StockGate
