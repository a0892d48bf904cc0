import StockGate.Proofs.Breaker.Conditions
import StockGate.Proofs.Gate.Endings
import StockGate.Proofs.Gate.Pace
import StockGate.Proofs.Gate.Telling

namespace StockGate

/-- An outcome that is handed to a breaker. -/
structure Report where
  time : Nat
  permit : Permit
  success : Bool
  deriving DecidableEq

/-- What a gate can do to its breaker. -/
inductive BreakerUse where
  | enter (now : Nat) (p : Policy)
  | record (r : Report)
  deriving DecidableEq

def BreakerUse.report? : BreakerUse → Option Report
  | .record r => some r
  | .enter .. => none

def Breaker.use (b : Breaker) : BreakerUse → Breaker
  | .enter now p => (b.enter now p).1
  | .record r => (b.record r.time r.permit r.success).1

/-- What giving up the call does to the breaker. -/
def Call.dropUse? (c : Call) (now : Nat) : Option BreakerUse :=
  match c.stage with
  | .asking _ => none
  | .validating permit _ => if permit.probe then some (.record ⟨now, permit, false⟩) else none

/-- What the next step of the call does to the breaker. -/
def Gate.use? (g : Gate) (c : Call) : Option BreakerUse :=
  match c.stage with
  | .asking w =>
    if w.ends ≤ g.now ∧ FlagGate.enabled w.answer? = true then some (.enter g.now c.policy)
    else none
  | .validating permit v =>
    match (v.step g.now c.draws g.catalog).2.2 with
    | .finished f => some (.record ⟨g.now, permit, (Outcome.of c.request f).healthy⟩)
    | .overflown => c.dropUse? g.now
    | .waiting | .moved _ => none

/-- The outcome that the end of a call calls for. -/
def Ending.report? (e : Ending) : Option Report :=
  match e.result, e.permit with
  | .evaluated x, some permit =>
    if x.outcome.performed then
      match x.outcome.errorKind? with
      | none | some .insufficientInventory => some ⟨e.time, permit, true⟩
      | some .timeout | some .invalidResponse | some .unavailable => some ⟨e.time, permit, false⟩
      | some .circuitOpen => none
    else none
  | .cancelled, some permit => if permit.probe then some ⟨e.time, permit, false⟩ else none
  | _, _ => none

namespace Gate

variable {g g' : Gate} {c : Call}

theorem validate_breaker (g : Gate) (c : Call) :
    (g.validate c).1.breaker = (g.breaker.enter g.now c.policy).1 := by
  cases ha : (g.breaker.enter g.now c.policy).2.1 with
  | refused state =>
    rw [validate_of_refused ha, finish_breaker]
    exact update_breaker _ _ _
  | granted permit =>
    rw [validate_of_granted ha]
    exact update_breaker _ _ _

theorem breaker_cancel (g : Gate) (c : Call) :
    (g.cancel c).breaker = (c.dropUse? g.now).toList.foldl Breaker.use g.breaker := by
  unfold Call.dropUse?
  cases hs : c.stage with
  | asking =>
    rw [cancel_of_asking hs]
    rfl
  | validating permit v =>
    rw [cancel_of_validating hs]
    refine (update_breaker _ _ _).trans ?_
    change (g.breaker.release g.now permit).1 = _
    unfold Breaker.release
    simp only
    cases permit.probe <;> rfl

theorem breaker_step (g : Gate) (c : Call) :
    (g.step c).1.breaker = (g.use? c).toList.foldl Breaker.use g.breaker := by
  unfold step use?
  cases hs : c.stage with
  | asking w =>
    by_cases hnow : g.now < w.ends
    · have hearly : ¬ (w.ends ≤ g.now ∧ FlagGate.enabled w.answer? = true) :=
        fun h => absurd hnow (Nat.not_lt_of_le h.1)
      simp only [if_pos hnow, if_neg hearly]
      rfl
    · simp only [if_neg hnow, afterFlag]
      by_cases hon : FlagGate.enabled w.answer? = true
      · rw [if_pos hon, if_pos ⟨Nat.le_of_not_lt hnow, hon⟩, validate_breaker]
        rfl
      · rw [if_neg hon, if_neg fun h => hon h.2, finish_breaker]
        rfl
  | validating permit v =>
    simp only
    generalize v.step g.now c.draws g.catalog = x
    obtain ⟨catalog, events, advance⟩ := x
    cases advance with
    | waiting | moved => rfl
    | finished f => exact (finish_breaker _ c f).trans (update_breaker _ _ _)
    | overflown => exact breaker_cancel _ c

end Gate

theorem Validation.Stride.report {x : Validation} {now : Nat} {draws : Nat → Nat}
    {catalog catalog' : Catalog} {f : Finding} {e : Ending} {r : Request} {p : Policy}
    {permit : Permit} (h : x.Stride now draws catalog catalog' (.finished f))
    (hresult : e.result = .evaluated ⟨decideOn (.of r f) p, .of r f⟩)
    (hpermit : e.permit = some permit) :
    e.report? = some ⟨e.time, permit, (Outcome.of r f).healthy⟩ := by
  unfold Ending.report?
  rw [hresult, hpermit]
  cases h with
  | timeOut => rfl
  | @check _ _ n =>
    by_cases hle : r.quantity ≤ n <;>
      simp [Outcome.healthy, Outcome.performed, Outcome.errorKind?, Outcome.of, hle,
        ErrorKind.isSystem]
  | @fail _ _ error => cases error <;> rfl

namespace GateSession

variable {α β : Type} {s s' : GateSession} {g g' : Gate} {i : Nat} {v : Visit} {c : Call}
  {step : GateStep}

def use? (s : GateSession) : GateStep → Option BreakerUse
  | .advance i =>
    match s.call? i with
    | some (_, c) => s.gate.use? c
    | none => none
  | .cancel i =>
    match s.call? i with
    | some (_, c) => c.dropUse? s.gate.now
    | none => none
  | _ => none

def uses (g : Gate) (steps : List GateStep) : List BreakerUse :=
  collect use? g steps

theorem use?_advance (hc : s.call? i = some (v, c)) : s.use? (.advance i) = s.gate.use? c := by
  simp only [use?, hc]

theorem use?_cancel (hc : s.call? i = some (v, c)) :
    s.use? (.cancel i) = c.dropUse? s.gate.now := by
  simp only [use?, hc]

theorem use?_miss (hs : step = .advance i ∨ step = .cancel i) (hc : s.call? i = none) :
    s.use? step = none := by
  rcases hs with rfl | rfl <;> simp only [use?, hc]

/-- A step does to the breaker what is noted of it, and nothing else. -/
theorem Happens.breaker_eq (hs : s.Happens step s') :
    s'.gate.breaker = (s.use? step).toList.foldl Breaker.use s.gate.breaker := by
  cases hs with
  | arrive | wait | replace => rfl
  | advance hc =>
    rw [use?_advance hc]
    exact s.gate.breaker_step _
  | cancel hc =>
    rw [use?_cancel hc]
    exact s.gate.breaker_cancel _
  | miss hs hc =>
    rw [use?_miss hs hc]
    rfl

theorem breaker_run (g : Gate) (steps : List GateStep) :
    (run g steps).gate.breaker = (uses g steps).foldl Breaker.use g.breaker := by
  apply collect_induct (P := fun s us => s.gate.breaker = us.foldl Breaker.use g.breaker)
  case start => rfl
  case step =>
    intro s us step s' _ ih hs
    rw [hs.breaker_eq, List.foldl_append, ih]

theorem report?_of_asking {w : Awaited FlagAnswer} (hs : c.stage = .asking w) :
    (s.endingOf i v c ((s.gate.step c).2.status c)).bind Ending.report? = none := by
  -- Such a call returns before its validation has begun.
  have hpermit := Call.permit?_of_asking hs
  have hst := s.gate.stride c
  generalize (s.gate.step c).1 = g' at hst
  generalize (s.gate.step c).2 = a at hst ⊢
  cases hst with
  | await | enter | rest | go => rfl
  | skip | shed => simp [endingOf, CallAdvance.status, Ending.report?, hpermit]
  | finish hs' | overflow hs' => cases hs.symm.trans hs'

/-- The outcome that the breaker gets from a step of a call is the one that its end calls for. -/
theorem Reached.report_advance (h : Reached g s) (hc : s.call? i = some (v, c)) :
    (s.gate.use? c).bind BreakerUse.report? =
      (s.endingOf i v c ((s.gate.step c).2.status c)).bind Ending.report? := by
  have hpaced := h.paced hc
  unfold Gate.use?
  cases hs : c.stage with
  | asking w =>
    rw [report?_of_asking hs]
    simp only
    split <;> rfl
  | validating permit x =>
    have hpermit := Call.permit?_of_validating hs
    have hx := x.stride s.gate.now c.draws s.gate.catalog
    have hstep : (s.gate.step c).2 = (({ s.gate with
        catalog := (x.step s.gate.now c.draws s.gate.catalog).1 }.logged
          (x.step s.gate.now c.draws s.gate.catalog).2.1).afterValidation c permit
            (x.step s.gate.now c.draws s.gate.catalog).2.2).2 := by
      simp only [Gate.step, hs]
    rw [hstep]
    simp only
    generalize x.step s.gate.now c.draws s.gate.catalog = y at hx ⊢
    obtain ⟨catalog, events, advance⟩ := y
    cases advance with
    | waiting | moved => rfl
    | finished f =>
      let ending : Ending :=
        { v.toArrival with
          number := i, time := s.gate.now, permit := c.permit?
          result := .evaluated (c.evaluation f) }
      have hresult : ending.result = .evaluated (c.evaluation f) := rfl
      exact (hx.report hresult hpermit).symm
    | overflown =>
      -- A release would follow, but of a call that keeps to its limits no delay is too long.
      have hstage := hpaced.stage
      rw [hs] at hstage
      cases hstage with
      | validating hpaced => exact absurd hx hpaced.not_overflown

theorem exists_report_advance {e : Ending} {x : Evaluation}
    (he : s.endingOf i v c ((s.gate.step c).2.status c) = some e) (hx : e.result = .evaluated x)
    (hp : x.outcome.performed = true) : ∃ r, e.report? = some r := by
  have hst := s.gate.stride c
  obtain ⟨r, hr, rfl⟩ := endingOf_eq_some_iff.mp he
  generalize (s.gate.step c).1 = g' at hst
  generalize (s.gate.step c).2 = a at hst hr
  cases hst with
  | await | enter | rest | go => cases hr
  | skip | shed =>
    obtain rfl := CallStatus.over.inj hr
    obtain rfl := CallResult.evaluated.inj hx
    cases hp
  | finish hs hv =>
    obtain rfl := CallStatus.over.inj hr
    exact ⟨_, hv.report rfl (Call.permit?_of_validating hs)⟩
  | overflow =>
    obtain rfl := CallStatus.over.inj hr
    cases hx

theorem report_cancel (s : GateSession) (i : Nat) (v : Visit) (c : Call) :
    (c.dropUse? s.gate.now).bind BreakerUse.report? =
      (s.endingOf i v c (.over .cancelled)).bind Ending.report? := by
  unfold Call.dropUse? endingOf Call.permit?
  cases c.stage with
  | asking => rfl
  | validating permit x =>
    simp only [Option.bind_some, Ending.report?]
    split <;> rfl

theorem Reached.report_eq (h : Reached g s) (step : GateStep) :
    (s.use? step).bind BreakerUse.report? = (s.ending? step).bind Ending.report? := by
  have hs := s.happens step
  generalize s.step step = s' at hs
  cases hs with
  | arrive | wait | replace => rfl
  | advance hc =>
    rw [use?_advance hc, ending?_advance hc]
    exact h.report_advance hc
  | cancel hc =>
    rw [use?_cancel hc, ending?_cancel hc]
    exact report_cancel s _ _ _
  | miss hs hc =>
    rw [use?_miss hs hc, ending?_miss hs hc]
    rfl

theorem exists_report (g : Gate) (steps : List GateStep) :
    ∀ e ∈ endings g steps, ∀ x, e.result = .evaluated x → x.outcome.performed = true →
      ∃ r, e.report? = some r := by
  exact forall_endings (fun _ _ _ _ _ _ _ he _ hx hp => exists_report_advance he hx hp)
    (fun _ _ _ _ _ hx _ => absurd hx nofun) steps

theorem filterMap_toList (f : α → Option β) (o : Option α) :
    o.toList.filterMap f = (o.bind f).toList := by
  cases o with
  | none => rfl
  | some a => cases h : f a <;> simp [h]

theorem reports_run (g : Gate) (steps : List GateStep) :
    (uses g steps).filterMap BreakerUse.report? = (endings g steps).filterMap Ending.report? := by
  induction steps using List.reverseRecOn with
  | nil => rfl
  | append_singleton steps step ih =>
    rw [uses, endings, collect_append, collect_append, List.filterMap_append,
      List.filterMap_append, filterMap_toList, filterMap_toList,
      (reached_run g steps).report_eq step]
    exact congrArg (· ++ _) ih

end GateSession

end StockGate
