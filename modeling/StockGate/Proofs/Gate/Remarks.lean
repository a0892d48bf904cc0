import StockGate.Proofs.Gate.Telling

namespace StockGate

/-- What a gate says: something for the log, a move of its circuit, a failure that a policy admits,
or the end of a call with what it returned, if it did. -/
inductive Remark where
  | event (x : Event)
  | move (t : Transition)
  | failure (kind : ErrorKind)
  | closed (c : Call) (e : Option Evaluation)

namespace Remark

def records : Remark → List Record
  | .event _ | .closed _ none => []
  | .move t => [.transition t]
  | .failure kind => [.degraded kind]
  | .closed c (some e) => Record.ofSpan (c.span e)

def closed? : Remark → Option (Call × Option Evaluation)
  | .closed c e => some (c, e)
  | _ => none

end Remark

def Emitter.hear (e : Emitter) (t : Telemetry) : Remark → Telemetry
  | .event x => t.logged x
  | .closed c none => t.traced (c.trace none)
  | .closed c (some x) =>
    (e.emitSpan t (c.span x)).traced (c.trace (if e.traces then some (c.span x) else none))
  | r => e.emit t r.records

def Emitter.hearAll (e : Emitter) (t : Telemetry) (rs : List Remark) : Telemetry :=
  rs.foldl e.hear t

namespace Remark

def ofEvents (events : List Event) : List Remark :=
  events.map .event

def ofMove : Option Transition → List Remark
  | none => []
  | some t => [.event (.circuitMoved t), .move t]

end Remark

open Remark (ofEvents ofMove)

/-- What is said of a failure that the policy turned into a verdict. -/
def Evaluation.remarks (e : Evaluation) : List Remark :=
  match e.verdict with
  | .allow true =>
    match e.outcome.errorKind? with
    | some kind => [.event (.failedOpen kind), .failure kind]
    | none => []
  | .rejectSystem => [.event (.failedClosed e.outcome.errorKind?)]
  | _ => []

/-- What is said of the end of a call. -/
def CallAdvance.closed (c : Call) : CallAdvance → List (Call × Option Evaluation)
  | .over (.evaluated e) => [(c, some e)]
  | .over _ => [(c, none)]
  | _ => []

theorem Emitter.hearAll_append (e : Emitter) (t : Telemetry) (rs rs' : List Remark) :
    e.hearAll t (rs ++ rs') = e.hearAll (e.hearAll t rs) rs' :=
  List.foldl_append

theorem Emitter.hearAll_ofEvents (e : Emitter) (t : Telemetry) (events : List Event) :
    e.hearAll t (ofEvents events) = events.foldl .logged t :=
  List.foldl_map

theorem Remark.closed?_ofMove (t : Option Transition) : (ofMove t).filterMap closed? = [] := by
  cases t <;> rfl

theorem Evaluation.closed?_remarks (e : Evaluation) :
    e.remarks.filterMap Remark.closed? = [] := by
  unfold remarks
  split
  · split <;> rfl
  · rfl
  · rfl

theorem Remark.closed?_ofEvents (events : List Event) :
    (ofEvents events).filterMap closed? = [] := by
  rw [ofEvents, List.filterMap_map]
  exact List.filterMap_eq_nil_iff.mpr fun _ _ => rfl

namespace Gate

/-- The gate with these sinks, after what has been told of it. -/
def under (g : Gate) (e : Emitter) (t : Telemetry) : Gate :=
  { g with emitter := e, telemetry := t }

theorem under_self (g : Gate) : g.under g.emitter g.telemetry = g := rfl

theorem eq_under_of_quiet {g g' : Gate} (h : g'.quiet = g.quiet) :
    g' = g.under g'.emitter g'.telemetry := by
  change g'.quiet.under g'.emitter g'.telemetry = g.quiet.under g'.emitter g'.telemetry
  rw [h]

/-- Whoever listens, the operation comes to this and makes these remarks. -/
def Says {α : Type} (op : Gate → Gate × α) (g : Gate) (x : Gate × α) (rs : List Remark) : Prop :=
  ∀ e t, op (g.under e t) = (x.1.under e (e.hearAll t rs), x.2)

variable {α : Type} {op op' : Gate → Gate × α} {g g' : Gate} {c : Call} {x : Gate × α}
  {rs rs' : List Remark}

theorem Says.after (h : Says op' g' x rs')
    (hop : ∀ e t, op (g.under e t) = op' (g'.under e (e.hearAll t rs))) :
    Says op g x (rs ++ rs') := by
  intro e t
  rw [hop, h, Emitter.hearAll_append]

theorem logged_under (g : Gate) (e : Emitter) (t : Telemetry) (events : List Event) :
    (g.under e t).logged events = g.under e (e.hearAll t (ofEvents events)) := by
  rw [Emitter.hearAll_ofEvents]
  rfl

theorem update_under (g : Gate) (b : Breaker) (move : Option Transition) (e : Emitter)
    (t : Telemetry) :
    (g.under e t).update b move =
      { g with breaker := b }.under e (e.hearAll t (ofMove move)) := by
  cases move <;> rfl

theorem noteFailure_under (g : Gate) (x : Evaluation) (e : Emitter) (t : Telemetry) :
    (g.under e t).noteFailure x = g.under e (e.hearAll t x.remarks) := by
  unfold noteFailure Evaluation.remarks
  rcases x.verdict with (_ | _) | _ | _
  · rfl
  · cases x.outcome.errorKind? <;> rfl
  · rfl
  · rfl

theorem enter_under (g : Gate) (p : Policy) (e : Emitter) (t : Telemetry) :
    (g.under e t).enter p =
      ({ g with breaker := (g.breaker.enter g.now p).1 }.under e
        (e.hearAll t (ofMove (g.breaker.enter g.now p).2.2)),
        (g.breaker.enter g.now p).2.1) := by
  rw [enter_eq]
  exact congrArg (·, _) (update_under g _ _ e t)

theorem says_finish (g : Gate) (c : Call) (f : Finding) :
    Says (·.finish c f) g (g, .over (.evaluated (c.evaluation f)))
      ((c.evaluation f).remarks ++ [.closed c (some (c.evaluation f))]) := by
  intro e t
  have hnote := g.noteFailure_under (c.evaluation f) e t
  rw [Emitter.hearAll_append]
  unfold finish
  simp only [Call.evaluation] at hnote ⊢
  rw [hnote]
  rfl

/-- A step of a call comes to the same whoever listens, and says so if the call ends. -/
def Speaks (op : Gate → Gate × CallAdvance) (c : Call) (g : Gate) : Prop :=
  ∃ x rs, Says op g x rs ∧ rs.filterMap Remark.closed? = x.2.closed c

theorem Speaks.after {op op' : Gate → Gate × CallAdvance} (h : Speaks op' c g')
    (rs : List Remark) (hop : ∀ e t, op (g.under e t) = op' (g'.under e (e.hearAll t rs)))
    (hrs : rs.filterMap Remark.closed? = []) : Speaks op c g := by
  obtain ⟨x, rs', hsays, hclosed⟩ := h
  refine ⟨x, rs ++ rs', hsays.after hop, ?_⟩
  rw [List.filterMap_append, hrs, hclosed, List.nil_append]

theorem speaks_finish (g : Gate) (c : Call) (f : Finding) : Speaks (·.finish c f) c g := by
  refine ⟨_, _, g.says_finish c f, ?_⟩
  rw [List.filterMap_append, Evaluation.closed?_remarks]
  rfl

theorem speaks_silent (g' : Gate) {op : Gate → Gate × CallAdvance} {a : CallAdvance}
    (hop : ∀ e t, op (g.under e t) = (g'.under e t, a)) (ha : a.closed c = []) :
    Speaks op c g :=
  ⟨(g', a), [], hop, ha.symm⟩

theorem speaks_validate (g : Gate) (c : Call) : Speaks (·.validate c) c g := by
  cases ha : (g.breaker.enter g.now c.policy).2.1 with
  | refused state =>
    apply Speaks.after (speaks_finish _ c .shed)
      (ofMove (g.breaker.enter g.now c.policy).2.2 ++ ofEvents [.lookupShed state])
    · intro e t
      have hvalidate := validate_of_refused (g := g.under e t) ha
      rw [hvalidate, enter_under, logged_under, ← Emitter.hearAll_append]
    · rw [List.filterMap_append, Remark.closed?_ofMove]
      rfl
  | granted permit =>
    refine ⟨({ g with
        breaker := (g.breaker.enter g.now c.policy).1
        catalog := (g.catalog.ask c.request.product).1 },
      .moved (c.validating permit (c.validation g.now g.catalog))),
      ofMove (g.breaker.enter g.now c.policy).2.2, fun e t => ?_, Remark.closed?_ofMove _⟩
    have hvalidate := validate_of_granted (g := g.under e t) ha
    rw [enter_under] at hvalidate
    exact hvalidate

theorem speaks_afterFlag (g : Gate) (c : Call) (answer : Option FlagAnswer) :
    Speaks (·.afterFlag c answer) c g := by
  have hclosed := Remark.closed?_ofEvents (g.flag.events g.flag.key answer)
  cases hf : FlagGate.enabled answer with
  | false =>
    apply (g.speaks_finish c .skipped).after _ _ hclosed
    intro e t
    have hlogged := g.logged_under e t (g.flag.events g.flag.key answer)
    simp only [afterFlag, hf]
    exact congrArg (finish · c .skipped) hlogged
  | true =>
    apply (g.speaks_validate c).after _ _ hclosed
    intro e t
    have hlogged := g.logged_under e t (g.flag.events g.flag.key answer)
    simp only [afterFlag, hf]
    exact congrArg (validate · c) hlogged

theorem release_under (g : Gate) (permit : Permit) (e : Emitter) (t : Telemetry) :
    (g.under e t).release permit =
      { g with breaker := (g.breaker.release g.now permit).1 }.under e
        (e.hearAll t (ofEvents permit.dropEvents ++
          ofMove (g.breaker.release g.now permit).2)) := by
  rw [Emitter.hearAll_append, ← update_under, ← logged_under]
  rfl

theorem says_cancel (g : Gate) (c : Call) :
    ∃ g' rs, Says (fun g => (g.cancel c, ())) g (g', ()) rs ∧
      rs.filterMap Remark.closed? = [(c, none)] := by
  cases hs : c.stage with
  | asking w =>
    refine ⟨g, [.closed c none], fun e t => ?_, rfl⟩
    simp only [cancel_of_asking hs]
    rfl
  | validating permit v =>
    let said := ofEvents permit.dropEvents ++ ofMove (g.breaker.release g.now permit).2
    refine ⟨{ g with breaker := (g.breaker.release g.now permit).1 },
      said ++ [.closed c none], fun e t => ?_, ?_⟩
    · simp only [cancel_of_validating hs]
      rw [release_under, Emitter.hearAll_append e t said]
      rfl
    · rw [List.filterMap_append, List.filterMap_append, Remark.closed?_ofEvents,
        Remark.closed?_ofMove]
      rfl

theorem record_under (g : Gate) (permit : Permit) (success : Bool) (e : Emitter) (t : Telemetry) :
    (g.under e t).record permit success =
      { g with breaker := (g.breaker.record g.now permit success).1 }.under e
        (e.hearAll t (ofMove (g.breaker.record g.now permit success).2)) :=
  update_under g _ _ e t

theorem speaks_afterValidation (g : Gate) (c : Call) (permit : Permit)
    (advance : ValidationAdvance) : Speaks (·.afterValidation c permit advance) c g := by
  cases advance with
  | waiting => exact speaks_silent _ (fun _ _ => rfl) rfl
  | moved v => exact speaks_silent _ (fun _ _ => rfl) rfl
  | finished f =>
    let success := (Outcome.of c.request f).healthy
    have hfinish :=
      { g with breaker := (g.breaker.record g.now permit success).1 }.speaks_finish c f
    apply hfinish.after _ _ (Remark.closed?_ofMove (g.breaker.record g.now permit success).2)
    intro e t
    exact congrArg (finish · c f) (g.record_under permit success e t)
  | overflown =>
    obtain ⟨g', rs, hcancel, hclosed⟩ := g.says_cancel c
    refine ⟨(g', .over .overflown), rs, fun e t => ?_, hclosed⟩
    exact congrArg (fun x => (x.1, _)) (hcancel e t)

theorem speaks_step (g : Gate) (c : Call) : Speaks (·.step c) c g := by
  cases hs : c.stage with
  | asking w =>
    by_cases hnow : g.now < w.ends
    · apply speaks_silent g (a := .waiting) _ rfl
      intro e t
      have hnow' : (g.under e t).now < w.ends := hnow
      simp only [step, hs, if_pos hnow']
    · obtain ⟨x, rs, hsays, hclosed⟩ := g.speaks_afterFlag c w.answer?
      refine ⟨x, rs, fun e t => ?_, hclosed⟩
      have hnow' : ¬ (g.under e t).now < w.ends := hnow
      simp only [step, hs, if_neg hnow']
      exact hsays e t
  | validating permit v =>
    let y := v.step g.now c.draws g.catalog
    apply Speaks.after (speaks_afterValidation { g with catalog := y.1 } c permit y.2.2) _ _
      (Remark.closed?_ofEvents y.2.1)
    intro e t
    simp only [step, hs]
    exact congrArg (afterValidation · c permit y.2.2)
      ({ g with catalog := y.1 }.logged_under e t y.2.1)

end Gate

end StockGate
