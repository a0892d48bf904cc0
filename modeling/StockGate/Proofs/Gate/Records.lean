import StockGate.Proofs.Gate.Endings
import StockGate.Proofs.Gate.Shedding
import StockGate.Proofs.Gate.Telling

namespace StockGate

/-- The span says of the call what it asked for, what it met and what it returned. -/
structure Span.Describes (s : Span) (x : Answer) : Prop where
  product : s.product = x.request.product
  requested : s.requested = x.request.quantity
  correlationId : s.correlationId = x.request.caller.correlationId
  available : s.available = x.evaluation.outcome.available?
  errorKind : s.errorKind = x.evaluation.outcome.errorKind?
  duration : s.duration = x.evaluation.outcome.duration
  circuit : s.circuit = x.met.breaker.state
  bypassed : s.label = .bypassed ↔ x.evaluation.outcome.performed = false
  bare : s.label = .bypassed → s.duration = 0 ∧ s.available = none
  degraded : s.degraded = true ↔ x.evaluation.verdict = .allow true

/-- The memory has been told of calls that returned just this, and nothing else but moves. -/
structure Memory.Agrees (m : Memory) (xs : List Answer) : Prop where
  spans : List.Forall₂ Span.Describes m.spans xs
  durations : m.durations = m.spans.map fun s => (s.label, s.duration)
  results : m.results = m.spans.map (·.label)
  degraded : m.degraded.map some = (m.spans.filter (·.degraded)).map (·.errorKind)

theorem Outcome.label_eq_bypassed_iff (o : Outcome) :
    o.label = .bypassed ↔ o.performed = false := by
  unfold label
  cases o.performed with
  | false => simp
  | true => rcases o.errorKind? with _ | _ | _ <;> simp

theorem Outcome.bare_of_not_performed {o : Outcome} (h : o.performed = false) :
    o.duration = 0 ∧ o.available? = none := by
  unfold performed at h
  unfold duration available?
  cases hf : o.finding <;> simp_all

theorem Verdict.isDegraded_iff (v : Verdict) : v.isDegraded = true ↔ v = .allow true := by
  cases v <;> simp [isDegraded]

theorem errorKind?_of_degraded {o : Outcome} {p : Policy} (h : decideOn o p = .allow true) :
    ∃ kind, o.errorKind? = some kind := by
  cases hk : o.errorKind? with
  | some kind => exact ⟨kind, rfl⟩
  | none =>
    rw [decideOn, hk] at h
    cases h

theorem Call.note_evaluation (c : Call) (f : Finding) :
    ∃ kinds : List ErrorKind, (c.evaluation f).note = kinds.map .degraded ∧
      kinds.map some = ([c.span (c.evaluation f)].filter (·.degraded)).map (·.errorKind) := by
  have hspan : (c.span (c.evaluation f)).degraded = (c.evaluation f).verdict.isDegraded := rfl
  unfold Evaluation.note
  cases hd : (c.evaluation f).verdict with
  | allow degraded =>
    rw [hd] at hspan
    cases degraded with
    | true =>
      obtain ⟨kind, hk⟩ := errorKind?_of_degraded hd
      have hk : (c.evaluation f).outcome.errorKind? = some kind := hk
      have hkind : (c.span (c.evaluation f)).errorKind = some kind := hk
      refine ⟨[kind], by rw [hk]; rfl, ?_⟩
      rw [List.filter_singleton, hspan]
      simp [Verdict.isDegraded, hkind]
    | false => exact ⟨[], rfl, by simp [hspan, Verdict.isDegraded]⟩
  | rejectBusiness | rejectSystem =>
    rw [hd] at hspan
    exact ⟨[], rfl, by simp [hspan, Verdict.isDegraded]⟩

theorem Memory.foldl_degraded (m : Memory) (kinds : List ErrorKind) :
    (kinds.map Record.degraded).foldl Memory.keep m =
      { m with degraded := m.degraded ++ kinds } := by
  induction kinds generalizing m with
  | nil => rw [List.append_nil]; rfl
  | cons kind kinds ih => rw [List.map_cons, List.foldl_cons, ih, keep, List.append_assoc]; rfl

theorem Call.describes {c : Call} {v : Arrival} (hc : c.From v)
    (hcircuit : c.circuit = v.met.breaker.state) (e : Evaluation) :
    (c.span e).Describes ⟨v, e⟩ where
  product := congrArg Request.product hc.request
  requested := congrArg Request.quantity hc.request
  correlationId := congrArg (·.caller.correlationId) hc.request
  available := rfl
  errorKind := rfl
  duration := rfl
  circuit := hcircuit
  bypassed := e.outcome.label_eq_bypassed_iff
  bare := fun h => Outcome.bare_of_not_performed (e.outcome.label_eq_bypassed_iff.mp h)
  degraded := e.verdict.isDegraded_iff

namespace Memory.Agrees

variable {m : Memory} {xs : List Answer}

theorem moved (h : m.Agrees xs) (t : Option Transition) :
    ((t.toList.map Record.transition).foldl Memory.keep m).Agrees xs := by
  cases t with
  | none => exact h
  | some t => exact ⟨h.spans, h.durations, h.results, h.degraded⟩

theorem answered (h : m.Agrees xs) {c : Call} {f : Finding} {x : Answer}
    (hx : (c.span (c.evaluation f)).Describes x) :
    ((CallAdvance.records c (.over (.evaluated (c.evaluation f)))).foldl Memory.keep m).Agrees
      (xs ++ [x]) := by
  obtain ⟨kinds, hnote, hkinds⟩ := c.note_evaluation f
  rw [CallAdvance.records, List.foldl_append, hnote, Memory.foldl_degraded]
  refine ⟨List.rel_append h.spans (.cons hx .nil), ?_, ?_, ?_⟩
  · change m.durations ++ [_] = (m.spans ++ [_]).map _
    rw [h.durations, List.map_append]
    rfl
  · change m.results ++ [_] = (m.spans ++ [_]).map _
    rw [h.results, List.map_append]
    rfl
  · change (m.degraded ++ kinds).map some = ((m.spans ++ [_]).filter _).map _
    rw [List.map_append, h.degraded, hkinds, List.filter_append, List.map_append]

end Memory.Agrees

namespace Gate

variable {g g' : Gate} {c c' : Call} {e : Evaluation}

theorem Stride.circuit_eq (h : g.Stride c g' (.moved c')) : c'.circuit = c.circuit := by
  cases h <;> rfl

theorem Stride.evaluation (h : g.Stride c g' (.over (.evaluated e))) :
    ∃ f, e = c.evaluation f := by
  cases h <;> exact ⟨_, rfl⟩

end Gate

namespace GateSession

variable {s s' : GateSession} {g g' : Gate} {i n : Nat} {v : Visit} {c : Call} {es : List Ending}

theorem Reached.circuit (h : Reached g s) (hc : s.call? i = some (v, c)) :
    c.circuit = v.met.breaker.state :=
  h.induct_call (P := fun v c => c.circuit = v.met.breaker.state) (fun _ _ _ => rfl)
    (fun hc _ hst => hst.circuit_eq.trans hc) i v c hc

/-- What a call has returned that is left with this status. -/
def answerOf (v : Visit) : CallStatus → List Answer
  | .over (.evaluated e) => [⟨v.toArrival, e⟩]
  | _ => []

theorem answers_append (status : CallStatus) :
    (es ++ (s.endingOf i v c status).toList).filterMap Ending.answer? =
      es.filterMap Ending.answer? ++ answerOf v status := by
  rw [List.filterMap_append]
  rcases status with d | (e | _ | _) <;> rfl

/-- The gate has the sinks that it had at first, and the memory agrees with the calls that have
ended. -/
structure Kept (g : Gate) (n : Nat) (s : GateSession) (es : List Ending) : Prop where
  emitter : s.gate.emitter = g.emitter
  agrees : (s.gate.telemetry.memory n).Agrees (es.filterMap Ending.answer?)

namespace Kept

theorem turn (h : Kept g n s es) (hn : g.emitter.KeepsIn n) {status : CallStatus}
    {told : Option Admission} {rs : List Record} (htells : s.gate.Tells g' rs)
    (hrs : (rs.foldl Memory.keep (s.gate.telemetry.memory n)).Agrees
      (es.filterMap Ending.answer? ++ answerOf v status)) :
    Kept g n (s.turn i v g' status told) (es ++ (s.endingOf i v c status).toList) where
  emitter := htells.emitter.trans h.emitter
  agrees := by
    change (g'.telemetry.memory n).Agrees _
    rw [htells.memory n (h.emitter ▸ hn), answers_append]
    exact hrs

theorem advance (h : Kept g n s es) (hn : g.emitter.KeepsIn n) (hfrom : c.From v.toArrival)
    (hcircuit : c.circuit = v.met.breaker.state) :
    Kept g n (s.turn i v (s.gate.step c).1 ((s.gate.step c).2.status c) (s.gate.told? c))
      (es ++ (s.endingOf i v c ((s.gate.step c).2.status c)).toList) := by
  have hst := s.gate.stride c
  apply h.turn hn (s.gate.tells_step c)
  -- If the circuit moves, that is told before the end of the call.
  have hmoved := h.agrees.moved (s.gate.breaker.change? (s.gate.step c).1.breaker)
  rw [List.foldl_append]
  generalize (s.gate.step c).2 = a at hst ⊢
  rcases a with _ | c' | (e | _ | _)
  · exact (List.append_nil _).symm ▸ hmoved
  · exact (List.append_nil _).symm ▸ hmoved
  · obtain ⟨f, rfl⟩ := hst.evaluation
    exact hmoved.answered (Call.describes hfrom hcircuit _)
  · exact (List.append_nil _).symm ▸ hmoved
  · exact (List.append_nil _).symm ▸ hmoved

theorem happens (h : Kept g n s es) (hn : g.emitter.KeepsIn n) (hr : Reached g s) {step : GateStep}
    (hs : s.Happens step s') : Kept g n s' (es ++ (s.ending? step).toList) := by
  have hnone : es ++ (none : Option Ending).toList = es := List.append_nil es
  cases hs with
  | arrive r draws => exact hnone.symm ▸ ⟨h.emitter, h.agrees⟩
  | @advance i v c hc =>
    rw [ending?_advance hc]
    exact h.advance hn (hr.call_from hc) (hr.circuit hc)
  | @cancel i v c hc =>
    rw [ending?_cancel hc]
    apply h.turn hn (s.gate.tells_cancel c)
    exact (List.append_nil _).symm ▸ h.agrees.moved _
  | miss hs hc =>
    rw [ending?_miss hs hc, hnone]
    exact h
  | wait ms => exact hnone.symm ▸ ⟨h.emitter, h.agrees⟩
  | replace p => exact hnone.symm ▸ ⟨h.emitter, h.agrees⟩

end Kept

/-- Whatever calls a gate has had, however they were interleaved or cancelled, a memory among its
sinks has one span for each call that has returned, which describes that call, in the order of their
ends; and durations, counters and errors of degraded verdicts are those of the spans. -/
theorem memory_is_exact (g : Gate) (steps : List GateStep) (n : Nat) (hn : g.emitter.KeepsIn n)
    (hm : g.telemetry.memory n = {}) :
    let m := (run g steps).gate.telemetry.memory n
    (run g steps).Tallied (endings g steps) ∧
    List.Forall₂ Span.Describes m.spans ((endings g steps).filterMap Ending.answer?) ∧
    m.durations = m.spans.map (fun s => (s.label, s.duration)) ∧
    (∀ label, m.resultCount label = m.spans.countP (·.label = label)) ∧
    m.degraded.map some = (m.spans.filter (·.degraded)).map (·.errorKind) := by
  have hstart : Kept g n { gate := g } [] := by
    refine ⟨rfl, ?_⟩
    rw [hm]
    exact ⟨.nil, rfl, rfl, rfl⟩
  have hkept : Kept g n (run g steps) (endings g steps) :=
    collect_induct hstart (fun s es step s' hr ih hs => ih.happens hn hr hs) steps
  refine ⟨tallied_run g steps, hkept.agrees.spans, hkept.agrees.durations, fun label => ?_,
    hkept.agrees.degraded⟩
  rw [Memory.resultCount, hkept.agrees.results, List.count, List.countP_map]
  apply List.countP_congr
  simp

/-- The frail gate with a memory and other sinks, one of which refuses durations. -/
def watched : Gate :=
  { frail with
    emitter := ⟨[.trace, { name := "broken", destination := .nowhere, refuses := [.duration] },
      .memory 0, .metrics]⟩ }

/-- After the outage two calls more, of which one is cancelled and the other is shed. -/
def aftermath : List GateStep :=
  outage ++ [.arrive fiveOfOne fun _ => 0, .arrive fiveOfOne fun _ => 0, .cancel 3, .advance 4]

theorem memory_is_exact_after_outage :
    watched.emitter.KeepsIn 0 ∧ watched.telemetry.memory 0 = {} ∧
      (run watched aftermath).visits.length = 5 ∧
      ((run watched aftermath).gate.telemetry.memory 0).spans.length = 4 ∧
      ((run watched aftermath).gate.telemetry.memory 0).resultCount .bypassed = 1 := by
  have hn : watched.emitter.KeepsIn 0 := by decide
  obtain ⟨-, hspans, -, hcount, -⟩ := memory_is_exact watched aftermath 0 hn rfl
  refine ⟨hn, rfl, rfl, hspans.length_eq.trans rfl, ?_⟩
  rw [hcount]
  rfl

end GateSession

end StockGate
