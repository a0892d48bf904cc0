import StockGate.Proofs.Gate.Limits
import StockGate.Proofs.Gate.Listeners
import StockGate.Proofs.Gate.Records

namespace StockGate

/-- The trace that a remark closes, with a record if the sinks put spans onto traces. -/
def Remark.trace? (traces : Bool) (r : Remark) : Option Trace :=
  r.closed?.map fun x => x.1.trace (if traces then x.2.map x.1.span else none)

namespace Emitter

variable {e : Emitter} {t t' : Telemetry} {i n : Nat}

/-- The log and the traces apart, a remark comes to the records in it. -/
theorem hear_records (e : Emitter) (t : Telemetry) (r : Remark) :
    (e.hear t r).memory = (e.emit t r.records).memory ∧
      (e.hear t r).metrics = (e.emit t r.records).metrics := by
  cases r with
  | event x =>
    rw [Remark.records, emit_nil]
    exact ⟨rfl, rfl⟩
  | move | failure => exact ⟨rfl, rfl⟩
  | closed c x =>
    cases x with
    | none =>
      rw [Remark.records, emit_nil]
      exact ⟨rfl, rfl⟩
    | some x => exact ⟨rfl, rfl⟩

theorem hear_memory (hn : e.KeepsIn n) (t : Telemetry) (r : Remark) :
    (e.hear t r).memory n = r.records.foldl Memory.keep (t.memory n) := by
  rw [(e.hear_records t r).1, emit_memory hn]

theorem hear_metrics (hc : e.Counts) (t : Telemetry) (r : Remark) :
    (e.hear t r).metrics = r.records.foldl Metrics.count t.metrics := by
  rw [(e.hear_records t r).2, emit_metrics hc]

theorem hear_traces (e : Emitter) (t : Telemetry) (r : Remark) :
    (e.hear t r).traces = t.traces ++ (r.trace? e.traces).toList := by
  cases r with
  | event => exact (List.append_nil _).symm
  | move | failure => exact (emit_traces _ _ _).trans (List.append_nil _).symm
  | closed c x =>
    cases x with
    | none =>
      change _ = _ ++ [c.trace (if e.traces then none else none)]
      rw [ite_self]
      rfl
    | some x => exact congrArg (· ++ _) (emit_traces _ _ _)

theorem hearAll_traces (e : Emitter) (t : Telemetry) (rs : List Remark) :
    (e.hearAll t rs).traces = t.traces ++ rs.filterMap (Remark.trace? e.traces) := by
  induction rs generalizing t with
  | nil => exact (List.append_nil _).symm
  | cons r rs ih =>
    refine (ih (e.hear t r)).trans ?_
    rw [hear_traces, List.append_assoc, List.filterMap_cons]
    cases r.trace? e.traces <;> rfl

theorem hearAll_memory_only (e : Emitter) (h : t'.memory i = t.memory i) (rs : List Remark) :
    ((e.only (.memory i)).hearAll t' rs).memory i = (e.hearAll t rs).memory i := by
  induction rs generalizing t t' with
  | nil => exact h
  | cons r rs ih =>
    apply ih
    rw [(hear_records _ t' r).1, (e.hear_records t r).1]
    exact e.emit_memory_only i h r.records

end Emitter

/-- The metrics count what the memory keeps. -/
structure Metrics.Agrees (x : Metrics) (m : Memory) : Prop where
  validations : ∀ label, x.validations label = m.resultCount label
  durations : ∀ label, x.durations label = (m.durations.filter (·.1 = label)).map (·.2)
  transitions : ∀ t, x.transitions t = m.transitions.count t
  degraded : ∀ kind, x.degraded kind = m.degraded.count kind

namespace Metrics

variable {x : Metrics} {m : Memory}

theorem agrees_new : Agrees {} {} where
  validations := fun _ => rfl
  durations := fun _ => rfl
  transitions := fun _ => rfl
  degraded := fun _ => rfl

theorem bump_count {α : Type} [DecidableEq α] {f : α → Nat} {l : List α}
    (h : ∀ a, f a = l.count a) (b a : α) : bump f b (· + 1) a = (l ++ [b]).count a := by
  rw [List.count_append, List.count_singleton, ← h a]
  by_cases hab : a = b
  · simp [bump, hab]
  · simp [bump, hab, Ne.symm hab]

theorem Agrees.count (h : x.Agrees m) (r : Record) : (x.count r).Agrees (m.keep r) := by
  cases r with
  | span s => exact ⟨h.validations, h.durations, h.transitions, h.degraded⟩
  | duration label d =>
    refine ⟨h.validations, fun other => ?_, h.transitions, h.degraded⟩
    change bump x.durations label (· ++ [d]) other =
      ((m.durations ++ [(label, d)]).filter (·.1 = other)).map (·.2)
    rw [List.filter_append, List.map_append, ← h.durations other]
    by_cases hlabel : other = label
    · simp [bump, hlabel]
    · simp [bump, hlabel, Ne.symm hlabel]
  | result label => exact ⟨bump_count h.validations label, h.durations, h.transitions, h.degraded⟩
  | transition t => exact ⟨h.validations, h.durations, bump_count h.transitions t, h.degraded⟩
  | degraded kind => exact ⟨h.validations, h.durations, h.transitions, bump_count h.degraded kind⟩

theorem Agrees.foldl (h : x.Agrees m) (rs : List Record) :
    (rs.foldl Metrics.count x).Agrees (rs.foldl Memory.keep m) := by
  induction rs generalizing x m with
  | nil => exact h
  | cons r rs ih => exact ih (h.count r)

end Metrics

def Trace.carries (t : Trace) (name : String) : Bool :=
  t.fields.any (·.1 = name)

theorem Trace.carries_result (t : Trace) : t.carries "result" = t.recorded.isSome := by
  unfold carries fields arrivalFields
  cases t.recorded with
  | none => simp
  | some s => simp [Span.endFields]

/-- The traces with a result are the spans of the memory, field by field. -/
def Telemetry.Traces (t : Telemetry) (n : Nat) : Prop :=
  (t.traces.filter (·.carries "result")).map Trace.fields = (t.memory n).spans.map Span.fields

namespace Emitter

variable {e : Emitter} {t : Telemetry} {n : Nat}

theorem hear_agrees (hn : e.KeepsIn n) (hc : e.Counts) (h : t.metrics.Agrees (t.memory n))
    (r : Remark) : (e.hear t r).metrics.Agrees ((e.hear t r).memory n) := by
  rw [hear_metrics hc, hear_memory hn]
  exact h.foldl r.records

theorem hear_spans (hn : e.KeepsIn n) (t : Telemetry) (r : Remark) :
    ((e.hear t r).memory n).spans =
      (t.memory n).spans ++ (r.closed?.bind fun x => x.2.map x.1.span).toList := by
  rw [hear_memory hn]
  cases r with
  | event | move | failure => exact (List.append_nil _).symm
  | closed c x =>
    cases x with
    | none => exact (List.append_nil _).symm
    | some x => rfl

theorem hear_fields (hn : e.KeepsIn n) (ht : e.traces = true) (h : t.Traces n) (r : Remark) :
    (e.hear t r).Traces n := by
  unfold Telemetry.Traces at h ⊢
  rw [hear_traces, hear_spans hn, List.filter_append, List.map_append, List.map_append, h, ht]
  refine congrArg (_ ++ ·) ?_
  cases r with
  | event | move | failure => rfl
  | closed c x =>
    cases x with
    | none => simp [Remark.trace?, Remark.closed?, Trace.carries_result, Call.trace]
    | some x =>
      have hcarries : (c.trace (some (c.span x))).carries "result" = true :=
        Trace.carries_result _
      have hfields : (c.trace (some (c.span x))).fields = (c.span x).fields := by
        simp [Trace.fields, Call.trace, Span.fields, Call.span, Span.of]
      simp [Remark.trace?, Remark.closed?, hcarries, hfields]

/-- All sinks that refuse nothing agree with the memory. -/
def InConcord (e : Emitter) (n : Nat) (t : Telemetry) : Prop :=
  (e.Counts → t.metrics.Agrees (t.memory n)) ∧ (e.traces = true → t.Traces n)

theorem hearAll_inConcord (hn : e.KeepsIn n) (h : e.InConcord n t) (rs : List Remark) :
    e.InConcord n (e.hearAll t rs) := by
  induction rs generalizing t with
  | nil => exact h
  | cons r rs ih =>
    apply ih
    exact ⟨fun hc => hear_agrees hn hc (h.1 hc) r, fun ht => hear_fields hn ht (h.2 ht) r⟩

end Emitter

/-- Nothing has been told yet that this memory, the metrics or the traces would have kept. -/
structure Telemetry.Blank (t : Telemetry) (n : Nat) : Prop where
  memory : t.memory n = {}
  metrics : t.metrics = {}
  traces : t.traces = []

theorem Telemetry.Blank.inConcord {t : Telemetry} {n : Nat} (h : t.Blank n) (e : Emitter) :
    e.InConcord n t := by
  constructor
  · intro _
    rw [h.metrics, h.memory]
    exact Metrics.agrees_new
  · intro _
    rw [Traces, h.traces, h.memory]
    rfl

/-- What a span says of a call that returned this. -/
def Answer.span (x : Answer) : Span :=
  .of x.request x.evaluation.outcome x.met.breaker.state x.evaluation.verdict.isDegraded

/-- What the trace of a call says that ended like this, if the sinks put spans onto traces. -/
def Ending.trace (traces : Bool) (e : Ending) : Trace where
  product := e.request.product
  requested := e.request.quantity
  correlationId := e.request.caller.correlationId
  circuit := e.met.breaker.state
  recorded := if traces then e.answer?.map Answer.span else none

/-- A call that has ended in time has returned something unless it was cancelled. -/
theorem Ending.carries_result_iff {e : Ending} (h : e.InTime) :
    (e.trace true).carries "result" = false ↔ e.result = .cancelled := by
  rw [Trace.carries_result]
  by_cases hr : e.result = .cancelled
  · simp [trace, answer?, hr]
  · obtain ⟨-, x, hx, -⟩ := h hr
    simp [trace, answer?, hx]

namespace GateSession

variable {s s' : GateSession} {g g' : Gate} {i : Nat} {v : Visit} {c : Call} {es : List Ending}

/-- The sinks are those of the gate, and its traces are those of the calls that have ended. -/
structure Traced (g : Gate) (s : GateSession) (es : List Ending) : Prop where
  emitter : s.gate.emitter = g.emitter
  traces : s.gate.telemetry.traces =
    g.telemetry.traces ++ es.map (Ending.trace g.emitter.traces)

theorem map_closed_trace (hfrom : c.From v.toArrival) (hcircuit : c.circuit = v.met.breaker.state)
    (traces : Bool) (a : CallAdvance) :
    ((a.closed c).map fun x => x.1.trace (if traces then x.2.map x.1.span else none)) =
      (s.endingOf i v c (a.status c)).toList.map (Ending.trace traces) := by
  rcases a with _ | _ | (x | _ | _)
  · rfl
  · rfl
  · simp [CallAdvance.closed, CallAdvance.status, endingOf, Call.trace, Ending.trace,
      Ending.answer?, Call.span, Answer.span, hfrom.request, hcircuit]
  · simp [CallAdvance.closed, CallAdvance.status, endingOf, Call.trace, Ending.trace,
      Ending.answer?, hfrom.request, hcircuit]
  · simp [CallAdvance.closed, CallAdvance.status, endingOf, Call.trace, Ending.trace,
      Ending.answer?, hfrom.request, hcircuit]

theorem Traced.turn (h : Traced g s es) {rs : List Remark} {a : CallAdvance}
    {told : Option Admission} (htold : s.gate.Told g' rs)
    (hclosed : rs.filterMap Remark.closed? = a.closed c) (hfrom : c.From v.toArrival)
    (hcircuit : c.circuit = v.met.breaker.state) :
    Traced g (s.turn i v g' (a.status c) told)
      (es ++ (s.endingOf i v c (a.status c)).toList) where
  emitter := htold.emitter.trans h.emitter
  traces := by
    change g'.telemetry.traces = _
    have htraces : rs.filterMap (Remark.trace? g.emitter.traces) =
        (s.endingOf i v c (a.status c)).toList.map (Ending.trace g.emitter.traces) := by
      rw [← map_closed_trace hfrom hcircuit, ← hclosed, List.map_filterMap]
      rfl
    rw [htold.telemetry, Emitter.hearAll_traces, h.traces, h.emitter, htraces, List.map_append,
      List.append_assoc]

theorem Traced.happens (h : Traced g s es) (hr : Reached g s) {step : GateStep}
    (hs : s.Happens step s') : Traced g s' (es ++ (s.ending? step).toList) := by
  have hnone : es ++ (none : Option Ending).toList = es := List.append_nil es
  cases hs with
  | arrive r draws => exact hnone.symm ▸ ⟨h.emitter, h.traces⟩
  | @advance i v c hc =>
    rw [ending?_advance hc]
    obtain ⟨x, rs, hsays, hclosed⟩ := s.gate.speaks_step c
    obtain ⟨-, -, htold⟩ := hsays.of_quiet rfl
    rw [← hsays.snd_eq] at hclosed
    exact h.turn htold hclosed (hr.call_from hc) (hr.circuit hc)
  | @cancel i v c hc =>
    rw [ending?_cancel hc]
    obtain ⟨x, rs, hsays, hclosed⟩ := s.gate.says_cancel c
    obtain ⟨-, -, htold⟩ := hsays.of_quiet rfl
    exact h.turn (a := .over .cancelled) htold hclosed (hr.call_from hc) (hr.circuit hc)
  | miss hs hc =>
    rw [ending?_miss hs hc, hnone]
    exact h
  | wait ms => exact hnone.symm ▸ ⟨h.emitter, h.traces⟩
  | replace p => exact hnone.symm ▸ ⟨h.emitter, h.traces⟩

theorem traced_run (g : Gate) (steps : List GateStep) :
    Traced g (run g steps) (endings g steps) :=
  collect_induct (P := Traced g) ⟨rfl, (List.append_nil _).symm⟩
    (fun _ _ _ _ hr ih hs => ih.happens hr hs) steps

end GateSession

end StockGate
