import Mathlib.Data.List.Forall2
import StockGate.Telemetry.Sink

namespace StockGate

variable {strict : Prop}

/-- The spans differ at most in whether they are degraded, and if `strict` in nothing. -/
inductive Span.Akin (strict : Prop) (s : Span) : Span → Prop
  | degraded (degraded : Bool) (h : strict → degraded = s.degraded) :
      Akin strict s { s with degraded }

inductive Record.Akin (strict : Prop) : Record → Record → Prop
  | span {s s' : Span} (h : s.Akin strict s') : Akin strict (.span s) (.span s')
  | same (r : Record) : Akin strict r r

structure Memory.Akin (strict : Prop) (m m' : Memory) : Prop where
  spans : List.Forall₂ (Span.Akin strict) m.spans m'.spans
  durations : m'.durations = m.durations
  results : m'.results = m.results
  transitions : m'.transitions = m.transitions
  degraded : strict → m'.degraded = m.degraded

structure Metrics.Akin (strict : Prop) (m m' : Metrics) : Prop where
  validations : m'.validations = m.validations
  durations : m'.durations = m.durations
  transitions : m'.transitions = m.transitions
  degraded : strict → m'.degraded = m.degraded

inductive Trace.Akin (strict : Prop) (t : Trace) : Trace → Prop
  | recorded {recorded : Option Span} (h : Option.Rel (Span.Akin strict) t.recorded recorded) :
      Akin strict t { t with recorded }

structure Telemetry.Akin (strict : Prop) (t t' : Telemetry) : Prop where
  memory : ∀ n, (t.memory n).Akin strict (t'.memory n)
  metrics : t.metrics.Akin strict t'.metrics
  traces : List.Forall₂ (Trace.Akin strict) t.traces t'.traces

namespace Span.Akin

variable {s s' : Span}

theorem refl (strict : Prop) (s : Span) : s.Akin strict s :=
  .degraded s.degraded fun _ => rfl

theorem eq_of_strict (h : s.Akin strict s') (hs : strict) : s' = s := by
  cases h with
  | degraded degraded h => rw [h hs]

theorem label (h : s.Akin strict s') : s'.label = s.label := by
  cases h
  rfl

theorem duration (h : s.Akin strict s') : s'.duration = s.duration := by
  cases h
  rfl

theorem records (h : s.Akin strict s') :
    List.Forall₂ (Record.Akin strict) (Record.ofSpan s) (Record.ofSpan s') := by
  unfold Record.ofSpan
  rw [h.label, h.duration]
  exact .cons (.span h) (.cons (.same _) (.cons (.same _) .nil))

end Span.Akin

theorem Record.Akin.channel {r r' : Record} (h : r.Akin strict r') : r'.channel = r.channel := by
  cases h <;> rfl

namespace Memory.Akin

variable {m m' : Memory}

theorem refl (strict : Prop) (m : Memory) : m.Akin strict m where
  spans := List.forall₂_same.mpr fun s _ => .refl strict s
  durations := rfl
  results := rfl
  transitions := rfl
  degraded := fun _ => rfl

theorem eq_of_strict (h : m.Akin strict m') (hs : strict) : m' = m := by
  have hspans : m'.spans = m.spans := by
    have heq := h.spans.imp fun _ _ hakin => (hakin.eq_of_strict hs).symm
    rw [List.forall₂_eq_eq_eq] at heq
    exact heq.symm
  obtain ⟨spans, durations, results, transitions, degraded⟩ := m'
  obtain rfl := hspans
  obtain rfl := h.durations
  obtain rfl := h.results
  obtain rfl := h.transitions
  obtain rfl := h.degraded hs
  rfl

theorem keep {r r' : Record} (h : m.Akin strict m') (hr : r.Akin strict r') :
    (m.keep r).Akin strict (m'.keep r') := by
  cases hr with
  | span hs => exact { h with spans := List.rel_append h.spans (.cons hs .nil) }
  | same r =>
    cases r with
    | span s => exact { h with spans := List.rel_append h.spans (.cons (.refl strict s) .nil) }
    | duration label d => exact { h with durations := congrArg (· ++ [(label, d)]) h.durations }
    | result label => exact { h with results := congrArg (· ++ [label]) h.results }
    | transition t => exact { h with transitions := congrArg (· ++ [t]) h.transitions }
    | degraded kind =>
      exact { h with degraded := fun hs => congrArg (· ++ [kind]) (h.degraded hs) }

end Memory.Akin

namespace Metrics.Akin

variable {m m' : Metrics}

theorem refl (strict : Prop) (m : Metrics) : m.Akin strict m :=
  ⟨rfl, rfl, rfl, fun _ => rfl⟩

theorem eq_of_strict (h : m.Akin strict m') (hs : strict) : m' = m := by
  obtain ⟨validations, durations, transitions, degraded⟩ := m'
  obtain rfl := h.validations
  obtain rfl := h.durations
  obtain rfl := h.transitions
  obtain rfl := h.degraded hs
  rfl

theorem count {r r' : Record} (h : m.Akin strict m') (hr : r.Akin strict r') :
    (m.count r).Akin strict (m'.count r') := by
  cases hr with
  | span => exact h
  | same r =>
    cases r with
    | span => exact h
    | duration label d =>
      exact { h with durations := congrArg (Metrics.bump · label (· ++ [d])) h.durations }
    | result label =>
      exact { h with validations := congrArg (Metrics.bump · label (· + 1)) h.validations }
    | transition t =>
      exact { h with transitions := congrArg (Metrics.bump · t (· + 1)) h.transitions }
    | degraded kind =>
      exact { h with
        degraded := fun hs => congrArg (Metrics.bump · kind (· + 1)) (h.degraded hs) }

end Metrics.Akin

theorem Trace.Akin.refl (strict : Prop) (t : Trace) : t.Akin strict t := by
  apply Trace.Akin.recorded (t := t)
  cases t.recorded with
  | none => exact .none
  | some s => exact .some (.refl strict s)

theorem Trace.Akin.eq_of_strict {t t' : Trace} (h : t.Akin strict t') (hs : strict) : t' = t := by
  cases h with
  | @recorded recorded h =>
    have hrecorded : recorded = t.recorded := by
      generalize t.recorded = before at h
      cases h with
      | none => rfl
      | some h => rw [h.eq_of_strict hs]
    rw [hrecorded]

/-- Between the two nothing has been told but failures. -/
structure Telemetry.Noted (t t' : Telemetry) : Prop where
  memory : ∀ n, ∃ kinds, t'.memory n = { t.memory n with degraded := kinds }
  metrics : ∃ counts, t'.metrics = { t.metrics with degraded := counts }
  traces : t'.traces = t.traces

namespace Telemetry

variable {t t' u u' : Telemetry}

theorem noted_of_eq (hm : t'.memory = t.memory) (hc : t'.metrics = t.metrics)
    (ht : t'.traces = t.traces) : t.Noted t' where
  memory := fun n => ⟨(t.memory n).degraded, by rw [hm]⟩
  metrics := ⟨t.metrics.degraded, hc⟩
  traces := ht

theorem Noted.trans (h : t.Noted t') (h' : t'.Noted u) : t.Noted u where
  memory := by
    intro n
    obtain ⟨kinds, hkinds⟩ := h.memory n
    obtain ⟨kinds', hkinds'⟩ := h'.memory n
    exact ⟨kinds', by rw [hkinds', hkinds]⟩
  metrics := by
    obtain ⟨counts, hcounts⟩ := h.metrics
    obtain ⟨counts', hcounts'⟩ := h'.metrics
    exact ⟨counts', by rw [hcounts', hcounts]⟩
  traces := h'.traces.trans h.traces

theorem foldl_logged (t : Telemetry) (events : List Event) :
    events.foldl logged t = { t with log := t.log ++ events } := by
  induction events generalizing t with
  | nil => rw [List.append_nil]; rfl
  | cons e events ih => rw [List.foldl_cons, ih, logged, List.append_assoc, List.singleton_append]

theorem noted_logged (t : Telemetry) (events : List Event) : t.Noted (events.foldl logged t) := by
  rw [foldl_logged]
  exact noted_of_eq rfl rfl rfl

namespace Akin

theorem refl (strict : Prop) (t : Telemetry) : t.Akin strict t where
  memory := fun n => .refl strict (t.memory n)
  metrics := .refl strict t.metrics
  traces := List.forall₂_same.mpr fun tr _ => .refl strict tr

theorem eq_of_strict (h : t.Akin strict t') (hs : strict) : t' = { t with log := t'.log } := by
  have hmemory : t'.memory = t.memory := by
    funext n
    exact (h.memory n).eq_of_strict hs
  have hmetrics : t'.metrics = t.metrics := h.metrics.eq_of_strict hs
  have htraces : t'.traces = t.traces := by
    have heq := h.traces.imp fun _ _ hakin => (hakin.eq_of_strict hs).symm
    rw [List.forall₂_eq_eq_eq] at heq
    exact heq.symm
  rw [← hmemory, ← hmetrics, ← htraces]

theorem noted (h : t.Akin strict t') (hs : ¬ strict) (hu : t.Noted u) (hu' : t'.Noted u') :
    u.Akin strict u' where
  memory := by
    intro n
    obtain ⟨kinds, hkinds⟩ := hu.memory n
    obtain ⟨kinds', hkinds'⟩ := hu'.memory n
    rw [hkinds, hkinds']
    exact { h.memory n with degraded := fun hstrict => absurd hstrict hs }
  metrics := by
    obtain ⟨counts, hcounts⟩ := hu.metrics
    obtain ⟨counts', hcounts'⟩ := hu'.metrics
    rw [hcounts, hcounts']
    exact { h.metrics with degraded := fun hstrict => absurd hstrict hs }
  traces := by
    rw [hu.traces, hu'.traces]
    exact h.traces

theorem logged (h : t.Akin strict t') (events events' : List Event) :
    (events.foldl Telemetry.logged t).Akin strict (events'.foldl Telemetry.logged t') := by
  rw [foldl_logged, foldl_logged]
  exact ⟨h.memory, h.metrics, h.traces⟩

theorem traced {tr tr' : Trace} (h : t.Akin strict t') (htr : tr.Akin strict tr') :
    (t.traced tr).Akin strict (t'.traced tr') :=
  { h with traces := List.rel_append h.traces (.cons htr .nil) }

end Akin

end Telemetry

namespace Sink

variable {t t' : Telemetry} {r r' : Record}

theorem akin_deliver (s : Sink) (h : t.Akin strict t') (hr : r.Akin strict r') :
    (s.deliver t r).Akin strict (s.deliver t' r') := by
  unfold deliver
  cases s.destination with
  | memory i =>
    refine { h with memory := fun n => ?_ }
    simp only [Metrics.bump]
    by_cases hn : n = i
    · simp only [if_pos hn]
      exact (h.memory n).keep hr
    · simp only [if_neg hn]
      exact h.memory n
  | metrics => exact { h with metrics := h.metrics.count hr }
  | trace =>
    cases hr with
    | @span s s' => exact h.logged [_] [_]
    | same r =>
      cases r with
      | span s => exact h.logged [_] [_]
      | duration | result | transition | degraded => exact h
  | nowhere => exact h

theorem akin_accept (s : Sink) (h : t.Akin strict t') (hr : r.Akin strict r') :
    (s.accept t r).Akin strict (s.accept t' r') := by
  unfold accept
  rw [hr.channel]
  split
  · exact h.logged [_] [_]
  · exact s.akin_deliver h hr

theorem noted_accept (s : Sink) (t : Telemetry) (kind : ErrorKind) :
    t.Noted (s.accept t (.degraded kind)) := by
  unfold accept
  split
  · exact Telemetry.noted_of_eq rfl rfl rfl
  · unfold deliver
    cases s.destination with
    | memory i =>
      refine ⟨fun n => ?_, ⟨_, rfl⟩, rfl⟩
      simp only [Metrics.bump]
      split
      · exact ⟨_, rfl⟩
      · exact ⟨_, rfl⟩
    | metrics => exact ⟨fun n => ⟨_, rfl⟩, ⟨_, rfl⟩, rfl⟩
    | trace | nowhere => exact Telemetry.noted_of_eq rfl rfl rfl

end Sink

namespace Emitter

variable {t t' : Telemetry} {rs rs' : List Record}

theorem akin_foldl_accept (s : Sink) (h : t.Akin strict t')
    (hrs : List.Forall₂ (Record.Akin strict) rs rs') :
    (rs.foldl s.accept t).Akin strict (rs'.foldl s.accept t') := by
  induction hrs generalizing t t' with
  | nil => exact h
  | cons hr _ ih => exact ih (s.akin_accept h hr)

theorem akin_emit (e : Emitter) (h : t.Akin strict t')
    (hrs : List.Forall₂ (Record.Akin strict) rs rs') :
    (e.emit t rs).Akin strict (e.emit t' rs') := by
  unfold emit
  induction e.sinks generalizing t t' with
  | nil => exact h
  | cons s sinks ih => exact ih (akin_foldl_accept s h hrs)

theorem noted_emit (e : Emitter) (t : Telemetry) (kind : ErrorKind) :
    t.Noted (e.emit t [.degraded kind]) := by
  unfold emit
  induction e.sinks generalizing t with
  | nil => exact Telemetry.noted_of_eq rfl rfl rfl
  | cons s sinks ih => exact (s.noted_accept t kind).trans (ih _)

end Emitter

end StockGate
