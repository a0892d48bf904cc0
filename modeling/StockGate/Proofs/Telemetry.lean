import StockGate.Proofs.Breaker.Moves
import StockGate.Telemetry.Sink

namespace StockGate

def Record.transition? : Record → Option Transition
  | .transition t => some t
  | _ => none

theorem Memory.foldl_keep_transitions (m : Memory) (rs : List Record) :
    (rs.foldl keep m).transitions = m.transitions ++ rs.filterMap Record.transition? := by
  induction rs generalizing m with
  | nil => exact (List.append_nil _).symm
  | cons r rs ih =>
    rw [List.foldl_cons, ih]
    cases r with
    | transition t => exact List.append_assoc m.transitions [t] _
    | span | duration | result | degraded => rfl

/-- One of the sinks, and no other one, keeps what it is told in this memory. -/
def Emitter.KeepsIn (e : Emitter) (i : Nat) : Prop :=
  e.sinks.filter (·.destination = .memory i) = [.memory i]

instance (e : Emitter) (i : Nat) : Decidable (e.KeepsIn i) :=
  inferInstanceAs (Decidable (_ = _))

/-- One of the sinks, and no other one, counts what it is told in the metrics. -/
def Emitter.Counts (e : Emitter) : Prop :=
  e.sinks.filter (·.destination = .metrics) = [.metrics]

instance (e : Emitter) : Decidable e.Counts :=
  inferInstanceAs (Decidable (_ = _))

/-- The emitter without the sinks that lead elsewhere. -/
def Emitter.only (e : Emitter) (d : Destination) : Emitter :=
  ⟨e.sinks.filter (·.destination = d)⟩

/-- What the sink lets through to where it leads. -/
def Sink.takes {β : Type} (s : Sink) (keep : β → Record → β) (b : β) (r : Record) : β :=
  if r.channel ∈ s.refuses then b else keep b r

/-- A part of telemetry that just the sinks with this destination change, each by what it takes. -/
structure Destination.Owns {β : Type} (d : Destination) (part : Telemetry → β)
    (keep : β → Record → β) : Prop where
  own : ∀ (s : Sink) (t : Telemetry) (r : Record), s.destination = d →
    part (s.accept t r) = s.takes keep (part t) r
  other : ∀ (s : Sink) (t : Telemetry) (r : Record), s.destination ≠ d →
    part (s.accept t r) = part t

namespace Sink

variable {β : Type} {s : Sink} {i : Nat}

theorem accept_memory_of_ne (h : s.destination ≠ .memory i) (t : Telemetry) (r : Record) :
    (s.accept t r).memory i = t.memory i := by
  unfold accept
  split
  · rfl
  · unfold deliver
    split
    · next j hj =>
      have hij : i ≠ j := by
        rintro rfl
        exact h hj
      exact if_neg hij
    · rfl
    · split <;> rfl
    · rfl

theorem accept_moves (s : Sink) (t : Telemetry) (r : Record) :
    (s.accept t r).log.filterMap Event.move? = t.log.filterMap Event.move? := by
  have hlogged {e : Event} (he : e.move? = none) :
      (t.logged e).log.filterMap Event.move? = t.log.filterMap Event.move? := by
    rw [Telemetry.logged, List.filterMap_append, List.filterMap_cons_none he]
    exact List.append_nil _
  unfold accept
  split
  · exact hlogged rfl
  · unfold deliver
    split
    · rfl
    · rfl
    · split
      · exact hlogged rfl
      · rfl
    · rfl

theorem accept_traces (s : Sink) (t : Telemetry) (r : Record) :
    (s.accept t r).traces = t.traces := by
  unfold accept
  split
  · rfl
  · unfold deliver
    split
    · rfl
    · rfl
    · split <;> rfl
    · rfl

theorem takes_of_healthy (h : s.refuses = []) (keep : β → Record → β) : s.takes keep = keep := by
  funext b r
  rw [takes, h, if_neg List.not_mem_nil]

end Sink

theorem owns_memory (i : Nat) : (Destination.memory i).Owns (·.memory i) Memory.keep where
  own := by
    intro s t r hs
    unfold Sink.accept Sink.takes
    by_cases hr : r.channel ∈ s.refuses
    · simp only [if_pos hr]
      rfl
    · simp only [if_neg hr, Sink.deliver, hs]
      exact if_pos rfl
  other := fun _ t r hs => Sink.accept_memory_of_ne hs t r

theorem owns_metrics : Destination.metrics.Owns (·.metrics) Metrics.count where
  own := by
    intro s t r hs
    unfold Sink.accept Sink.takes
    by_cases hr : r.channel ∈ s.refuses
    · simp only [if_pos hr]
      rfl
    · simp only [if_neg hr, Sink.deliver, hs]
  other := by
    intro s t r hs
    unfold Sink.accept
    split
    · rfl
    · unfold Sink.deliver
      split
      · rfl
      · next hd => exact absurd hd hs
      · split <;> rfl
      · rfl

theorem Emitter.emit_eq_of_accept {β : Type} (part : Telemetry → β)
    (h : ∀ s t r, part (Sink.accept s t r) = part t) (e : Emitter)
    (t : Telemetry) (rs : List Record) : part (e.emit t rs) = part t := by
  have hsink (s : Sink) (t : Telemetry) (rs : List Record) :
      part (rs.foldl s.accept t) = part t := by
    induction rs generalizing t with
    | nil => rfl
    | cons r rs ih => rw [List.foldl_cons, ih, h]
  unfold emit
  induction e.sinks generalizing t with
  | nil => rfl
  | cons s sinks ih => rw [List.foldl_cons, ih, hsink]

/-- Of all sinks those that lead to the part decide what becomes of it, in order. -/
theorem Destination.Owns.emit {β : Type} {part : Telemetry → β} {keep : β → Record → β}
    {d : Destination} (h : d.Owns part keep) (e : Emitter) (t : Telemetry) (rs : List Record) :
    part (e.emit t rs) =
      (e.only d).sinks.foldl (fun b s => rs.foldl (s.takes keep) b) (part t) := by
  have hown (s : Sink) (hs : s.destination = d) (t : Telemetry) (rs : List Record) :
      part (rs.foldl s.accept t) = rs.foldl (s.takes keep) (part t) :=
    (List.foldl_hom part fun t r => (h.own s t r hs).symm).symm
  have hother (s : Sink) (hs : s.destination ≠ d) (t : Telemetry) (rs : List Record) :
      part (rs.foldl s.accept t) = part t := by
    induction rs generalizing t with
    | nil => rfl
    | cons r rs ih => rw [List.foldl_cons, ih, h.other s t r hs]
  unfold Emitter.emit Emitter.only
  induction e.sinks generalizing t with
  | nil => rfl
  | cons s sinks ih =>
    rw [List.foldl_cons, ih]
    by_cases hs : s.destination = d
    · simp only [List.filter_cons, hs, decide_true, if_true, List.foldl_cons, hown s hs]
    · simp only [List.filter_cons, hs, decide_false, Bool.false_eq_true, if_false, hother s hs]

namespace Emitter

variable {e : Emitter} {i : Nat}

theorem emit_memory (h : e.KeepsIn i) (t : Telemetry) (rs : List Record) :
    (e.emit t rs).memory i = rs.foldl Memory.keep (t.memory i) := by
  have hemit := (owns_memory i).emit e t rs
  rw [only, h, List.foldl_cons, Sink.takes_of_healthy rfl] at hemit
  exact hemit

theorem emit_metrics (h : e.Counts) (t : Telemetry) (rs : List Record) :
    (e.emit t rs).metrics = rs.foldl Metrics.count t.metrics := by
  have hemit := owns_metrics.emit e t rs
  rw [only, h, List.foldl_cons, Sink.takes_of_healthy rfl] at hemit
  exact hemit

/-- A memory has no use for the sinks that lead elsewhere. -/
theorem emit_memory_only (e : Emitter) (i : Nat) {t t' : Telemetry}
    (h : t'.memory i = t.memory i) (rs : List Record) :
    ((e.only (.memory i)).emit t' rs).memory i = (e.emit t rs).memory i := by
  have hemit := (owns_memory i).emit (e.only (.memory i)) t' rs
  refine hemit.trans (Eq.trans ?_ ((owns_memory i).emit e t rs).symm)
  rw [only, only, List.filter_filter]
  simp only [Bool.and_self, h]

/-- Sinks write to the log, but never of a move. -/
theorem emit_moves (e : Emitter) (t : Telemetry) (rs : List Record) :
    (e.emit t rs).log.filterMap Event.move? = t.log.filterMap Event.move? :=
  e.emit_eq_of_accept (fun t => t.log.filterMap Event.move?) Sink.accept_moves t rs

theorem emit_traces (e : Emitter) (t : Telemetry) (rs : List Record) :
    (e.emit t rs).traces = t.traces :=
  e.emit_eq_of_accept Telemetry.traces Sink.accept_traces t rs

theorem emit_nil (e : Emitter) (t : Telemetry) : e.emit t [] = t := by
  unfold emit
  induction e.sinks with
  | nil => rfl
  | cons s sinks ih => exact ih

end Emitter

end StockGate
