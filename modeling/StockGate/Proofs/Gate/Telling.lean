import StockGate.Proofs.Gate.Step
import StockGate.Proofs.Telemetry

namespace StockGate

def Breaker.change? (b b' : Breaker) : Option Transition :=
  if b.state = b'.state then none else some ⟨b.state, b'.state⟩

/-- What is told of a failure that the policy turned into a verdict. -/
def Evaluation.note (e : Evaluation) : List Record :=
  match e.verdict, e.outcome.errorKind? with
  | .allow true, some kind => [.degraded kind]
  | _, _ => []

def Call.span (c : Call) (e : Evaluation) : Span :=
  .of c.request e.outcome c.circuit e.verdict.isDegraded

/-- What is told of the end of a call. -/
def CallAdvance.records (c : Call) : CallAdvance → List Record
  | .over (.evaluated e) => e.note ++ Record.ofSpan (c.span e)
  | _ => []

namespace Breaker

variable {b : Breaker} {now : Nat}

@[simp]
theorem change?_self (b : Breaker) : b.change? b = none :=
  if_pos rfl

theorem enter_move (b : Breaker) (now : Nat) (p : Policy) :
    (b.enter now p).2.2 = b.change? (b.enter now p).1 := by
  unfold enter
  cases hs : b.state with
  | closed => simp
  | opened =>
    simp only
    split <;> simp [change?, moveTo, hs]
  | halfOpen =>
    simp only
    split <;> simp [change?, hs]

theorem recordProbe_move (b : Breaker) (now : Nat) (success : Bool) :
    (b.recordProbe now success).2 = b.change? (b.recordProbe now success).1 := by
  unfold recordProbe
  cases success <;> cases hs : b.state <;> simp [change?, moveTo, hs]

theorem recordOrdinary_move (b : Breaker) (now : Nat) (p : Policy) (success : Bool) :
    (b.recordOrdinary now p success).2 = b.change? (b.recordOrdinary now p success).1 := by
  unfold recordOrdinary
  simp only
  split
  · next hs => split <;> simp [change?, moveTo, hs]
  · simp

theorem record_move (b : Breaker) (now : Nat) (permit : Permit) (success : Bool) :
    (b.record now permit success).2 = b.change? (b.record now permit success).1 := by
  unfold record
  split
  · exact b.recordProbe_move now success
  · exact b.recordOrdinary_move now permit.policy success

theorem release_move (b : Breaker) (now : Nat) (permit : Permit) :
    (b.release now permit).2 = b.change? (b.release now permit).1 := by
  unfold release
  split
  · exact b.record_move now permit false
  · exact b.change?_self.symm

end Breaker

namespace FlagGate

theorem events_moves (g : FlagGate) (key : String) (answer : Option FlagAnswer) :
    (g.events key answer).filterMap Event.move? = [] := by
  unfold events resolutionEvents
  rcases answer with _ | _ | v
  · rfl
  · rfl
  · cases hv : v.resolution <;> simp [hv, Event.move?]

end FlagGate

namespace Validation

theorem step_moves (v : Validation) (now : Nat) (draws : Nat → Nat) (catalog : Catalog) :
    (v.step now draws catalog).2.1.filterMap Event.move? = [] := by
  unfold step
  split
  · rfl
  · split
    · simp only [afterLookup]
      split
      · rfl
      · rfl
      · simp only [afterError]
        split <;> rfl
    · rfl

end Validation

theorem Permit.dropEvents_moves (p : Permit) : p.dropEvents.filterMap Event.move? = [] := by
  unfold dropEvents
  split <;> rfl

namespace Gate

/-- What has been told since the gate was as it was: memories of their own have kept all of it, and
the log has the moves. -/
structure Tells (g g' : Gate) (rs : List Record) : Prop where
  emitter : g'.emitter = g.emitter
  memory : ∀ i, g.emitter.KeepsIn i →
    g'.telemetry.memory i = rs.foldl Memory.keep (g.telemetry.memory i)
  log : g'.telemetry.log.filterMap Event.move? =
    g.telemetry.log.filterMap Event.move? ++ rs.filterMap Record.transition?

variable {g g' g'' : Gate} {c : Call} {rs rs' : List Record}

theorem tells_nothing (he : g'.emitter = g.emitter) (ht : g'.telemetry = g.telemetry) :
    g.Tells g' [] where
  emitter := he
  memory := fun _ _ => by rw [ht, List.foldl_nil]
  log := by rw [ht, List.filterMap_nil, List.append_nil]

theorem Tells.trans (h : g.Tells g' rs) (h' : g'.Tells g'' rs') : g.Tells g'' (rs ++ rs') where
  emitter := h'.emitter.trans h.emitter
  memory := by
    intro i hi
    rw [h'.memory i (h.emitter ▸ hi), h.memory i hi, List.foldl_append]
  log := by rw [h'.log, h.log, List.filterMap_append, List.append_assoc]

theorem Tells.trans_nil (h : g.Tells g' rs) (h' : g'.Tells g'' []) : g.Tells g'' rs := by
  simpa using h.trans h'

theorem Tells.nil_trans (h : g.Tells g' []) (h' : g'.Tells g'' rs) : g.Tells g'' rs :=
  h.trans h'

theorem logged_telemetry (g : Gate) (events : List Event) :
    (g.logged events).telemetry.memory = g.telemetry.memory ∧
      (g.logged events).telemetry.log = g.telemetry.log ++ events := by
  unfold logged
  generalize g.telemetry = t
  induction events generalizing t with
  | nil => exact ⟨rfl, (List.append_nil _).symm⟩
  | cons e events ih =>
    obtain ⟨hm, hl⟩ := ih (t.logged e)
    refine ⟨hm, hl.trans ?_⟩
    rw [Telemetry.logged, List.append_assoc, List.singleton_append]

theorem tells_logged (g : Gate) {events : List Event} (h : events.filterMap Event.move? = []) :
    g.Tells (g.logged events) [] where
  emitter := rfl
  memory := fun i _ => congrFun (g.logged_telemetry events).1 i
  log := by rw [(g.logged_telemetry events).2, List.filterMap_append, h, List.filterMap_nil]

theorem tells_traced (g : Gate) (t : Trace) : g.Tells (g.traced t) [] where
  emitter := rfl
  memory := fun _ _ => rfl
  log := (List.append_nil _).symm

theorem tells_emit (g : Gate) {rs : List Record} (h : rs.filterMap Record.transition? = []) :
    g.Tells (g.emit rs) rs where
  emitter := rfl
  memory := fun _ hi => Emitter.emit_memory hi _ _
  log := by
    rw [h, List.append_nil]
    exact Emitter.emit_moves _ _ _

theorem tells_update (g : Gate) (b : Breaker) (t : Option Transition) :
    g.Tells (g.update b t) (t.toList.map .transition) := by
  cases t with
  | none => exact tells_nothing rfl rfl
  | some t =>
    -- The move is in the log before any sink is told.
    obtain ⟨hm, hl⟩ := { g with breaker := b }.logged_telemetry [.circuitMoved t]
    refine ⟨rfl, fun i hi => ?_, ?_⟩
    · refine (Emitter.emit_memory hi _ _).trans ?_
      rw [hm]
      rfl
    · refine (Emitter.emit_moves _ _ _).trans ?_
      rw [hl, List.filterMap_append]
      rfl

theorem tells_noteFailure (g : Gate) (e : Evaluation) : g.Tells (g.noteFailure e) e.note := by
  unfold noteFailure Evaluation.note
  rcases e.verdict with (_ | _) | _ | _
  · exact tells_nothing rfl rfl
  · cases e.outcome.errorKind? with
    | none => exact tells_nothing rfl rfl
    | some kind => exact (g.tells_logged rfl).nil_trans (tells_emit _ rfl)
  · exact tells_nothing rfl rfl
  · exact g.tells_logged rfl

theorem tells_finish (g : Gate) (c : Call) (f : Finding) :
    g.Tells (g.finish c f).1
      (CallAdvance.records c (.over (.evaluated (c.evaluation f)))) := by
  have hnote := g.tells_noteFailure (c.evaluation f)
  have hmoves (s : Span) : (Record.ofSpan s).filterMap Record.transition? = [] := rfl
  -- The trace of the call comes last, and no sink is told of it.
  have hspan := (g.noteFailure (c.evaluation f)).tells_emit (hmoves (c.span (c.evaluation f)))
  exact (hnote.trans hspan).trans_nil (tells_traced _ _)

theorem tells_enter (g : Gate) (p : Policy) :
    g.Tells (g.enter p).1
      ((g.breaker.change? (g.breaker.enter g.now p).1).toList.map .transition) := by
  rw [← Breaker.enter_move]
  exact tells_update _ _ _

theorem tells_record (g : Gate) (permit : Permit) (success : Bool) :
    g.Tells (g.record permit success)
      ((g.breaker.change? (g.breaker.record g.now permit success).1).toList.map .transition) := by
  rw [← Breaker.record_move]
  exact tells_update _ _ _

theorem tells_release (g : Gate) (permit : Permit) :
    g.Tells (g.release permit)
      ((g.breaker.change? (g.breaker.release g.now permit).1).toList.map .transition) := by
  rw [← Breaker.release_move]
  exact (g.tells_logged permit.dropEvents_moves).nil_trans (tells_update _ _ _)

/-- The move of the circuit that leads from one gate to another, as it is told. -/
def moved (g g' : Gate) : List Record :=
  (g.breaker.change? g'.breaker).toList.map .transition

theorem Tells.to_moved {b : Breaker}
    (h : g.Tells g' ((g.breaker.change? b).toList.map .transition ++ rs)) (hb : g'.breaker = b) :
    g.Tells g' (g.moved g' ++ rs) := by
  rwa [moved, hb]

theorem Tells.stay (h : g.Tells g' rs) (hb : g'.breaker = g.breaker) :
    g.Tells g' (g.moved g' ++ rs) := by
  apply Tells.to_moved _ hb
  rw [Breaker.change?_self]
  exact h

theorem finish_breaker (g : Gate) (c : Call) (f : Finding) :
    (g.finish c f).1.breaker = g.breaker :=
  breaker_eq_of_quiet (g.quiet_finish c f)

theorem cancel_of_asking {w : Awaited FlagAnswer} (hs : c.stage = .asking w) :
    g.cancel c = g.traced (c.trace none) := by
  rw [cancel, hs]

theorem cancel_of_validating {permit : Permit} {v : Validation}
    (hs : c.stage = .validating permit v) :
    g.cancel c = (g.release permit).traced (c.trace none) := by
  rw [cancel, hs]

theorem tells_cancel (g : Gate) (c : Call) : g.Tells (g.cancel c) (g.moved (g.cancel c)) := by
  rw [← List.append_nil (g.moved _)]
  cases hs : c.stage with
  | asking w =>
    rw [cancel_of_asking hs]
    exact (g.tells_traced _).stay rfl
  | validating permit v =>
    rw [cancel_of_validating hs]
    have htraced := (g.release permit).tells_traced (c.trace none)
    exact Tells.to_moved ((g.tells_release permit).trans htraced) (update_breaker _ _ _)

theorem tells_validate (g : Gate) (c : Call) :
    g.Tells (g.validate c).1 (g.moved (g.validate c).1 ++ (g.validate c).2.records c) := by
  have henter := g.tells_enter c.policy
  have hb : (g.enter c.policy).1.breaker = (g.breaker.enter g.now c.policy).1 :=
    update_breaker _ _ _
  cases ha : (g.breaker.enter g.now c.policy).2.1 with
  | refused state =>
    rw [validate_of_refused ha, finish_snd]
    have hmoves : [Event.lookupShed state].filterMap Event.move? = [] := rfl
    have hlog := (g.enter c.policy).1.tells_logged hmoves
    apply Tells.to_moved (henter.trans (hlog.nil_trans (tells_finish _ c .shed)))
    exact (finish_breaker _ c .shed).trans hb
  | granted permit =>
    rw [validate_of_granted ha]
    exact Tells.to_moved (henter.trans (tells_nothing rfl rfl)) hb

theorem tells_afterFlag (g : Gate) (c : Call) (answer : Option FlagAnswer) :
    g.Tells (g.afterFlag c answer).1
      (g.moved (g.afterFlag c answer).1 ++ (g.afterFlag c answer).2.records c) := by
  have hlog := g.tells_logged (g.flag.events_moves g.flag.key answer)
  unfold afterFlag
  simp only
  split
  · exact hlog.nil_trans (tells_validate _ c)
  · exact (hlog.nil_trans (tells_finish _ c .skipped)).stay (finish_breaker _ c .skipped)

theorem tells_afterValidation (g : Gate) (c : Call) (permit : Permit)
    (advance : ValidationAdvance) :
    g.Tells (g.afterValidation c permit advance).1
      (g.moved (g.afterValidation c permit advance).1 ++
        (g.afterValidation c permit advance).2.records c) := by
  cases advance with
  | waiting => exact (tells_nothing rfl rfl).stay rfl
  | moved v => exact (tells_nothing rfl rfl).stay rfl
  | finished f =>
    have hrecord := g.tells_record permit (Outcome.of c.request f).healthy
    apply Tells.to_moved (hrecord.trans (tells_finish _ c f))
    exact (finish_breaker _ c f).trans (update_breaker _ _ _)
  | overflown => exact (g.tells_cancel c).trans (tells_nothing rfl rfl)

/-- A step tells of the move that it makes, and of the end of the call if there is one. -/
theorem tells_step (g : Gate) (c : Call) :
    g.Tells (g.step c).1 (g.moved (g.step c).1 ++ (g.step c).2.records c) := by
  unfold step
  cases c.stage with
  | asking w =>
    by_cases hnow : g.now < w.ends
    · simp only [if_pos hnow]
      exact (tells_nothing rfl rfl).stay rfl
    · simp only [if_neg hnow]
      exact g.tells_afterFlag c w.answer?
  | validating permit v =>
    have hmoves := v.step_moves g.now c.draws g.catalog
    simp only
    generalize v.step g.now c.draws g.catalog = x at hmoves ⊢
    obtain ⟨catalog, events, advance⟩ := x
    have hask : g.Tells { g with catalog } [] := tells_nothing rfl rfl
    have hlog := { g with catalog }.tells_logged hmoves
    exact (hask.nil_trans hlog).nil_trans (tells_afterValidation _ c permit advance)

end Gate

end StockGate
