import StockGate.Gate.Call
import StockGate.Proofs.Likeness.Telemetry
import StockGate.Proofs.Likeness.Validation

namespace StockGate

variable {strict : Prop}

/-- The flag's answers are both errors, or the same value, for whatever reason. -/
inductive FlagsAlike : FlagAnswer → FlagAnswer → Prop
  | decided {v v' : FlagValue} (hv : v'.value = v.value) : FlagsAlike (.ok v) (.ok v')
  | failed (e e' : FlagError) : FlagsAlike (.error e) (.error e')

theorem FlagsAlike.refl : ∀ a : FlagAnswer, FlagsAlike a a
  | .ok _ => .decided rfl
  | .error e => .failed e e

theorem FlagGate.enabled_congr {a a' : Option FlagAnswer} (h : Option.Rel FlagsAlike a a') :
    FlagGate.enabled a' = FlagGate.enabled a := by
  cases h with
  | none => rfl
  | some h =>
    cases h with
    | decided hv => exact hv
    | failed => rfl

/-- The verdicts are the same, unless one policy is lenient about a failure and the other is not. -/
inductive Verdict.Akin (strict : Prop) : Verdict → Verdict → Prop
  | same (v : Verdict) : Akin strict v v
  | admitted (h : ¬ strict) : Akin strict .rejectSystem (.allow true)
  | rejected (h : ¬ strict) : Akin strict (.allow true) .rejectSystem

structure Evaluation.Akin (strict : Prop) (e e' : Evaluation) : Prop where
  outcome : e'.outcome = e.outcome
  verdict : e.verdict.Akin strict e'.verdict

inductive CallResult.Akin (strict : Prop) : CallResult → CallResult → Prop
  | evaluated {e e' : Evaluation} (h : e.Akin strict e') :
      Akin strict (.evaluated e) (.evaluated e')
  | cancelled : Akin strict .cancelled .cancelled
  | overflown : Akin strict .overflown .overflown

theorem Verdict.Akin.eq_of_strict {v v' : Verdict} (h : v.Akin strict v') (hs : strict) :
    v' = v := by
  cases h with
  | same => rfl
  | admitted hno | rejected hno => exact absurd hs hno

theorem CallResult.Akin.eq_of_strict {r r' : CallResult} (h : r.Akin strict r') (hs : strict) :
    r' = r := by
  cases h with
  | @evaluated e e' h =>
    obtain ⟨verdict, outcome⟩ := e'
    obtain rfl := h.outcome
    obtain rfl := h.verdict.eq_of_strict hs
    rfl
  | cancelled | overflown => rfl

theorem Verdict.akin_ofFailure {p q : Policy} (h : p.Akin strict q) :
    (Verdict.ofFailure p).Akin strict (.ofFailure q) := by
  cases h with
  | lenience lenient h =>
    unfold ofFailure
    by_cases hsame : lenient = p.failOpen
    · rw [hsame]
      exact .same _
    · have hno : ¬ strict := fun hs => hsame (h hs)
      cases hp : p.failOpen with
      | true =>
        obtain rfl : lenient = false := by simpa [hp] using hsame
        exact .rejected hno
      | false =>
        obtain rfl : lenient = true := by simpa [hp] using hsame
        exact .admitted hno

theorem Verdict.akin_decideOn {p q : Policy} (h : p.Akin strict q) (o : Outcome) :
    (decideOn o p).Akin strict (decideOn o q) := by
  unfold decideOn
  split
  · exact .same _
  · exact .same _
  · exact akin_ofFailure h

structure Permit.Akin (strict : Prop) (permit permit' : Permit) : Prop where
  policy : permit.policy.Akin strict permit'.policy
  probe : permit'.probe = permit.probe

inductive Admission.Akin (strict : Prop) : Admission → Admission → Prop
  | granted {permit permit' : Permit} (h : permit.Akin strict permit') :
      Akin strict (.granted permit) (.granted permit')
  | refused (state : CircuitState) : Akin strict (.refused state) (.refused state)

namespace Breaker

variable {p q : Policy} {permit permit' : Permit}

theorem enter_congr (h : p.Akin strict q) (b : Breaker) (now : Nat) :
    (b.enter now q).1 = (b.enter now p).1 ∧ (b.enter now q).2.2 = (b.enter now p).2.2 ∧
      (b.enter now p).2.1.Akin strict (b.enter now q).2.1 := by
  -- The breaker does not look at what is done about failures.
  have hover : b.breakOver now q = b.breakOver now p := by
    cases h
    rfl
  unfold enter
  rw [hover]
  cases b.state with
  | closed => exact ⟨rfl, rfl, .granted ⟨h, rfl⟩⟩
  | opened =>
    simp only
    split
    · exact ⟨rfl, rfl, .granted ⟨h, rfl⟩⟩
    · exact ⟨rfl, rfl, .refused _⟩
  | halfOpen =>
    simp only
    split
    · exact ⟨rfl, rfl, .refused _⟩
    · exact ⟨rfl, rfl, .granted ⟨h, rfl⟩⟩

theorem record_congr (h : permit.Akin strict permit') (b : Breaker) (now : Nat) (success : Bool) :
    b.record now permit' success = b.record now permit success := by
  have hordinary : b.recordOrdinary now permit'.policy success =
      b.recordOrdinary now permit.policy success := by
    have hpolicy := h.policy
    generalize permit'.policy = q at hpolicy
    cases hpolicy
    rfl
  rw [record, record, h.probe, hordinary]

theorem release_congr (h : permit.Akin strict permit') (b : Breaker) (now : Nat) :
    b.release now permit' = b.release now permit := by
  rw [release, release, h.probe, record_congr h]

end Breaker

/-- As much has been asked, and whatever is asked gets answers that are so related. -/
structure Service.Twin {α β : Type} (R : β → β → Prop) (s s' : Service α β) : Prop where
  asked : s'.asked = s.asked
  answer : ∀ n question, (s.answer n question).Twin R (s'.answer n question)

namespace Service.Twin

variable {α β : Type} {R : β → β → Prop} {s s' : Service α β}

theorem refl (hR : ∀ a, R a a) (s : Service α β) : s.Twin R s where
  asked := rfl
  answer := fun _ _ => .refl hR _

theorem ask (h : s.Twin R s') (question : α) :
    (s.ask question).1.Twin R (s'.ask question).1 ∧
      (s.ask question).2.Twin R (s'.ask question).2 := by
  have hreply : (s.ask question).2.Twin R (s'.ask question).2 := by
    unfold Service.ask
    rw [h.asked]
    exact h.answer _ question
  exact ⟨⟨congrArg (· ++ [question]) h.asked, h.answer⟩, hreply⟩

end Service.Twin

inductive CallStage.Twin (strict : Prop) : CallStage → CallStage → Prop
  | asking {w w' : Awaited FlagAnswer} (h : w.Twin FlagsAlike 0 w') :
      Twin strict (.asking w) (.asking w')
  | validating {permit permit' : Permit} {v v' : Validation} (hp : permit.Akin strict permit')
      (hv : v.Twin strict 0 v') : Twin strict (.validating permit v) (.validating permit' v')

structure Call.Twin (strict : Prop) (c c' : Call) : Prop where
  request : c'.request = c.request
  policy : c.policy.Akin strict c'.policy
  circuit : c'.circuit = c.circuit
  draws : c'.draws = c.draws
  stage : c.stage.Twin strict c'.stage

inductive CallAdvance.Twin (strict : Prop) : CallAdvance → CallAdvance → Prop
  | waiting : Twin strict .waiting .waiting
  | moved {c c' : Call} (h : c.Twin strict c') : Twin strict (.moved c) (.moved c')
  | ended {r r' : CallResult} (h : r.Akin strict r') : Twin strict (.over r) (.over r')

structure Gate.Twin (strict : Prop) (g g' : Gate) : Prop where
  now : g'.now = g.now
  policy : g.policy.Akin strict g'.policy
  breaker : g'.breaker = g.breaker
  catalog : g.catalog.Twin LookupsAlike g'.catalog
  flags : g.flags.Twin FlagsAlike g'.flags
  flag : g'.flag = g.flag
  emitter : g'.emitter = g.emitter
  telemetry : g.telemetry.Akin strict g'.telemetry

theorem Call.Twin.wake {c c' : Call} (h : c.Twin strict c') : c'.wake = c.wake := by
  have hstage := h.stage
  unfold Call.wake
  generalize c.stage = stage at hstage
  generalize c'.stage = stage' at hstage
  cases hstage with
  | asking hw => exact hw.ends
  | validating _ hv => exact hv.wake

theorem Call.Twin.trace {c c' : Call} (h : c.Twin strict c') {recorded recorded' : Option Span}
    (hrecorded : Option.Rel (Span.Akin strict) recorded recorded') :
    (c.trace recorded).Akin strict (c'.trace recorded') := by
  unfold Call.trace
  rw [h.request, h.circuit]
  exact .recorded hrecorded

namespace Gate.Twin

variable {g g' : Gate} {c c' : Call} {p q : Policy} {permit permit' : Permit}

theorem logged (h : g.Twin strict g') (events events' : List Event) :
    (g.logged events).Twin strict (g'.logged events') :=
  { h with telemetry := h.telemetry.logged events events' }

theorem traced (h : g.Twin strict g') {t t' : Trace} (ht : t.Akin strict t') :
    (g.traced t).Twin strict (g'.traced t') :=
  { h with telemetry := h.telemetry.traced ht }

theorem emit (h : g.Twin strict g') {rs rs' : List Record}
    (hrs : List.Forall₂ (Record.Akin strict) rs rs') :
    (g.emit rs).Twin strict (g'.emit rs') := by
  refine { h with telemetry := ?_ }
  unfold Gate.emit
  rw [h.emitter]
  exact g.emitter.akin_emit h.telemetry hrs

theorem update (h : g.Twin strict g') (b : Breaker) (t : Option Transition) :
    (g.update b t).Twin strict (g'.update b t) := by
  have hmoved : { g with breaker := b }.Twin strict { g' with breaker := b } :=
    { h with breaker := rfl }
  cases t with
  | none => exact hmoved
  | some t => exact (hmoved.logged [.circuitMoved t] [.circuitMoved t]).emit (.cons (.same _) .nil)

theorem enter (h : g.Twin strict g') (hp : p.Akin strict q) :
    (g.enter p).1.Twin strict (g'.enter q).1 ∧ (g.enter p).2.Akin strict (g'.enter q).2 := by
  obtain ⟨hb, ht, ha⟩ := Breaker.enter_congr hp g.breaker g.now
  unfold Gate.enter
  simp only [h.breaker, h.now, hb, ht]
  exact ⟨h.update _ _, ha⟩

theorem record (h : g.Twin strict g') (hp : permit.Akin strict permit') (success : Bool) :
    (g.record permit success).Twin strict (g'.record permit' success) := by
  unfold Gate.record
  rw [h.breaker, h.now, Breaker.record_congr hp]
  exact h.update _ _

theorem release (h : g.Twin strict g') (hp : permit.Akin strict permit') :
    (g.release permit).Twin strict (g'.release permit') := by
  unfold Gate.release
  rw [h.breaker, h.now, Breaker.release_congr hp]
  exact (h.logged _ _).update _ _

theorem noteFailure (h : g.Twin strict g') {e e' : Evaluation} (he : e.Akin strict e') :
    (g.noteFailure e).Twin strict (g'.noteFailure e') := by
  have hopen (g : Gate) (kind : ErrorKind) :
      g.telemetry.Noted ((g.logged [.failedOpen kind]).emit [.degraded kind]).telemetry :=
    (g.telemetry.noted_logged _).trans (g.emitter.noted_emit _ kind)
  have hclosed (g : Gate) (kind : Option ErrorKind) :
      g.telemetry.Noted (g.logged [.failedClosed kind]).telemetry :=
    g.telemetry.noted_logged _
  have hnone (g : Gate) : g.telemetry.Noted g.telemetry := Telemetry.noted_of_eq rfl rfl rfl
  have hverdict := he.verdict
  unfold Gate.noteFailure
  rw [he.outcome]
  generalize e.verdict = v at hverdict
  generalize e'.verdict = v' at hverdict
  cases hverdict with
  | same v =>
    rcases v with (_ | _) | _ | _
    · exact h
    · cases e.outcome.errorKind? with
      | none => exact h
      | some kind => exact (h.logged _ _).emit (.cons (.same _) .nil)
    · exact h
    · exact h.logged _ _
  | admitted hno =>
    cases e.outcome.errorKind? with
    | none => exact { h with telemetry := h.telemetry.noted hno (hclosed g _) (hnone g') }
    | some kind => exact { h with telemetry := h.telemetry.noted hno (hclosed g _) (hopen g' kind) }
  | rejected hno =>
    cases e.outcome.errorKind? with
    | none => exact { h with telemetry := h.telemetry.noted hno (hnone g) (hclosed g' _) }
    | some kind => exact { h with telemetry := h.telemetry.noted hno (hopen g kind) (hclosed g' _) }

theorem emitSpan (h : g.Twin strict g') {s s' : Span} (hs : s.Akin strict s') :
    (g.emitSpan s).Twin strict (g'.emitSpan s') :=
  h.emit hs.records

theorem finish (h : g.Twin strict g') (hc : c.Twin strict c') (f : Finding) :
    (g.finish c f).1.Twin strict (g'.finish c' f).1 ∧
      (g.finish c f).2.Twin strict (g'.finish c' f).2 := by
  have hverdict := Verdict.akin_decideOn hc.policy (.of c.request f)
  have hspan : (Span.of c.request (.of c.request f) c.circuit
      (decideOn (.of c.request f) c.policy).isDegraded).Akin strict
      (.of c.request (.of c.request f) c.circuit
        (decideOn (.of c.request f) c'.policy).isDegraded) :=
    .degraded _ fun hs => by rw [hverdict.eq_of_strict hs]; rfl
  have he : (⟨decideOn (.of c.request f) c.policy, .of c.request f⟩ : Evaluation).Akin strict
      ⟨decideOn (.of c.request f) c'.policy, .of c.request f⟩ := ⟨rfl, hverdict⟩
  have hg := (h.noteFailure he).emitSpan hspan
  unfold Gate.finish
  simp only [hc.request, hc.circuit, hg.emitter]
  refine ⟨hg.traced (hc.trace ?_), .ended (.evaluated he)⟩
  split
  · exact .some hspan
  · exact .none

theorem validate (h : g.Twin strict g') (hc : c.Twin strict c') :
    (g.validate c).1.Twin strict (g'.validate c').1 ∧
      (g.validate c).2.Twin strict (g'.validate c').2 := by
  obtain ⟨hg, ha⟩ := h.enter hc.policy
  unfold Gate.validate
  generalize g.enter c.policy = x at hg ha ⊢
  generalize g'.enter c'.policy = x' at hg ha ⊢
  obtain ⟨g, admission⟩ := x
  obtain ⟨g', admission'⟩ := x'
  cases ha with
  | refused state => exact (hg.logged _ _).finish hc .shed
  | granted hp =>
    obtain ⟨hcatalog, hreply⟩ := hg.catalog.ask c.request.product
    have hv : (Validation.start g.now g.catalog c.request (.after g.now c.policy.timeout)
        c.policy).2.Twin strict 0 (Validation.start g.now g'.catalog c.request
          (.after g.now c'.policy.timeout) c'.policy).2 :=
      Validation.twin_start hc.policy hreply
    refine ⟨{ hg with catalog := ?_ }, .moved { hc with stage := .validating hp ?_ }⟩
    · rw [hc.request]
      exact hcatalog
    · rw [hc.request, hg.now]
      exact hv

theorem afterFlag (h : g.Twin strict g') (hc : c.Twin strict c') {a a' : Option FlagAnswer}
    (ha : Option.Rel FlagsAlike a a') :
    (g.afterFlag c a).1.Twin strict (g'.afterFlag c' a').1 ∧
      (g.afterFlag c a).2.Twin strict (g'.afterFlag c' a').2 := by
  have hlogged := h.logged (g.flag.events g.flag.key a) (g'.flag.events g'.flag.key a')
  unfold Gate.afterFlag
  simp only [FlagGate.enabled_congr ha]
  split
  · exact hlogged.validate hc
  · exact hlogged.finish hc .skipped

theorem cancel (h : g.Twin strict g') (hc : c.Twin strict c') :
    (g.cancel c).Twin strict (g'.cancel c') := by
  have hstage := hc.stage
  unfold Gate.cancel
  generalize c.stage = stage at hstage
  generalize c'.stage = stage' at hstage
  cases hstage with
  | asking => exact h.traced (hc.trace .none)
  | validating hp => exact (h.release hp).traced (hc.trace .none)

theorem afterValidation (h : g.Twin strict g') (hc : c.Twin strict c')
    (hp : permit.Akin strict permit') {a a' : ValidationAdvance} (ha : a.Twin strict 0 a') :
    (g.afterValidation c permit a).1.Twin strict (g'.afterValidation c' permit' a').1 ∧
      (g.afterValidation c permit a).2.Twin strict (g'.afterValidation c' permit' a').2 := by
  cases ha with
  | waiting => exact ⟨h, .waiting⟩
  | moved hv => exact ⟨h, .moved { hc with stage := .validating hp hv }⟩
  | finished f =>
    unfold Gate.afterValidation
    rw [hc.request]
    exact (h.record hp _).finish hc f
  | overflown => exact ⟨h.cancel hc, .ended .overflown⟩

theorem begin (h : g.Twin strict g') (r : Request) (draws : Nat → Nat) :
    (g.begin r draws).1.Twin strict (g'.begin r draws).1 ∧
      (g.begin r draws).2.Twin strict (g'.begin r draws).2 := by
  obtain ⟨hflags, hreply⟩ := h.flags.ask (g.flag.question r)
  have hwait : (Awaited.start g.now (g.flags.ask (g.flag.question r)).2
      (g.now + g.flag.timeout)).Twin FlagsAlike 0 (.start g.now
        (g'.flags.ask (g.flag.question r)).2 (g.now + g.flag.timeout)) := hreply.start _ _
  refine ⟨{ h with flags := ?_ }, ⟨rfl, h.policy, congrArg Breaker.state h.breaker, rfl,
    .asking ?_⟩⟩
  · change (g.flags.ask (g.flag.question r)).1.Twin _ (g'.flags.ask (g'.flag.question r)).1
    rw [h.flag]
    exact hflags
  · rw [h.flag, h.now]
    exact hwait

theorem waitUntil (h : g.Twin strict g') (t : Nat) :
    (g.waitUntil t).Twin strict (g'.waitUntil t) :=
  { h with now := congrArg (max · t) h.now }

theorem step (h : g.Twin strict g') (hc : c.Twin strict c') :
    (g.step c).1.Twin strict (g'.step c').1 ∧ (g.step c).2.Twin strict (g'.step c').2 := by
  have hstage := hc.stage
  unfold Gate.step
  generalize c.stage = stage at hstage
  generalize c'.stage = stage' at hstage
  cases hstage with
  | asking hw =>
    simp only [hw.ends, h.now, Nat.add_zero]
    split
    · exact ⟨h, .waiting⟩
    · exact h.afterFlag hc hw.answer?
  | @validating permit permit' v v' hp hv =>
    obtain ⟨hask, hreply⟩ := h.catalog.ask v.request.product
    have hstep : (v.step g.now c.draws g.catalog).2.2.Twin strict 0
        (v'.step g'.now c'.draws g'.catalog).2.2 := by
      rw [h.now, hc.draws]
      exact hv.step hreply g.now c.draws
    have hcatalog : (v.step g.now c.draws g.catalog).1.Twin LookupsAlike
        (v'.step g'.now c'.draws g'.catalog).1 := by
      rw [h.now, hc.draws]
      exact hv.catalog h.catalog hask g.now c.draws
    simp only
    generalize v.step g.now c.draws g.catalog = x at hstep hcatalog ⊢
    generalize v'.step g'.now c'.draws g'.catalog = x' at hstep hcatalog ⊢
    obtain ⟨k, events, a⟩ := x
    obtain ⟨k', events', a'⟩ := x'
    have hg : { g with catalog := k }.Twin strict { g' with catalog := k' } :=
      { h with catalog := hcatalog }
    exact (hg.logged events events').afterValidation hc hp hstep

end Gate.Twin

end StockGate
