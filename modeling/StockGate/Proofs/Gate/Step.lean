import StockGate.Gate.Call
import StockGate.Proofs.Validation

namespace StockGate

/-- What a call returns that ends with a finding. -/
def Call.evaluation (c : Call) (f : Finding) : Evaluation :=
  ⟨decideOn (Outcome.of c.request f) c.policy, Outcome.of c.request f⟩

def Call.validating (c : Call) (permit : Permit) (v : Validation) : Call :=
  { c with stage := .validating permit v }

def Call.validation (c : Call) (now : Nat) (catalog : Catalog) : Validation :=
  (Validation.start now catalog c.request (.after now c.policy.timeout) c.policy).2

def CallAdvance.status (c : Call) : CallAdvance → CallStatus
  | .waiting => .waiting c
  | .moved c' => .waiting c'
  | .over r => .over r

namespace Gate

variable {g g' : Gate} {c : Call}

/-- The gate with nobody to listen and nothing told. -/
def quiet (g : Gate) : Gate :=
  { g with emitter := .disabled, telemetry := {} }

@[simp]
theorem quiet_logged (g : Gate) (events : List Event) : (g.logged events).quiet = g.quiet := rfl

@[simp]
theorem quiet_emit (g : Gate) (rs : List Record) : (g.emit rs).quiet = g.quiet := rfl

@[simp]
theorem quiet_emitSpan (g : Gate) (s : Span) : (g.emitSpan s).quiet = g.quiet := rfl

@[simp]
theorem quiet_traced (g : Gate) (t : Trace) : (g.traced t).quiet = g.quiet := rfl

@[simp]
theorem quiet_update (g : Gate) (b : Breaker) (t : Option Transition) :
    (g.update b t).quiet = { g with breaker := b }.quiet := by
  cases t <;> rfl

@[simp]
theorem quiet_noteFailure (g : Gate) (e : Evaluation) : (g.noteFailure e).quiet = g.quiet := by
  unfold noteFailure
  split
  · split <;> rfl
  · rfl
  · rfl

@[simp]
theorem quiet_finish (g : Gate) (c : Call) (f : Finding) : (g.finish c f).1.quiet = g.quiet := by
  simp [finish]

theorem finish_snd (g : Gate) (c : Call) (f : Finding) :
    (g.finish c f).2 = .over (.evaluated (c.evaluation f)) := rfl

theorem now_eq_of_quiet (h : g'.quiet = g.quiet) : g'.now = g.now := by
  change g'.quiet.now = g.quiet.now
  rw [h]

theorem policy_eq_of_quiet (h : g'.quiet = g.quiet) : g'.policy = g.policy := by
  change g'.quiet.policy = g.quiet.policy
  rw [h]

theorem breaker_eq_of_quiet (h : g'.quiet = g.quiet) : g'.breaker = g.breaker := by
  change g'.quiet.breaker = g.quiet.breaker
  rw [h]

theorem catalog_eq_of_quiet (h : g'.quiet = g.quiet) : g'.catalog = g.catalog := by
  change g'.quiet.catalog = g.quiet.catalog
  rw [h]

/-- What a step of a call can come to: the gate that it leaves and where the call gets. -/
inductive Stride (g : Gate) (c : Call) : Gate → CallAdvance → Prop
  | await {w : Awaited FlagAnswer} (hs : c.stage = .asking w) (hnow : g.now < w.ends) :
      Stride g c g .waiting
  | skip {w : Awaited FlagAnswer} {g' : Gate} (hs : c.stage = .asking w) (hnow : w.ends ≤ g.now)
      (hoff : FlagGate.enabled w.answer? = false) (hg : g'.quiet = g.quiet) :
      Stride g c g' (.over (.evaluated (c.evaluation .skipped)))
  | shed {w : Awaited FlagAnswer} {g' : Gate} {state : CircuitState}
      (hs : c.stage = .asking w) (hnow : w.ends ≤ g.now)
      (hon : FlagGate.enabled w.answer? = true)
      (ha : (g.breaker.enter g.now c.policy).2.1 = .refused state)
      (hg : g'.quiet = { g with breaker := (g.breaker.enter g.now c.policy).1 }.quiet) :
      Stride g c g' (.over (.evaluated (c.evaluation .shed)))
  | enter {w : Awaited FlagAnswer} {g' : Gate} {permit : Permit}
      (hs : c.stage = .asking w) (hnow : w.ends ≤ g.now)
      (hon : FlagGate.enabled w.answer? = true)
      (ha : (g.breaker.enter g.now c.policy).2.1 = .granted permit)
      (hg : g'.quiet = { g with
        breaker := (g.breaker.enter g.now c.policy).1
        catalog := (g.catalog.ask c.request.product).1 }.quiet) :
      Stride g c g' (.moved (c.validating permit (c.validation g.now g.catalog)))
  | rest {permit : Permit} {v : Validation} {g' : Gate} {catalog : Catalog}
      (hs : c.stage = .validating permit v)
      (hv : v.Stride g.now c.draws g.catalog catalog .waiting)
      (hg : g'.quiet = { g with catalog }.quiet) : Stride g c g' .waiting
  | go {permit : Permit} {v v' : Validation} {g' : Gate} {catalog : Catalog}
      (hs : c.stage = .validating permit v)
      (hv : v.Stride g.now c.draws g.catalog catalog (.moved v'))
      (hg : g'.quiet = { g with catalog }.quiet) :
      Stride g c g' (.moved (c.validating permit v'))
  | finish {permit : Permit} {v : Validation} {f : Finding} {g' : Gate} {catalog : Catalog}
      (hs : c.stage = .validating permit v)
      (hv : v.Stride g.now c.draws g.catalog catalog (.finished f))
      (hg : g'.quiet = { g with
        catalog
        breaker := (g.breaker.record g.now permit (Outcome.of c.request f).healthy).1 }.quiet) :
      Stride g c g' (.over (.evaluated (c.evaluation f)))
  | overflow {permit : Permit} {v : Validation} {g' : Gate} {catalog : Catalog}
      (hs : c.stage = .validating permit v)
      (hv : v.Stride g.now c.draws g.catalog catalog .overflown)
      (hg : g'.quiet = { g with
        catalog
        breaker := (g.breaker.release g.now permit).1 }.quiet) : Stride g c g' (.over .overflown)

theorem enter_eq (g : Gate) (p : Policy) :
    g.enter p = (g.update (g.breaker.enter g.now p).1 (g.breaker.enter g.now p).2.2,
      (g.breaker.enter g.now p).2.1) := rfl

@[simp]
theorem update_now (g : Gate) (b : Breaker) (t : Option Transition) :
    (g.update b t).now = g.now := by
  cases t <;> rfl

@[simp]
theorem update_breaker (g : Gate) (b : Breaker) (t : Option Transition) :
    (g.update b t).breaker = b := by
  cases t <;> rfl

@[simp]
theorem update_catalog (g : Gate) (b : Breaker) (t : Option Transition) :
    (g.update b t).catalog = g.catalog := by
  cases t <;> rfl

theorem validate_of_refused {state : CircuitState}
    (ha : (g.breaker.enter g.now c.policy).2.1 = .refused state) :
    g.validate c = ((g.enter c.policy).1.logged [.lookupShed state]).finish c .shed := by
  unfold validate
  rw [enter_eq, ha]

theorem validate_of_granted {permit : Permit}
    (ha : (g.breaker.enter g.now c.policy).2.1 = .granted permit) :
    g.validate c =
      ({ (g.enter c.policy).1 with catalog := (g.catalog.ask c.request.product).1 },
        .moved (c.validating permit (c.validation g.now g.catalog))) := by
  unfold validate
  rw [enter_eq, ha]
  simp [Call.validating, Call.validation, Validation.start]

theorem quiet_enter (g : Gate) (p : Policy) :
    (g.enter p).1.quiet = { g with breaker := (g.breaker.enter g.now p).1 }.quiet := by
  rw [enter_eq, quiet_update]

theorem quiet_with_catalog (h : g'.quiet = g.quiet) (catalog : Catalog) :
    { g' with catalog }.quiet = { g with catalog }.quiet := by
  change { g'.quiet with catalog } = { g.quiet with catalog }
  rw [h]

theorem quiet_with_breaker (h : g'.quiet = g.quiet) (b : Breaker) :
    { g' with breaker := b }.quiet = { g with breaker := b }.quiet := by
  change { g'.quiet with breaker := b } = { g.quiet with breaker := b }
  rw [h]

theorem stride_afterFlag {w : Awaited FlagAnswer} (hs : c.stage = .asking w)
    (hnow : w.ends ≤ g.now) :
    g.Stride c (g.afterFlag c w.answer?).1 (g.afterFlag c w.answer?).2 := by
  unfold afterFlag
  cases hf : FlagGate.enabled w.answer? with
  | false => exact .skip hs hnow hf (quiet_finish _ c .skipped)
  | true =>
    rw [if_pos rfl]
    cases ha : (g.breaker.enter g.now c.policy).2.1 with
    | refused state =>
      rw [validate_of_refused (g := g.logged _) ha, finish_snd]
      apply Stride.shed hs hnow hf ha
      rw [quiet_finish, quiet_logged, quiet_enter]
      exact quiet_with_breaker (quiet_logged g _) _
    | granted permit =>
      rw [validate_of_granted (g := g.logged _) ha]
      apply Stride.enter hs hnow hf ha
      exact quiet_with_catalog (quiet_enter _ c.policy) _

theorem stride (g : Gate) (c : Call) : g.Stride c (g.step c).1 (g.step c).2 := by
  unfold step
  cases hs : c.stage with
  | asking w =>
    by_cases hnow : g.now < w.ends
    · simp only [if_pos hnow]
      exact .await hs hnow
    · simp only [if_neg hnow]
      exact stride_afterFlag hs (Nat.le_of_not_lt hnow)
  | validating permit v =>
    -- What the validation's step came to is split together with what it can come to.
    have hv := v.stride g.now c.draws g.catalog
    simp only
    generalize v.step g.now c.draws g.catalog = x at hv ⊢
    obtain ⟨catalog, events, advance⟩ := x
    cases advance with
    | waiting => exact .rest hs hv rfl
    | moved v' => exact .go hs hv rfl
    | finished f =>
      apply Stride.finish hs hv
      simp [afterValidation, record]
      rfl
    | overflown =>
      apply Stride.overflow hs hv
      simp [afterValidation, cancel, hs, release]
      rfl

/-- A step leaves everything but the breaker and the catalog as it is, apart from telling. -/
theorem Stride.frame {a : CallAdvance} (h : g.Stride c g' a) :
    g'.quiet = { g with breaker := g'.breaker, catalog := g'.catalog }.quiet := by
  cases h with
  | await => rfl
  | skip _ _ _ hg | shed _ _ _ _ hg | enter _ _ _ _ hg | rest _ _ hg | go _ _ hg
  | finish _ _ hg | overflow _ _ hg =>
    rw [breaker_eq_of_quiet hg, catalog_eq_of_quiet hg]
    exact hg

theorem Stride.now_eq {a : CallAdvance} (h : g.Stride c g' a) : g'.now = g.now :=
  (now_eq_of_quiet h.frame :)

theorem Stride.policy_eq {a : CallAdvance} (h : g.Stride c g' a) : g'.policy = g.policy :=
  (policy_eq_of_quiet h.frame :)

theorem Stride.le_wake {c' : Call} (h : g.Stride c g' (.moved c')) : g.now ≤ c'.wake := by
  cases h with
  | enter => exact Awaited.le_ends_start _ _ _
  | go _ hv => exact hv.le_wake

theorem le_wake_begin (g : Gate) (r : Request) (draws : Nat → Nat) :
    g.now ≤ (g.begin r draws).2.wake :=
  Awaited.le_ends_start _ _ _

theorem quiet_cancel (g : Gate) (c : Call) :
    (g.cancel c).quiet = { g with breaker := (g.cancel c).breaker }.quiet := by
  unfold cancel
  cases c.stage with
  | asking => rfl
  | validating permit =>
    simp only [release]
    cases (g.breaker.release g.now permit).2 <;> rfl

theorem cancel_now (g : Gate) (c : Call) : (g.cancel c).now = g.now :=
  (now_eq_of_quiet (g.quiet_cancel c) :)

theorem cancel_policy (g : Gate) (c : Call) : (g.cancel c).policy = g.policy :=
  (policy_eq_of_quiet (g.quiet_cancel c) :)

theorem cancel_catalog (g : Gate) (c : Call) : (g.cancel c).catalog = g.catalog :=
  (catalog_eq_of_quiet (g.quiet_cancel c) :)

end Gate

end StockGate
