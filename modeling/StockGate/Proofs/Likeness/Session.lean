import StockGate.Proofs.Gate.Endings
import StockGate.Proofs.Gate.Schedule
import StockGate.Proofs.Likeness.Gate

namespace StockGate

variable {strict : Prop}

inductive CallStatus.Twin (strict : Prop) : CallStatus → CallStatus → Prop
  | waiting {c c' : Call} (h : c.Twin strict c') : Twin strict (.waiting c) (.waiting c')
  | ended {r r' : CallResult} (h : r.Akin strict r') : Twin strict (.over r) (.over r')

inductive GateStep.Akin (strict : Prop) : GateStep → GateStep → Prop
  | same (step : GateStep) : Akin strict step step
  | replace {p q : Policy} (h : p.Akin strict q) : Akin strict (.replace p) (.replace q)

structure Visit.Twin (strict : Prop) (v v' : Visit) : Prop where
  met : v.met.Twin strict v'.met
  request : v'.request = v.request
  status : v.status.Twin strict v'.status

structure Turn.Twin (strict : Prop) (t t' : Turn) : Prop where
  number : t'.number = t.number
  before : t.before.Twin strict t'.before
  after : t.after.Twin strict t'.after
  told : Option.Rel (Admission.Akin strict) t.told t'.told

structure GateSession.Twin (strict : Prop) (s s' : GateSession) : Prop where
  gate : s.gate.Twin strict s'.gate
  visits : List.Forall₂ (Visit.Twin strict) s.visits s'.visits
  turns : List.Forall₂ (Turn.Twin strict) s.turns s'.turns

theorem CallStatus.Twin.wake? {status status' : CallStatus} (h : status.Twin strict status') :
    status'.wake? = status.wake? := by
  cases h with
  | waiting hc => exact congrArg some hc.wake
  | ended => rfl

theorem CallAdvance.Twin.status {a a' : CallAdvance} {c c' : Call} (h : a.Twin strict a')
    (hc : c.Twin strict c') : (a.status c).Twin strict (a'.status c') := by
  cases h with
  | waiting => exact .waiting hc
  | moved h => exact .waiting h
  | ended h => exact .ended h

theorem Gate.Twin.told? {g g' : Gate} {c c' : Call} (h : g.Twin strict g') (hc : c.Twin strict c') :
    Option.Rel (Admission.Akin strict) (g.told? c) (g'.told? c') := by
  have hstage := hc.stage
  unfold Gate.told?
  generalize c.stage = stage at hstage
  generalize c'.stage = stage' at hstage
  cases hstage with
  | asking hw =>
    simp only [hw.ends, h.now, Nat.add_zero, FlagGate.enabled_congr hw.answer?]
    split
    · exact .some (h.enter hc.policy).2
    · exact .none
  | validating => exact .none

theorem forall₂_set {α β : Type} {R : α → β → Prop} {xs : List α} {ys : List β} {x : α} {y : β}
    (h : List.Forall₂ R xs ys) (hxy : R x y) (i : Nat) :
    List.Forall₂ R (xs.set i x) (ys.set i y) := by
  induction h generalizing i with
  | nil => exact .nil
  | cons hab hrest ih =>
    cases i with
    | zero => exact .cons hxy hrest
    | succ i => exact .cons hab (ih i)

theorem forall₂_getElem? {α β : Type} {R : α → β → Prop} {xs : List α} {ys : List β}
    (h : List.Forall₂ R xs ys) (i : Nat) : Option.Rel R xs[i]? ys[i]? := by
  induction h generalizing i with
  | nil => exact .none
  | cons hab hrest ih =>
    cases i with
    | zero => exact .some hab
    | succ i => exact ih i

namespace GateSession.Twin

variable {s s' : GateSession} {g g' : Gate} {v v' : Visit}

theorem call? (h : s.Twin strict s') (i : Nat) :
    Option.Rel (fun x x' => x.1.Twin strict x'.1 ∧ x.2.Twin strict x'.2) (s.call? i)
      (s'.call? i) := by
  have hvisit := forall₂_getElem? h.visits i
  unfold GateSession.call?
  generalize s.visits[i]? = x at hvisit
  generalize s'.visits[i]? = x' at hvisit
  cases hvisit with
  | none => exact .none
  | @some v v' hv =>
    have hstatus := hv.status
    simp only
    generalize hw : v.status = status at hstatus
    generalize hw' : v'.status = status' at hstatus
    cases hstatus with
    | waiting hc => exact .some ⟨hv, hc⟩
    | ended => exact .none

theorem wakes (h : s.Twin strict s') : s'.wakes = s.wakes := by
  unfold GateSession.wakes
  have hvisits := h.visits
  generalize s.visits = vs at hvisits
  generalize s'.visits = vs' at hvisits
  induction hvisits with
  | nil => rfl
  | cons hv _ ih => rw [List.filterMap_cons, List.filterMap_cons, hv.status.wake?, ih]

theorem turn (h : s.Twin strict s') (hv : v.Twin strict v') (hg : g.Twin strict g')
    {status status' : CallStatus} (hstatus : status.Twin strict status')
    {told told' : Option Admission} (htold : Option.Rel (Admission.Akin strict) told told')
    (i : Nat) : (s.turn i v g status told).Twin strict (s'.turn i v' g' status' told') := by
  have hvisit : ({ v with status } : Visit).Twin strict { v' with status := status' } :=
    ⟨hv.met, hv.request, hstatus⟩
  have hturn : (⟨i, s.gate, g, told⟩ : Turn).Twin strict ⟨i, s'.gate, g', told'⟩ :=
    ⟨rfl, h.gate, hg, htold⟩
  exact ⟨hg, forall₂_set h.visits hvisit i, List.rel_append h.turns (.cons hturn .nil)⟩

theorem arrive (h : s.Twin strict s') (r : Request) (draws : Nat → Nat) :
    (s.step (.arrive r draws)).Twin strict (s'.step (.arrive r draws)) := by
  obtain ⟨hg, hc⟩ := h.gate.begin r draws
  refine ⟨hg, List.rel_append h.visits (.cons ⟨h.gate, rfl, .waiting hc⟩ .nil), ?_⟩
  exact List.rel_append h.turns (.cons ⟨h.visits.length_eq.symm, h.gate, hg, .none⟩ .nil)

theorem step_same (h : s.Twin strict s') (step : GateStep) :
    (s.step step).Twin strict (s'.step step) := by
  cases step with
  | arrive r draws => exact h.arrive r draws
  | advance i =>
    have hcall := h.call? i
    unfold GateSession.step
    simp only
    generalize s.call? i = x at hcall
    generalize s'.call? i = x' at hcall
    cases hcall with
    | none => exact h
    | some hx =>
      obtain ⟨hg, ha⟩ := h.gate.step hx.2
      exact h.turn hx.1 hg (ha.status hx.2) (h.gate.told? hx.2) i
  | cancel i =>
    have hcall := h.call? i
    unfold GateSession.step
    simp only
    generalize s.call? i = x at hcall
    generalize s'.call? i = x' at hcall
    cases hcall with
    | none => exact h
    | some hx => exact h.turn hx.1 (h.gate.cancel hx.2) (.ended .cancelled) .none i
  | wait ms =>
    refine { h with gate := ?_ }
    simp only [GateSession.step, h.wakes, h.gate.now]
    exact h.gate.waitUntil _
  | replace p => exact { h with gate := { h.gate with policy := .refl strict p } }

theorem step {step step' : GateStep} (h : s.Twin strict s') (hstep : step.Akin strict step') :
    (s.step step).Twin strict (s'.step step') := by
  cases hstep with
  | same => exact h.step_same step
  | replace hp => exact { h with gate := { h.gate with policy := hp } }

end GateSession.Twin

namespace GateSession

/-- Alike gates, to which the same is done, come to alike sessions. -/
theorem twin_run {g g' : Gate} {steps steps' : List GateStep} (hg : g.Twin strict g')
    (hsteps : List.Forall₂ (GateStep.Akin strict) steps steps') :
    (run g steps).Twin strict (run g' steps') := by
  have hgo {s s' : GateSession} (h : s.Twin strict s') :
      (steps.foldl step s).Twin strict (steps'.foldl step s') := by
    induction hsteps generalizing s s' with
    | nil => exact h
    | cons hstep _ ih => exact ih (h.step hstep)
  exact hgo ⟨hg, .nil, .nil⟩

end GateSession

namespace Gate

variable {g g' g₁ : Gate} {c c' c₁ : Call} {r : CallResult}

theorem resume_of_moved (h : g.step c = (g₁, .moved c₁)) : g.resume c = g₁.resume c₁ := by
  rw [resume]
  split <;> simp_all

theorem resume_of_waiting (h : g.step c = (g₁, .waiting)) : g.resume c = (g₁, .waiting c) := by
  rw [resume]
  split <;> simp_all

theorem resume_of_over (h : g.step c = (g₁, .over r)) : g.resume c = (g₁, .over r) := by
  rw [resume]
  split <;> simp_all

theorem Twin.resume (h : g.Twin strict g') (hc : c.Twin strict c') :
    (g.resume c).1.Twin strict (g'.resume c').1 ∧ (g.resume c).2.Twin strict (g'.resume c').2 := by
  have hstep {g g' : Gate} {c c' : Call} (h : g.Twin strict g') (hc : c.Twin strict c') :
      ∃ g₁ a, g'.step c' = (g₁, a) ∧ (g.step c).1.Twin strict g₁ ∧ (g.step c).2.Twin strict a :=
    ⟨_, _, rfl, h.step hc⟩
  fun_induction Gate.resume g c generalizing g' c' with
  | case1 g c g₁ c₁ hs hlt ih =>
    obtain ⟨g₁', a, hs', hg, ha⟩ := hstep h hc
    rw [hs] at hg ha
    cases ha with
    | moved hc₁ =>
      rw [resume_of_moved hs']
      exact ih hg hc₁
  | case2 g c g₁ hs =>
    obtain ⟨g₁', a, hs', hg, ha⟩ := hstep h hc
    rw [hs] at hg ha
    cases ha with
    | waiting =>
      rw [resume_of_waiting hs']
      exact ⟨hg, .waiting hc⟩
  | case3 g c g₁ r hs =>
    obtain ⟨g₁', a, hs', hg, ha⟩ := hstep h hc
    rw [hs] at hg ha
    cases ha with
    | ended hr =>
      rw [resume_of_over hs']
      exact ⟨hg, .ended hr⟩

end Gate

inductive Task.Twin (strict : Prop) : Task → Task → Prop
  | planned (p : Plan) (start : Timer) : Twin strict (.planned p start) (.planned p start)
  | running {c c' : Call} (hc : c.Twin strict c') (order : Nat) (cancel : Option Timer) :
      Twin strict (.running c order cancel) (.running c' order cancel)
  | done {r r' : CallResult} (hr : r.Akin strict r') (time : Nat) :
      Twin strict (.done r time) (.done r' time)

structure Clockwork.Twin (strict : Prop) (k k' : Clockwork) : Prop where
  gate : k.gate.Twin strict k'.gate
  timers : k'.timers = k.timers

theorem Task.Twin.timer? {t t' : Task} (h : t.Twin strict t') : t'.timer? = t.timer? := by
  cases h with
  | planned | done => rfl
  | running hc => simp only [Task.timer?, hc.wake]

theorem Task.Twin.result? {t t' : Task} (h : t.Twin strict t') :
    Option.Rel (fun x x' => x.1.Akin strict x'.1 ∧ x'.2 = x.2) t.result? t'.result? := by
  cases h with
  | planned | running => exact .none
  | done hr time => exact .some ⟨hr, rfl⟩

namespace Clockwork

variable {k k' : Clockwork} {c c' : Call} {t t' : Task} {ts ts' l r : List Task} {timer : Timer}

namespace Twin

theorem advance (h : k.Twin strict k') (hc : c.Twin strict c') (cancel : Option Timer) :
    (k.advance c cancel).1.Twin strict (k'.advance c' cancel).1 ∧
      (k.advance c cancel).2.Twin strict (k'.advance c' cancel).2 := by
  obtain ⟨hg, hstatus⟩ := h.gate.resume hc
  unfold Clockwork.advance
  rw [h.gate.now, h.timers]
  generalize k.gate.resume c = x at hg hstatus ⊢
  generalize k'.gate.resume c' = x' at hg hstatus ⊢
  obtain ⟨g, status⟩ := x
  obtain ⟨g', status'⟩ := x'
  cases hstatus with
  | waiting hc =>
    simp only
    split
    · exact ⟨⟨hg.cancel hc, rfl⟩, .done .cancelled _⟩
    · exact ⟨⟨hg, rfl⟩, .running hc _ cancel⟩
  | ended hr => exact ⟨⟨hg, rfl⟩, .done hr _⟩

theorem start (h : k.Twin strict k') (p : Plan) :
    (k.start p).1.Twin strict (k'.start p).1 ∧ (k.start p).2.Twin strict (k'.start p).2 := by
  obtain ⟨hg, hc⟩ := h.gate.begin p.request p.draws
  have hcancel :
      (p.cancelAfter.map fun d =>
        (⟨(k'.gate.begin p.request p.draws).1.now + d, k'.timers + 1⟩ : Timer)) =
      p.cancelAfter.map fun d => ⟨(k.gate.begin p.request p.draws).1.now + d, k.timers + 1⟩ := by
    rw [hg.now, h.timers]
  have hbegun : ({ k with gate := (k.gate.begin p.request p.draws).1 } : Clockwork).Twin strict
      { k' with gate := (k'.gate.begin p.request p.draws).1 } := ⟨hg, h.timers⟩
  unfold Clockwork.start
  simp only [hcancel]
  exact hbegun.advance hc _

theorem plan (h : k.Twin strict k') (p : Plan) :
    (k.plan p).1.Twin strict (k'.plan p).1 ∧ (k.plan p).2.Twin strict (k'.plan p).2 := by
  unfold Clockwork.plan
  split
  · exact h.start p
  · rw [h.timers, h.gate.now]
    exact ⟨⟨h.gate, rfl⟩, .planned p _⟩

theorem planAll (h : k.Twin strict k') (ps : List Plan) :
    (k.planAll ps).1.Twin strict (k'.planAll ps).1 ∧
      List.Forall₂ (Task.Twin strict) (k.planAll ps).2 (k'.planAll ps).2 := by
  induction ps generalizing k k' with
  | nil => exact ⟨h, .nil⟩
  | cons p ps ih =>
    obtain ⟨hk, ht⟩ := h.plan p
    obtain ⟨hk', hts⟩ := ih hk
    exact ⟨hk', .cons ht hts⟩

theorem fire (h : k.Twin strict k') (ht : t.Twin strict t') (time : Nat) :
    (k.fire t time).1.Twin strict (k'.fire t' time).1 ∧
      (k.fire t time).2.Twin strict (k'.fire t' time).2 := by
  have hwait : ({ k with gate := k.gate.waitUntil time } : Clockwork).Twin strict
      { k' with gate := k'.gate.waitUntil time } := ⟨h.gate.waitUntil time, h.timers⟩
  cases ht with
  | planned p => exact hwait.start p
  | running hc order cancel => exact hwait.advance hc cancel
  | done hr time => exact ⟨hwait, .done hr time⟩

end Twin

theorem earliest_twin (h : List.Forall₂ (Task.Twin strict) ts ts') :
    Option.Rel (fun x x' => List.Forall₂ (Task.Twin strict) x.1 x'.1 ∧ x.2.1.Twin strict x'.2.1 ∧
      x'.2.2.1 = x.2.2.1 ∧ List.Forall₂ (Task.Twin strict) x.2.2.2 x'.2.2.2)
      (earliest ts) (earliest ts') := by
  induction h with
  | nil => exact .none
  | @cons t t' ts ts' ht hts ih =>
    unfold earliest
    rw [ht.timer?]
    generalize t.timer? = timer
    generalize earliest ts = x at ih
    generalize earliest ts' = x' at ih
    cases ih with
    | none =>
      cases timer with
      | none => exact .none
      | some timer => exact .some ⟨.nil, ht, rfl, hts⟩
    | @some x x' hx =>
      obtain ⟨l, u, other, r⟩ := x
      obtain ⟨l', u', other', r'⟩ := x'
      obtain ⟨hl, hu, rfl, hr⟩ := hx
      cases timer with
      | none => exact .some ⟨.cons ht hl, hu, rfl, hr⟩
      | some timer =>
        simp only
        split
        · exact .some ⟨.cons ht hl, hu, rfl, hr⟩
        · exact .some ⟨.nil, ht, rfl, hts⟩

theorem run_of_none (h : earliest ts = none) : k.run ts = (k, ts) := by
  rw [run]
  split
  · rfl
  · simp_all

theorem run_of_some (h : earliest ts = some (l, t, timer, r)) :
    k.run ts = (k.fire t timer.time).1.run (l ++ (k.fire t timer.time).2 :: r) := by
  rw [run]
  split
  · simp_all
  · simp_all

theorem Twin.run (h : k.Twin strict k') (hts : List.Forall₂ (Task.Twin strict) ts ts') :
    (k.run ts).1.Twin strict (k'.run ts').1 ∧
      List.Forall₂ (Task.Twin strict) (k.run ts).2 (k'.run ts').2 := by
  fun_induction Clockwork.run k ts generalizing k' ts'
  case case1 k ts he =>
    have hnext := earliest_twin hts
    rw [he] at hnext
    generalize he' : earliest ts' = x' at hnext
    cases hnext with
    | none =>
      rw [run_of_none he']
      exact ⟨h, hts⟩
  case case2 k ts l t timer r he next ih =>
    have hnext := earliest_twin hts
    rw [he] at hnext
    generalize he' : earliest ts' = x' at hnext
    cases hnext with
    | @some _ x' hx =>
      obtain ⟨l', t', timer', r'⟩ := x'
      obtain ⟨hl, ht, rfl, hr⟩ := hx
      obtain ⟨hk, ht'⟩ := h.fire ht timer'.time
      rw [run_of_some he']
      exact ih hk (List.rel_append hl (.cons ht' hr))

end Clockwork

/-- Alike gates make the same calls at the same times. -/
theorem Gate.Twin.callAll {g g' : Gate} (h : g.Twin strict g') (plans : List Plan) :
    List.Forall₂ (fun x x' => x.1.Akin strict x'.1 ∧ x'.2 = x.2) (g.callAll plans).2
      (g'.callAll plans).2 := by
  have hk : ({ gate := g } : Clockwork).Twin strict { gate := g' } := ⟨h, rfl⟩
  obtain ⟨hplanned, hts⟩ := hk.planAll plans
  obtain ⟨-, hdone⟩ := hplanned.run hts
  exact List.rel_filterMap (fun _ _ ht => ht.result?) hdone

end StockGate
