import StockGate.Proofs.Gate.Remarks
import StockGate.Proofs.Likeness.Session

namespace StockGate

def Visit.quiet (v : Visit) : Visit :=
  { v with met := v.met.quiet }

def Turn.quiet (t : Turn) : Turn :=
  { t with before := t.before.quiet, after := t.after.quiet }

/-- The session without all that is said in it. -/
def GateSession.quiet (s : GateSession) : GateSession where
  gate := s.gate.quiet
  visits := s.visits.map Visit.quiet
  turns := s.turns.map Turn.quiet

namespace Gate

variable {α : Type} {op : Gate → Gate × α} {g g' g'' : Gate} {c : Call} {x : Gate × α}
  {rs rs' : List Remark}

/-- The one gate has become the other, with these remarks to its sinks. -/
structure Told (g g' : Gate) (rs : List Remark) : Prop where
  emitter : g'.emitter = g.emitter
  telemetry : g'.telemetry = g.emitter.hearAll g.telemetry rs

theorem told_refl (g : Gate) : g.Told g [] :=
  ⟨rfl, rfl⟩

theorem Told.trans (h : g.Told g' rs) (h' : g'.Told g'' rs') : g.Told g'' (rs ++ rs') where
  emitter := h'.emitter.trans h.emitter
  telemetry := by rw [h'.telemetry, h.emitter, h.telemetry, Emitter.hearAll_append]

/-- An operation that comes to the same whoever listens tells everybody the same. -/
theorem Says.of_quiet (h : Says op g x rs) (hg : g'.quiet = g.quiet) :
    (op g').2 = (op g).2 ∧ (op g').1.quiet = (op g).1.quiet ∧ g'.Told (op g').1 rs := by
  have hself : op g = (x.1.under g.emitter _, x.2) := h g.emitter g.telemetry
  have hother := h g'.emitter g'.telemetry
  rw [← eq_under_of_quiet hg] at hother
  rw [hself, hother]
  exact ⟨rfl, rfl, rfl, rfl⟩

theorem Says.snd_eq (h : Says op g x rs) : (op g).2 = x.2 := by
  have hself : op g = (x.1.under g.emitter _, x.2) := h g.emitter g.telemetry
  rw [hself]

theorem told?_of_quiet (h : g'.quiet = g.quiet) (c : Call) : g'.told? c = g.told? c := by
  rw [eq_under_of_quiet h]
  unfold told?
  rw [enter_under, enter_eq]
  rfl

theorem says_resume (g : Gate) (c : Call) : ∃ x rs, Says (·.resume c) g x rs := by
  fun_induction Gate.resume g c with
  | case1 g c g₁ c₁ hs _ ih =>
    obtain ⟨⟨g₂, a⟩, rs, hstep, -⟩ := g.speaks_step c
    obtain ⟨x, rs', hresume⟩ := ih
    have hself := hstep g.emitter g.telemetry
    simp only [under_self, hs, Prod.mk.injEq] at hself
    obtain ⟨rfl, rfl⟩ := hself
    refine ⟨x, rs ++ rs', hresume.after fun e t => ?_⟩
    exact resume_of_moved (hstep e t)
  | case2 g c g₁ hs =>
    obtain ⟨⟨g₂, a⟩, rs, hstep, -⟩ := g.speaks_step c
    have hself := hstep g.emitter g.telemetry
    simp only [under_self, hs, Prod.mk.injEq] at hself
    obtain ⟨-, rfl⟩ := hself
    exact ⟨(g₂, .waiting c), rs, fun e t => resume_of_waiting (hstep e t)⟩
  | case3 g c g₁ r hs =>
    obtain ⟨⟨g₂, a⟩, rs, hstep, -⟩ := g.speaks_step c
    have hself := hstep g.emitter g.telemetry
    simp only [under_self, hs, Prod.mk.injEq] at hself
    obtain ⟨-, rfl⟩ := hself
    exact ⟨(g₂, .over r), rs, fun e t => resume_of_over (hstep e t)⟩

end Gate

namespace GateSession

variable {s s' : GateSession} {i : Nat} {v : Visit} {c : Call}

theorem call?_quiet (s : GateSession) (i : Nat) :
    s.quiet.call? i = (s.call? i).map fun x => (x.1.quiet, x.2) := by
  have hvisit : s.quiet.visits[i]? = s.visits[i]?.map Visit.quiet := List.getElem?_map
  unfold call?
  rw [hvisit]
  cases s.visits[i]? with
  | none => rfl
  | some v =>
    cases hv : v.status with
    | waiting c => simp [Visit.quiet, hv]
    | _ r => simp [Visit.quiet, hv]

theorem call?_of_quiet (h : s'.quiet = s.quiet) (hc : s.call? i = some (v, c)) :
    ∃ v', s'.call? i = some (v', c) ∧ v'.quiet = v.quiet := by
  have hcalls := s'.call?_quiet i
  rw [h, call?_quiet, hc] at hcalls
  obtain ⟨⟨v', c'⟩, hc', heq⟩ := Option.map_eq_some_iff.mp hcalls.symm
  obtain ⟨hv, rfl⟩ := Prod.mk.inj heq
  exact ⟨v', hc', hv⟩

theorem call?_none_of_quiet (h : s'.quiet = s.quiet) (hc : s.call? i = none) :
    s'.call? i = none := by
  have hcalls := s'.call?_quiet i
  rw [h, call?_quiet, hc] at hcalls
  exact Option.map_eq_none_iff.mp hcalls.symm

theorem wakes_quiet (s : GateSession) : s.quiet.wakes = s.wakes := by
  rw [wakes, quiet, List.filterMap_map]
  rfl

theorem gate_of_quiet (h : s'.quiet = s.quiet) : s'.gate.quiet = s.gate.quiet :=
  congrArg gate h

theorem quiet_turn (s : GateSession) (i : Nat) (v : Visit) (g : Gate) (status : CallStatus)
    (told : Option Admission) :
    (s.turn i v g status told).quiet = s.quiet.turn i v.quiet g.quiet status told := by
  simp [turn, quiet, Visit.quiet, Turn.quiet, List.map_set]

theorem quiet_arrive (s : GateSession) (r : Request) (draws : Nat → Nat) :
    (s.step (.arrive r draws)).quiet = (s.quiet.step (.arrive r draws)).quiet := by
  simp [step, quiet, Visit.quiet, Turn.quiet, Gate.begin, Gate.quiet]

theorem quiet_wait (s : GateSession) (ms : Nat) :
    (s.step (.wait ms)).quiet = s.quiet.step (.wait ms) := by
  simp only [step, wakes_quiet]
  rfl

theorem quiet_replace (s : GateSession) (p : Policy) :
    (s.step (.replace p)).quiet = s.quiet.step (.replace p) := rfl

theorem step_told (s : GateSession) (step : GateStep) :
    ∃ rs : List Remark, ∀ s' : GateSession, s'.quiet = s.quiet →
      (s'.step step).quiet = (s.step step).quiet ∧ s'.gate.Told (s'.step step).gate rs := by
  cases step with
  | arrive r draws =>
    refine ⟨[], fun s' h => ⟨?_, rfl, rfl⟩⟩
    rw [quiet_arrive, h, ← quiet_arrive]
  | advance i =>
    cases hc : s.call? i with
    | none =>
      refine ⟨[], fun s' h => ?_⟩
      simp only [GateSession.step, hc, call?_none_of_quiet h hc]
      exact ⟨h, s'.gate.told_refl⟩
    | some x =>
      obtain ⟨v, c⟩ := x
      obtain ⟨x, rs, hsays, -⟩ := s.gate.speaks_step c
      refine ⟨rs, fun s' h => ?_⟩
      obtain ⟨v', hc', hv⟩ := call?_of_quiet h hc
      obtain ⟨ha, hg, htold⟩ := hsays.of_quiet (gate_of_quiet h)
      simp only [GateSession.step, hc, hc']
      refine ⟨?_, htold⟩
      rw [quiet_turn, quiet_turn, h, hv, hg, ha, Gate.told?_of_quiet (gate_of_quiet h)]
  | cancel i =>
    cases hc : s.call? i with
    | none =>
      refine ⟨[], fun s' h => ?_⟩
      simp only [GateSession.step, hc, call?_none_of_quiet h hc]
      exact ⟨h, s'.gate.told_refl⟩
    | some x =>
      obtain ⟨v, c⟩ := x
      obtain ⟨g, rs, hsays, -⟩ := s.gate.says_cancel c
      refine ⟨rs, fun s' h => ?_⟩
      obtain ⟨v', hc', hv⟩ := call?_of_quiet h hc
      obtain ⟨-, hg, htold⟩ := hsays.of_quiet (gate_of_quiet h)
      simp only [GateSession.step, hc, hc']
      refine ⟨?_, htold⟩
      rw [quiet_turn, quiet_turn, h, hv, hg]
  | wait ms =>
    refine ⟨[], fun s' h => ⟨?_, rfl, rfl⟩⟩
    rw [quiet_wait, h, ← quiet_wait]
  | replace p =>
    refine ⟨[], fun s' h => ⟨?_, rfl, rfl⟩⟩
    rw [quiet_replace, h, ← quiet_replace]

theorem run_told (g : Gate) (steps : List GateStep) :
    ∃ rs : List Remark, ∀ g' : Gate, g'.quiet = g.quiet →
      (run g' steps).quiet = (run g steps).quiet ∧ g'.Told (run g' steps).gate rs := by
  induction steps using List.reverseRecOn with
  | nil =>
    refine ⟨[], fun g' h => ⟨?_, g'.told_refl⟩⟩
    change (⟨g'.quiet, [], []⟩ : GateSession) = ⟨g.quiet, [], []⟩
    rw [h]
  | append_singleton steps step ih =>
    obtain ⟨rs, hrun⟩ := ih
    obtain ⟨rs', hstep⟩ := (run g steps).step_told step
    refine ⟨rs ++ rs', fun g' h => ?_⟩
    obtain ⟨hquiet, htold⟩ := hrun g' h
    obtain ⟨hquiet', htold'⟩ := hstep _ hquiet
    rw [run_append, run_append]
    exact ⟨hquiet', htold.trans htold'⟩

end GateSession

namespace Clockwork

def under (k : Clockwork) (e : Emitter) (t : Telemetry) : Clockwork :=
  { k with gate := k.gate.under e t }

/-- Whoever listens, the operation comes to this and makes these remarks. -/
def Says {α : Type} (op : Clockwork → Clockwork × α) (k : Clockwork) (x : Clockwork × α)
    (rs : List Remark) : Prop :=
  ∀ e t, op (k.under e t) = (x.1.under e (e.hearAll t rs), x.2)

theorem says_advance (k : Clockwork) (c : Call) (cancel : Option Timer) :
    ∃ x rs, Says (·.advance c cancel) k x rs := by
  obtain ⟨⟨g, status⟩, rs, hresume⟩ := k.gate.says_resume c
  have hgate (e : Emitter) (t : Telemetry) :
      (k.under e t).gate.resume c = (g.under e (e.hearAll t rs), status) := hresume e t
  rcases status with d | r
  · by_cases hdue : cancel.any (·.time ≤ k.gate.now) = true
    · obtain ⟨g', rs', hcancel, -⟩ := g.says_cancel d
      refine ⟨({ k with gate := g' }, .done .cancelled k.gate.now), rs ++ rs', fun e t => ?_⟩
      have hdue' : cancel.any (·.time ≤ (k.under e t).gate.now) = true := hdue
      simp only [advance, hgate, if_pos hdue', Emitter.hearAll_append]
      exact congrArg (fun x => ({ k with gate := x.1 }, _)) (hcancel e (e.hearAll t rs))
    · refine ⟨({ gate := g, timers := k.timers + 2 }, .running d k.timers cancel), rs,
        fun e t => ?_⟩
      have hdue' : ¬ cancel.any (·.time ≤ (k.under e t).gate.now) = true := hdue
      simp only [advance, hgate, if_neg hdue']
      rfl
  · refine ⟨({ k with gate := g }, .done r k.gate.now), rs, fun e t => ?_⟩
    simp only [advance, hgate]
    rfl

theorem says_start (k : Clockwork) (p : Plan) : ∃ x rs, Says (·.start p) k x rs := by
  let begun := k.gate.begin p.request p.draws
  obtain ⟨x, rs, hadvance⟩ := says_advance { k with gate := begun.1 } begun.2
    (p.cancelAfter.map fun d => ⟨begun.1.now + d, k.timers + 1⟩)
  exact ⟨x, rs, fun e t => hadvance e t⟩

theorem says_plan (k : Clockwork) (p : Plan) : ∃ x rs, Says (·.plan p) k x rs := by
  by_cases hp : p.start = 0
  · simp only [plan, if_pos hp]
    exact k.says_start p
  · simp only [plan, if_neg hp]
    exact ⟨({ k with timers := k.timers + 1 }, .planned p ⟨k.gate.now + p.start, k.timers⟩), [],
      fun e t => rfl⟩

theorem says_planAll (k : Clockwork) (ps : List Plan) : ∃ x rs, Says (·.planAll ps) k x rs := by
  induction ps generalizing k with
  | nil => exact ⟨(k, []), [], fun e t => rfl⟩
  | cons p ps ih =>
    obtain ⟨⟨k₁, task⟩, rs, hplan⟩ := k.says_plan p
    obtain ⟨⟨k₂, tasks⟩, rs', hrest⟩ := ih k₁
    refine ⟨(k₂, task :: tasks), rs ++ rs', fun e t => ?_⟩
    have hplan' := hplan e t
    have hrest' := hrest e (e.hearAll t rs)
    simp only at hplan' hrest'
    simp only [planAll, hplan', hrest', Emitter.hearAll_append]

theorem says_fire (k : Clockwork) (task : Task) (time : Nat) :
    ∃ x rs, Says (·.fire task time) k x rs := by
  let waited : Clockwork := { k with gate := k.gate.waitUntil time }
  cases task with
  | planned p =>
    obtain ⟨x, rs, hstart⟩ := waited.says_start p
    exact ⟨x, rs, fun e t => hstart e t⟩
  | running c order cancel =>
    obtain ⟨x, rs, hadvance⟩ := waited.says_advance c cancel
    exact ⟨x, rs, fun e t => hadvance e t⟩
  | done r ended => exact ⟨(waited, .done r ended), [], fun e t => rfl⟩

theorem says_run (k : Clockwork) (ts : List Task) : ∃ x rs, Says (·.run ts) k x rs := by
  fun_induction Clockwork.run k ts
  case case1 k ts he => exact ⟨(k, ts), [], fun e t => run_of_none he⟩
  case case2 k ts l task timer r he next ih =>
    obtain ⟨⟨k₁, task'⟩, rs, hfire⟩ := k.says_fire task timer.time
    obtain ⟨x, rs', hrest⟩ := ih
    have hself : next = (k₁.under k.gate.emitter _, task') := hfire k.gate.emitter k.gate.telemetry
    rw [hself] at hrest
    refine ⟨x, rs ++ rs', fun e t => ?_⟩
    have hfire' : (k.under e t).fire task timer.time = _ := hfire e t
    change (k.under e t).run ts = _
    rw [run_of_some he, hfire', Emitter.hearAll_append]
    exact hrest e (e.hearAll t rs)

end Clockwork

theorem Gate.says_callAll (g : Gate) (plans : List Plan) :
    ∃ x rs, Says (·.callAll plans) g x rs := by
  obtain ⟨⟨k, tasks⟩, rs, hplan⟩ := ({ gate := g } : Clockwork).says_planAll plans
  obtain ⟨⟨k', tasks'⟩, rs', hrun⟩ := k.says_run tasks
  refine ⟨(k'.gate, tasks'.filterMap Task.result?), rs ++ rs', fun e t => ?_⟩
  have hplan' : ({ gate := g.under e t } : Clockwork).planAll plans = _ := hplan e t
  have hrun' := hrun e (e.hearAll t rs)
  simp only at hrun'
  simp only [callAll, hplan', hrun', Emitter.hearAll_append]
  rfl

end StockGate
