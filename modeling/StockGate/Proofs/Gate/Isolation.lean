import Mathlib.Data.List.Infix
import StockGate.Proofs.Gate.Health
import StockGate.Proofs.Gate.Limits
import StockGate.Proofs.Likeness.Validation

namespace StockGate

/-- The answer depends on nothing but the question. -/
def Service.Steady {α β : Type} (s : Service α β) : Prop :=
  ∀ m n question, s.answer m question = s.answer n question

/-- What the validation comes to find out. -/
def Validation.fate (v : Validation) (draws : Nat → Nat) (k : Catalog) :
    Except Backoff.Overflow Finding :=
  (v.run v.wake draws k []).finding

/-- How a call ends when its validation does. -/
def Call.conclude (c : Call) : Except Backoff.Overflow Finding → CallResult
  | .ok f => .evaluated (c.evaluation f)
  | .error _ => .overflown

/-- What the call comes to return unless it is refused or cancelled. -/
def Call.fate (c : Call) (k : Catalog) : CallResult :=
  match c.stage with
  | .asking w =>
    if FlagGate.enabled w.answer? then c.conclude ((c.validation w.ends k).fate c.draws k)
    else .evaluated (c.evaluation .skipped)
  | .validating _ v => c.conclude (v.fate c.draws k)

/-- The call has come to this, or is about to. -/
inductive CallStatus.Bound (k : Catalog) (r : CallResult) : CallStatus → Prop
  | waiting {c : Call} (hc : c.fate k = r) : Bound k r (.waiting c)
  | ended : Bound k r (.over r)

theorem Service.Steady.twin {k k' : Catalog} (hk : k.Steady) (hk' : k'.answer = k.answer)
    (m n : Nat) (q : String) : (k.answer m q).Twin LookupsAlike (k'.answer n q) := by
  rw [hk', hk n m]
  exact .refl .refl _

namespace Validation

variable {strict : Prop} {d now : Nat} {draws : Nat → Nat} {k k' k₁ : Catalog}
  {v v' v₁ : Validation} {f : Finding}

theorem Twin.fate (h : v.Twin strict d v') (hk : k.Steady) (hk' : k'.answer = k.answer) :
    v'.fate draws k' = v.fate draws k := by
  apply h.finding (hk.twin hk')
  rw [Nat.max_self, Nat.max_self, h.wake]

theorem Stride.answer_eq {a : ValidationAdvance} (h : v.Stride now draws k k₁ a) :
    k₁.answer = k.answer := by
  cases h <;> rfl

theorem Stride.step_eq_at_wake {a : ValidationAdvance} (h : v.Stride now draws k k₁ a)
    (hdue : v.wake ≤ now) (hnow : now ≤ v.wake) :
    (v.step (max v.wake v.wake) draws k).1 = k₁ ∧
      (v.step (max v.wake v.wake) draws k).2.2 = a := by
  have hwake : max v.wake v.wake = now := by omega
  rw [hwake]
  exact h.step_eq

theorem Stride.fate_moved (h : v.Stride now draws k k₁ (.moved v₁)) (hnow : now ≤ v.wake)
    (hk : k.Steady) : v₁.fate draws k = v.fate draws k := by
  obtain ⟨hcat, hstep⟩ := h.step_eq_at_wake h.due hnow
  rw [fate, fate, run_of_moved hstep, hcat]
  -- The rest of the run starts before the next wake, with the catalog asked once more.
  apply ((twin_refl True v₁).finding _ _).symm
  · exact fun m n q => hk.twin h.answer_eq m n q
  · have hdue := h.due
    have hle := h.le_wake
    omega

theorem Stride.fate_finished (h : v.Stride now draws k k₁ (.finished f)) (hnow : now ≤ v.wake) :
    v.fate draws k = .ok f := by
  apply run_of_finished
  apply (h.step_eq_at_wake _ hnow).2
  cases h with
  | timeOut hs hdue | check hs hdue | fail hs hdue => rwa [wake, hs]

theorem Stride.fate_overflown (h : v.Stride now draws k k₁ .overflown) (hnow : now ≤ v.wake) :
    v.fate draws k = .error .delayTooLong := by
  apply run_of_overflown
  apply (h.step_eq_at_wake _ hnow).2
  cases h with
  | overflow hs hdue => rwa [wake, hs]

end Validation

theorem Call.fate_later {c c' : Call} {k k' : Catalog} {w w' : Awaited FlagAnswer} {d : Nat}
    (hk : k.Steady) (hk' : k'.answer = k.answer) (hr : c'.request = c.request)
    (hp : c'.policy = c.policy) (hdraws : c'.draws = c.draws) (hs : c.stage = .asking w)
    (hs' : c'.stage = .asking w') (hw : w.Twin (· = ·) d w') : c'.fate k' = c.fate k := by
  have hanswer : w'.answer? = w.answer? := by
    have hrel := hw.answer?
    generalize w.answer? = x at hrel
    generalize w'.answer? = x' at hrel
    cases hrel with
    | none => rfl
    | some h => rw [h]
  have hask : (k.ask c.request.product).2.Twin LookupsAlike (k'.ask c.request.product).2 :=
    hk.twin hk' _ _ _
  have hv : (c.validation w.ends k).Twin True d (c'.validation w'.ends k') := by
    rw [Call.validation, Call.validation, hw.ends, hr, hp]
    exact Validation.twin_start (.refl True c.policy) hask
  have hfate : (c'.validation w'.ends k').fate c.draws k' =
      (c.validation w.ends k).fate c.draws k := hv.fate hk hk'
  have hconclude : c'.conclude = c.conclude := by
    funext x
    cases x with
    | error => rfl
    | ok f => rw [conclude, conclude, evaluation, evaluation, hr, hp]
  have hskip : c'.evaluation .skipped = c.evaluation .skipped := by
    rw [evaluation, evaluation, hr, hp]
  simp only [fate, hs, hs', hanswer, hdraws, hfate, hconclude, hskip]

theorem Call.fate_congr {c : Call} {k k' : Catalog} (hk : k.Steady)
    (hk' : k'.answer = k.answer) : c.fate k' = c.fate k := by
  cases hs : c.stage with
  | asking w => exact fate_later hk hk' rfl rfl rfl hs hs (w.twin_refl fun _ => rfl)
  | validating permit v =>
    have hfate : v.fate c.draws k' = v.fate c.draws k := (v.twin_refl True).fate hk hk'
    simp only [fate, hs, hfate]

theorem CallStatus.Bound.congr {status : CallStatus} {k k' : Catalog} {r : CallResult}
    (h : status.Bound k r) (hk : k.Steady) (hk' : k'.answer = k.answer) : status.Bound k' r := by
  cases h with
  | waiting hc => exact .waiting ((Call.fate_congr hk hk').trans hc)
  | ended => exact .ended

theorem CallStatus.Bound.eq {k : Catalog} {r r' : CallResult}
    (h : (CallStatus.over r').Bound k r) : r' = r := by
  cases h
  rfl

namespace Gate

variable {g g' : Gate} {c c' : Call} {a : CallAdvance}

/-- The settings are what they were, and so are all answers, whatever has been asked. -/
structure Settled (g g' : Gate) : Prop where
  policy : g'.policy = g.policy
  flag : g'.flag = g.flag
  flags : g'.flags.answer = g.flags.answer
  catalog : g'.catalog.answer = g.catalog.answer

theorem Settled.trans {g'' : Gate} (h : g.Settled g') (h' : g'.Settled g'') : g.Settled g'' where
  policy := h'.policy.trans h.policy
  flag := h'.flag.trans h.flag
  flags := h'.flags.trans h.flags
  catalog := h'.catalog.trans h.catalog

theorem settled_of_quiet {b : Breaker} {catalog : Catalog}
    (h : g'.quiet = { g with breaker := b, catalog }.quiet)
    (hcat : catalog.answer = g.catalog.answer) : g.Settled g' where
  policy := (congrArg Gate.policy h :)
  flag := (congrArg Gate.flag h :)
  flags := (congrArg (·.flags.answer) h :)
  catalog := (congrArg (·.catalog.answer) h :).trans hcat

theorem Stride.settled (h : g.Stride c g' a) : g.Settled g' := by
  have hcat : g'.catalog.answer = g.catalog.answer := by
    cases h with
    | await => rfl
    | skip _ _ _ hg | shed _ _ _ _ hg => rw [catalog_eq_of_quiet hg]
    | enter _ _ _ _ hg =>
      rw [catalog_eq_of_quiet hg]
      rfl
    | rest _ hv hg | go _ hv hg | finish _ hv hg | overflow _ hv hg =>
      rw [catalog_eq_of_quiet hg]
      exact hv.answer_eq
  exact settled_of_quiet h.frame hcat

theorem settled_cancel (g : Gate) (c : Call) : g.Settled (g.cancel c) :=
  settled_of_quiet (g.quiet_cancel c) rfl

theorem settled_begin (g : Gate) (r : Request) (draws : Nat → Nat) :
    g.Settled (g.begin r draws).1 :=
  ⟨rfl, rfl, rfl, rfl⟩

/-- The call is in time, and if it has still to ask the breaker, the circuit is closed. -/
structure Ready (g : Gate) (c : Call) : Prop where
  now : g.now ≤ c.wake
  closed : ∀ w, c.stage = .asking w → g.breaker.state = .closed

/-- A call that is not refused comes nearer to its fate. -/
theorem Stride.bound (h : g.Stride c g' a) (hready : g.Ready c) (hk : g.catalog.Steady) :
    (a.status c).Bound g.catalog (c.fate g.catalog) := by
  have hnow := hready.now
  cases h with
  | await | rest => exact .waiting rfl
  | skip hs _ hoff =>
    simp only [Call.fate, hs, hoff]
    exact .ended
  | shed hs _ _ ha =>
    rw [Breaker.enter_of_closed (hready.closed _ hs)] at ha
    cases ha
  | @enter w _ permit hs hdue hon =>
    rw [Call.wake, hs] at hnow
    have hends : g.now = w.ends := Nat.le_antisymm hnow hdue
    apply CallStatus.Bound.waiting
    simp only [Call.fate, hs, hon, ← hends]
    rfl
  | @go permit v v' _ _ hs hv =>
    rw [Call.wake, hs] at hnow
    have hfate : v'.fate c.draws g.catalog = v.fate c.draws g.catalog := hv.fate_moved hnow hk
    apply CallStatus.Bound.waiting
    simp only [Call.fate, hs, ← hfate]
    rfl
  | @finish permit v f _ _ hs hv =>
    rw [Call.wake, hs] at hnow
    have hfate := hv.fate_finished hnow
    simp only [Call.fate, hs, hfate]
    exact .ended
  | @overflow permit v _ _ hs hv =>
    rw [Call.wake, hs] at hnow
    have hfate := hv.fate_overflown hnow
    simp only [Call.fate, hs, hfate]
    exact .ended

theorem Stride.ready (h : g.Stride c g' a) (hready : g.Ready c)
    (hc' : a.status c = .waiting c') : g'.Ready c' := by
  have hnow := h.now_eq
  cases h with
  | await =>
    obtain rfl := CallStatus.waiting.inj hc'
    exact hready
  | rest hs =>
    obtain rfl := CallStatus.waiting.inj hc'
    exact ⟨hnow ▸ hready.now, fun w hw => by cases hs.symm.trans hw⟩
  | enter =>
    obtain rfl := CallStatus.waiting.inj hc'
    exact ⟨hnow ▸ Awaited.le_ends_start _ _ _, nofun⟩
  | go _ hv =>
    obtain rfl := CallStatus.waiting.inj hc'
    exact ⟨hnow ▸ hv.le_wake, nofun⟩
  | skip | shed | finish | overflow => cases hc'

theorem bound_resume (hready : g.Ready c) (hk : g.catalog.Steady) :
    g.Settled (g.resume c).1 ∧ (g.resume c).2.Bound g.catalog (c.fate g.catalog) ∧
      ∀ c', (g.resume c).2 = .waiting c' → (g.resume c).1.Ready c' := by
  fun_induction resume g c with
  | case1 g c g' c₁ hs hlt ih =>
    have hst := g.stride c
    rw [hs] at hst
    have hsettled := hst.settled
    have hsteady : g'.catalog.Steady := by
      rw [Service.Steady, hsettled.catalog]
      exact hk
    obtain ⟨hrest, hbound, hready'⟩ := ih (hst.ready hready rfl) hsteady
    cases hst.bound hready hk with
    | waiting hfate =>
      rw [Call.fate_congr hk hsettled.catalog, hfate] at hbound
      exact ⟨hsettled.trans hrest, hbound.congr hsteady hsettled.catalog.symm, hready'⟩
  | case2 g c g' hs =>
    have hst := g.stride c
    rw [hs] at hst
    exact ⟨hst.settled, hst.bound hready hk, fun c' hc' => hst.ready hready hc'⟩
  | case3 g c g' r hs =>
    have hst := g.stride c
    rw [hs] at hst
    exact ⟨hst.settled, hst.bound hready hk, fun c' hc' => by cases hc'⟩

end Gate

/-- The gate as it was before anything happened. -/
def Gate.fresh (g : Gate) : Gate :=
  { g with
    now := 0
    breaker := {}
    telemetry := {}
    catalog := { g.catalog with asked := [] }
    flags := { g.flags with asked := [] } }

/-- What a call that is made as planned comes to return. -/
def Plan.fate (p : Plan) (g : Gate) : CallResult :=
  (g.fresh.begin p.request p.draws).2.fate g.fresh.catalog

/-- The call that the step makes, if it makes one. -/
def GateStep.plan? : GateStep → Option Plan
  | .arrive r draws => some { request := r, draws }
  | _ => none

theorem Arrival.flagWait_later {v v' : Arrival} {d : Nat} (hnow : v'.met.now = v.met.now + d)
    (hflag : v'.met.flag = v.met.flag) (hreply : v'.flagReply = v.flagReply) :
    v.flagWait.Twin (· = ·) d v'.flagWait := by
  have hlimit : v'.met.now + v'.met.flag.timeout = v.met.now + v.met.flag.timeout + d := by
    rw [hflag]
    omega
  rw [flagWait, flagWait, hlimit, hreply, hnow]
  exact (Reply.Twin.refl (fun _ => rfl) v.flagReply).start _ _

theorem Plan.fate_begin {g g' : Gate} (h : g.fresh.Settled g') (hf : g.flags.Steady)
    (hk : g.catalog.Steady) (p : Plan) :
    (g'.begin p.request p.draws).2.fate g.fresh.catalog = p.fate g := by
  let alone : Arrival := ⟨g.fresh, p.request⟩
  let v : Arrival := ⟨g', p.request⟩
  have hreply : v.flagReply = alone.flagReply := by
    simp only [Arrival.flagReply, v, alone, h.flags, h.flag]
    exact hf _ _ _
  have hwait := Arrival.flagWait_later (Nat.zero_add g'.now).symm h.flag hreply
  exact Call.fate_later hk rfl rfl h.policy rfl rfl rfl hwait

/-- The task is on its way to this result, and nobody gives it up. -/
inductive Task.Bound (g : Gate) (r : CallResult) : Task → Prop
  | running {c : Call} {order : Nat} (hc : g.Ready c) (hfate : c.fate g.catalog = r) :
      Bound g r (.running c order none)
  | done {time : Nat} : Bound g r (.done r time)

namespace Clockwork

variable {k : Clockwork} {c : Call} {t : Task} {ts : List Task} {timer : Timer} {r : CallResult}

theorem bound_advance (hready : k.gate.Ready c) (hk : k.gate.catalog.Steady) :
    (k.advance c none).1.gate.catalog.Steady ∧
      (k.advance c none).2.Bound (k.advance c none).1.gate (c.fate k.gate.catalog) := by
  obtain ⟨hsettled, hbound, hready'⟩ := k.gate.bound_resume hready hk
  unfold advance
  generalize k.gate.resume c = x at hsettled hbound hready' ⊢
  obtain ⟨g', status⟩ := x
  have hsteady : g'.catalog.Steady := by
    rw [Service.Steady, hsettled.catalog]
    exact hk
  cases hbound with
  | @waiting c' hfate =>
    exact ⟨hsteady, .running (hready' c' rfl) ((Call.fate_congr hk hsettled.catalog).trans hfate)⟩
  | ended => exact ⟨hsteady, .done⟩

theorem bound_fire (h : t.Bound k.gate r) (hk : k.gate.catalog.Steady)
    (ht : t.timer? = some timer) :
    (k.fire t timer.time).1.gate.catalog.Steady ∧
      (k.fire t timer.time).2.Bound (k.fire t timer.time).1.gate r := by
  cases h with
  | @running c order hready hfate =>
    obtain rfl := Option.some.inj ht
    rw [← hfate]
    have hnow : max k.gate.now c.wake ≤ c.wake := Nat.max_le.mpr ⟨hready.now, Nat.le_refl _⟩
    exact bound_advance (k := { k with gate := k.gate.waitUntil c.wake }) ⟨hnow, hready.closed⟩ hk
  | done => cases ht

theorem bound_run (h : ∃ t, ts = [t] ∧ t.Bound k.gate r) (hk : k.gate.catalog.Steady) :
    ((k.run ts).2.filterMap Task.result?).map Prod.fst = [r] := by
  fun_induction run k ts with
  | case1 k ts he =>
    obtain ⟨t, rfl, hbound⟩ := h
    have ht := timer?_eq_none_of_earliest he (List.mem_singleton_self t)
    cases hbound with
    | running => cases ht
    | done => rfl
  | case2 k ts l t timer r' he next ih =>
    obtain ⟨u, hu, hbound⟩ := h
    obtain ⟨rfl, ht⟩ := eq_of_earliest he
    obtain ⟨rfl, rfl, rfl⟩ : l = [] ∧ t = u ∧ r' = [] := by
      cases l with
      | nil => simpa using hu
      | cons => simp at hu
    obtain ⟨hsteady, hnext⟩ := bound_fire hbound hk ht
    exact ih ⟨next.2, rfl, hnext⟩ hsteady

/-- A call that is made alone comes to its fate. -/
theorem callAll_alone (g : Gate) (p : Plan) (hk : g.catalog.Steady)
    (hclosed : g.breaker.state = .closed) (hstart : p.start = 0) (hcancel : p.cancelAfter = none) :
    (g.callAll [p]).2.map Prod.fst = [(g.begin p.request p.draws).2.fate g.catalog] := by
  have hready : (g.begin p.request p.draws).1.Ready (g.begin p.request p.draws).2 :=
    ⟨g.le_wake_begin p.request p.draws, fun _ _ => hclosed⟩
  obtain ⟨hsteady, hbound⟩ :=
    bound_advance (k := { gate := (g.begin p.request p.draws).1 }) hready hk
  have hplan : planAll { gate := g } [p] =
      ((advance { gate := (g.begin p.request p.draws).1 } (g.begin p.request p.draws).2 none).1,
        [(advance { gate := (g.begin p.request p.draws).1 } (g.begin p.request p.draws).2
          none).2]) := by
    simp only [planAll, plan, hstart, if_pos, start, hcancel]
    rfl
  simp only [Gate.callAll, hplan]
  exact bound_run ⟨_, rfl, hbound⟩ hsteady

end Clockwork

namespace GateSession

variable {s s' : GateSession} {g g' : Gate} {i : Nat} {v : Visit} {c : Call} {step : GateStep}
  {ps : List Plan} {g₀ : Gate}

/-- Every call has been cancelled, or has come to what it comes to alone, or is about to. -/
structure Isolated (g : Gate) (ps : List Plan) (s : GateSession) : Prop where
  settled : g.fresh.Settled s.gate
  length : ps.length = s.visits.length
  calls : ∀ (i : Nat) (p : Plan) (v : Visit), ps[i]? = some p → s.visits[i]? = some v →
    v.request = p.request ∧
      (v.status = .over .cancelled ∨ v.status.Bound g.fresh.catalog (p.fate g))

namespace Isolated

theorem turn (h : Isolated g ps s) (hc : s.call? i = some (v, c)) (hg : s.gate.Settled g')
    {status : CallStatus} {told : Option Admission}
    (hstatus : status = .over .cancelled ∨
      status.Bound g.fresh.catalog (c.fate g.fresh.catalog)) :
    Isolated g ps (s.turn i v g' status told) where
  settled := h.settled.trans hg
  length := h.length.trans List.length_set.symm
  calls := by
    obtain ⟨hv, hw⟩ := call?_eq_some_iff.mp hc
    intro j p u hp hu
    rcases visit_turn hu with ⟨rfl, rfl⟩ | ⟨-, hu⟩
    · obtain ⟨hr, hs⟩ := h.calls j p v hp hv
      rw [hw] at hs
      cases hs.resolve_left nofun with
      | waiting hfate => exact ⟨hr, hfate ▸ hstatus⟩
    · exact h.calls j p u hp hu

theorem advance (h : Isolated g ps s) (hr : Reached g₀ s) (hk : g.catalog.Steady)
    (hclosed : s.gate.breaker.state = .closed) (hc : s.call? i = some (v, c)) :
    Isolated g ps
      (s.turn i v (s.gate.step c).1 ((s.gate.step c).2.status c) (s.gate.told? c)) := by
  have hst := s.gate.stride c
  have hnow := hr.punctual _ (mem_wakes_of_call? hc)
  have hanswer : s.gate.catalog.answer = g.fresh.catalog.answer := h.settled.catalog
  have hsteady : s.gate.catalog.Steady := by
    rw [Service.Steady, hanswer]
    exact hk
  have hbound := hst.bound ⟨hnow, fun _ _ => hclosed⟩ hsteady
  rw [Call.fate_congr (k := g.fresh.catalog) hk hanswer] at hbound
  exact h.turn hc hst.settled (.inr (hbound.congr hsteady hanswer.symm))

theorem arrive (h : Isolated g ps s) (hf : g.flags.Steady) (hk : g.catalog.Steady) (r : Request)
    (draws : Nat → Nat) :
    Isolated g (ps ++ [{ request := r, draws }]) (s.step (.arrive r draws)) where
  settled := h.settled.trans (s.gate.settled_begin r draws)
  length := by
    change (ps ++ [_]).length = (s.visits ++ [_]).length
    rw [List.length_append, List.length_append, h.length]
    rfl
  calls := by
    intro i p v hp hv
    rcases visit_arrive hv with ⟨rfl, rfl⟩ | ⟨hlt, hv⟩
    · rw [← h.length, List.getElem?_concat_length] at hp
      obtain rfl := Option.some.inj hp
      have hfate := Plan.fate_begin h.settled hf hk { request := r, draws }
      exact ⟨rfl, .inr (.waiting hfate)⟩
    · rw [List.getElem?_append_left (h.length ▸ hlt)] at hp
      exact h.calls i p v hp hv

theorem happens (h : Isolated g ps s) (hr : Reached g₀ s) (hf : g.flags.Steady)
    (hk : g.catalog.Steady) (hp : ∀ q, step = .replace q → q = g.policy)
    (hclosed : s.gate.breaker.state = .closed) (hs : s.Happens step s') :
    Isolated g (ps ++ step.plan?.toList) s' := by
  have hnone : ps ++ (none : Option Plan).toList = ps := List.append_nil ps
  cases hs with
  | arrive r draws => exact h.arrive hf hk r draws
  | advance hc => exact hnone.symm ▸ h.advance hr hk hclosed hc
  | @cancel i v c hc => exact hnone.symm ▸ h.turn hc (s.gate.settled_cancel c) (.inl rfl)
  | miss hs hc =>
    have hplan : step.plan? = none := by rcases hs with rfl | rfl <;> rfl
    rw [hplan, hnone]
    exact h
  | wait ms =>
    exact hnone.symm ▸ ⟨h.settled.trans ⟨rfl, rfl, rfl, rfl⟩, h.length, h.calls⟩
  | replace q =>
    have hq : q = s.gate.policy := (hp q rfl).trans h.settled.policy.symm
    exact hnone.symm ▸ ⟨h.settled.trans ⟨hq, rfl, rfl, rfl⟩, h.length, h.calls⟩

end Isolated

theorem isolated_run (g : Gate) (steps : List GateStep) (hf : g.flags.Steady)
    (hk : g.catalog.Steady) (hp : ∀ q, .replace q ∈ steps → q = g.policy)
    (hclosed : ∀ l, l <+: steps → (run g l).gate.breaker.state = .closed) :
    Isolated g (steps.filterMap GateStep.plan?) (run g steps) := by
  induction steps using List.reverseRecOn with
  | nil => exact ⟨⟨rfl, rfl, rfl, rfl⟩, rfl, fun _ _ _ hp => absurd hp nofun⟩
  | append_singleton steps step ih =>
    have hprefix := List.prefix_append steps [step]
    have ih := ih (fun q hq => hp q (List.mem_append_left _ hq))
      fun l hl => hclosed l (hl.trans hprefix)
    rw [run_append, filterMap_concat]
    apply ih.happens (reached_run g steps) hf hk _ (hclosed steps hprefix) (happens _ step)
    rintro q rfl
    exact hp q (List.mem_append_right _ (List.mem_singleton_self _))

/-- Let the answers of the catalog and of the flag's service depend on the questions alone. Then,
however calls arrive, go on and are cancelled while the circuit stays closed and the policy the
same, what comes of a call that is not cancelled is just what comes of it when it is made alone, of
a fresh gate with the same policy and with the same jitter. -/
theorem calls_are_isolated (g : Gate) (steps : List GateStep) (i : Nat) (p : Plan) (v : Visit)
    (r : CallResult) (hf : g.flags.Steady) (hk : g.catalog.Steady)
    (hp : ∀ q, .replace q ∈ steps → q = g.policy)
    (hclosed : ∀ l, l <+: steps → (run g l).gate.breaker.state = .closed)
    (hplan : (steps.filterMap GateStep.plan?)[i]? = some p)
    (hv : (run g steps).visits[i]? = some v) (hr : v.status = .over r) (hend : r ≠ .cancelled) :
    v.request = p.request ∧ (g.fresh.callAll [p]).2.map Prod.fst = [r] := by
  obtain ⟨hrequest, hstatus⟩ := (isolated_run g steps hf hk hp hclosed).calls i p v hplan hv
  refine ⟨hrequest, ?_⟩
  obtain ⟨step, -, hstep⟩ := List.mem_filterMap.mp (List.mem_of_getElem? hplan)
  cases step with
  | arrive req draws =>
    obtain rfl := Option.some.inj hstep
    rw [hr] at hstatus
    have hbound := hstatus.resolve_left fun hover => hend (CallStatus.over.inj hover)
    rw [hbound.eq]
    exact Clockwork.callAll_alone g.fresh _ hk rfl rfl rfl
  | advance | cancel | wait | replace => cases hstep

/-- Two calls at the same time, of which the second comes later and the first is cancelled. -/
def overlap : List GateStep :=
  [.arrive fiveOfOne fun _ => 0, .advance 0, .wait 200, .arrive fiveOfOne fun _ => 0, .advance 1,
    .wait 200, .cancel 0, .wait 300, .advance 1]

theorem calls_are_isolated_in_overlap :
    ∃ v, (run scarce overlap).visits[1]? = some v ∧
      v.status = .over (.evaluated ⟨.rejectBusiness ⟨"lamp", 5, 3⟩,
        .of fiveOfOne (.checked 3 500 1)⟩) ∧
      (scarce.fresh.callAll [{ request := fiveOfOne, draws := fun _ => 0 }]).2.map Prod.fst =
        [.evaluated ⟨.rejectBusiness ⟨"lamp", 5, 3⟩, .of fiveOfOne (.checked 3 500 1)⟩] := by
  have hclosed : ∀ l ∈ overlap.inits, (run scarce l).gate.breaker.state = .closed := by decide
  have hv : ∃ v, (run scarce overlap).visits[1]? = some v ∧
      v.status = .over (.evaluated ⟨.rejectBusiness ⟨"lamp", 5, 3⟩,
        .of fiveOfOne (.checked 3 500 1)⟩) := ⟨_, rfl, rfl⟩
  obtain ⟨v, hv, hr⟩ := hv
  obtain ⟨-, halone⟩ := calls_are_isolated scarce overlap 1 _ v _ (fun _ _ _ => rfl)
    (fun _ _ _ => rfl) (by simp [overlap])
    (fun l hl => hclosed l ((List.mem_inits l overlap).mpr hl)) rfl hv hr nofun
  exact ⟨v, hv, hr, halone⟩

end GateSession

end StockGate
