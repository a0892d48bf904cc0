import Mathlib.Data.List.Forall2
import StockGate.Proofs.Gate.Endings
import StockGate.Proofs.Gate.Pace
import StockGate.Proofs.Gate.Schedule

namespace StockGate

/-- The call has returned, and its validation kept to the policy. -/
def CallResult.InTime (r : CallResult) (p : Policy) : Prop :=
  ∃ e, r = .evaluated e ∧ e.outcome.InTime p

/-- The call was cancelled, or it has returned by its limit. -/
def Ending.InTime (e : Ending) : Prop :=
  e.result ≠ .cancelled → e.time ≤ e.limit ∧ e.result.InTime e.met.policy

namespace GateSession

variable {s : GateSession} {g : Gate} {i : Nat} {v : Visit} {c : Call} {e : Ending}

theorem Reached.ending_in_time (h : Reached g s) (hc : s.call? i = some (v, c))
    (he : s.endingOf i v c ((s.gate.step c).2.status c) = some e) : e.InTime := by
  have hnow := h.punctual _ (mem_wakes_of_call? hc)
  have hpaced := h.paced hc
  obtain ⟨g', hst⟩ := stride_of_endingOf he
  obtain ⟨r, -, rfl⟩ := endingOf_eq_some_iff.mp he
  intro _
  exact ⟨Nat.le_trans hnow hpaced.wake_le, hpaced.ended hst hnow⟩

theorem endings_in_time (g : Gate) (steps : List GateStep) : ∀ e ∈ endings g steps, e.InTime :=
  forall_endings (fun _ _ _ _ _ hr hc he => hr.ending_in_time hc he)
    (fun _ _ _ _ hne => absurd rfl hne) steps

/-- A call that goes on at its wake gets nearer to its end. -/
theorem rank_lt_of_advance {u : Visit} {d : Call} (hc : s.call? i = some (v, c))
    (hdue : c.wake ≤ s.gate.now) (hd : (s.step (.advance i)).call? i = some (u, d)) :
    d.rank < c.rank := by
  simp only [GateSession.step, hc] at hd
  rcases call?_turn hd with ⟨-, -, hstatus⟩ | ⟨hne, -⟩
  · cases ha : (s.gate.step c).2 with
    | waiting => exact absurd (Gate.wake_gt_of_step ha) (Nat.not_lt_of_le hdue)
    | moved c' =>
      rw [ha] at hstatus
      obtain rfl := CallStatus.waiting.inj hstatus
      exact Gate.rank_lt_of_step ha
    | _ r =>
      rw [ha] at hstatus
      cases hstatus
  · exact absurd rfl hne

end GateSession

/-- What a call can come to that keeps to its limits. -/
inductive CallStatus.Paced (now : Nat) (v : Arrival) : CallStatus → Prop
  | waiting {c : Call} (hc : c.Paced v) (hnow : now ≤ c.wake) : Paced now v (.waiting c)
  | ended {r : CallResult} (hr : r.InTime v.met.policy) : Paced now v (.over r)

namespace Gate

variable {g g' : Gate} {c : Call} {v : Arrival}

structure Keeps (g g' : Gate) : Prop where
  policy : g'.policy = g.policy
  flag : g'.flag = g.flag

theorem Keeps.trans {g'' : Gate} (h : g.Keeps g') (h' : g'.Keeps g'') : g.Keeps g'' :=
  ⟨h'.policy.trans h.policy, h'.flag.trans h.flag⟩

theorem keeps_of_quiet {b : Breaker} {catalog : Catalog}
    (h : g'.quiet = { g with breaker := b, catalog }.quiet) : g.Keeps g' where
  policy := (congrArg Gate.policy h :)
  flag := (congrArg Gate.flag h :)

theorem keeps_resume (g : Gate) (c : Call) :
    g.Keeps (g.resume c).1 ∧ (g.resume c).1.now = g.now := by
  fun_induction resume g c with
  | case1 g c g' c' hs hlt ih =>
    have hst := g.stride c
    rw [hs] at hst
    exact ⟨(keeps_of_quiet hst.frame).trans ih.1, ih.2.trans hst.now_eq⟩
  | case2 g c g' hs =>
    have hst := g.stride c
    rw [hs] at hst
    exact ⟨keeps_of_quiet hst.frame, hst.now_eq⟩
  | case3 g c g' r hs =>
    have hst := g.stride c
    rw [hs] at hst
    exact ⟨keeps_of_quiet hst.frame, hst.now_eq⟩

theorem paced_resume (h : c.Paced v) (hnow : g.now ≤ c.wake) :
    (g.resume c).2.Paced g.now v := by
  fun_induction resume g c with
  | case1 g c g' c' hs hlt ih =>
    have hst := g.stride c
    rw [hs] at hst
    have hwake := hst.le_wake
    rw [← hst.now_eq] at hwake ⊢
    exact ih (h.moved hst hnow) hwake
  | case2 g c g' hs => exact .waiting h hnow
  | case3 g c g' r hs =>
    have hst := g.stride c
    rw [hs] at hst
    exact .ended (h.ended hst hnow)

end Gate

/-- The last moment at which the call can return, if the plans are made now. -/
def Plan.limit (p : Plan) (g : Gate) : Nat :=
  g.now + p.start + g.flag.timeout + g.policy.timeout

/-- The call has been cancelled as planned, or it has returned by its limit. -/
def Plan.Met (p : Plan) (g : Gate) (x : CallResult × Nat) : Prop :=
  x.1 = .cancelled ∧ p.cancelAfter ≠ none ∨ x.2 ≤ p.limit g ∧ x.1.InTime g.policy

/-- The task is on its way to meet the plan. -/
inductive Task.Timely (g : Gate) (now : Nat) (p : Plan) : Task → Prop
  | planned {t : Timer} (ht : t.time = g.now + p.start) (hnow : now ≤ t.time) :
      Timely g now p (.planned p t)
  | running {v : Arrival} {c : Call} {order : Nat} {cancel : Option Timer}
      (hlimit : v.limit = p.limit g) (hpolicy : v.met.policy = g.policy) (hc : c.Paced v)
      (hnow : now ≤ c.wake) (hcancel : p.cancelAfter = none → cancel = none) :
      Timely g now p (.running c order cancel)
  | done {r : CallResult} {time : Nat} (h : p.Met g (r, time)) : Timely g now p (.done r time)

theorem forall₂_split {α β : Type} {R : α → β → Prop} {xs : List α} {l r : List β} {b : β}
    (h : List.Forall₂ R xs (l ++ b :: r)) :
    ∃ l' a r', xs = l' ++ a :: r' ∧ List.Forall₂ R l' l ∧ R a b ∧ List.Forall₂ R r' r := by
  have hl := List.forall₂_take_append xs l (b :: r) h
  have hr := List.forall₂_drop_append xs l (b :: r) h
  generalize hxs : xs.drop l.length = rest at hr
  cases hr with
  | @cons a _ r' _ hab hr =>
    refine ⟨xs.take l.length, a, r', ?_, hl, hab, hr⟩
    rw [← hxs, List.take_append_drop]

theorem forall₂_imp_of_mem {α β : Type} {R S : α → β → Prop} {xs : List α} {ys : List β}
    (h : List.Forall₂ R xs ys) (hi : ∀ a, ∀ b ∈ ys, R a b → S a b) : List.Forall₂ S xs ys := by
  induction h with
  | nil => exact .nil
  | cons hab _ ih =>
    have hrest := ih fun a b hb => hi a b (List.mem_cons_of_mem _ hb)
    exact .cons (hi _ _ List.mem_cons_self hab) hrest

namespace Clockwork

variable {g : Gate} {k : Clockwork} {p : Plan} {t : Task} {ts : List Task} {timer : Timer}
  {plans : List Plan} {now time : Nat}

theorem timely_advance {v : Arrival} {c : Call} {cancel : Option Timer}
    (hlimit : v.limit = p.limit g) (hpolicy : v.met.policy = g.policy) (hc : c.Paced v)
    (hnow : k.gate.now ≤ c.wake) (hcancel : p.cancelAfter = none → cancel = none) :
    (k.advance c cancel).2.Timely g k.gate.now p := by
  have hwake := hc.wake_le
  rw [hlimit] at hwake
  have hr := Gate.paced_resume hc hnow
  unfold advance
  generalize k.gate.resume c = x at hr ⊢
  obtain ⟨g', status⟩ := x
  cases hr with
  | ended hr => exact .done (.inr ⟨Nat.le_trans hnow hwake, hpolicy ▸ hr⟩)
  | waiting hc' hnow' =>
    simp only
    split
    · next hdue =>
      -- Only a planned cancellation has a timer that can be due here.
      refine .done (.inl ⟨rfl, fun hnone => ?_⟩)
      rw [hcancel hnone] at hdue
      cases hdue
    · exact .running hlimit hpolicy hc' hnow' hcancel

theorem keeps_advance (k : Clockwork) (c : Call) (cancel : Option Timer) :
    k.gate.Keeps (k.advance c cancel).1.gate ∧ (k.advance c cancel).1.gate.now = k.gate.now := by
  have hr := k.gate.keeps_resume c
  unfold advance
  generalize k.gate.resume c = x at hr ⊢
  obtain ⟨g', status⟩ := x
  cases status with
  | waiting c' =>
    simp only
    split
    · exact ⟨hr.1.trans (Gate.keeps_of_quiet (g'.quiet_cancel c')), (g'.cancel_now c').trans hr.2⟩
    · exact hr
  | _ r => exact hr

theorem timely_start (hk : g.Keeps k.gate) (hnow : k.gate.now = g.now + p.start) :
    (k.start p).2.Timely g k.gate.now p := by
  have hlimit : (⟨k.gate, p.request⟩ : Arrival).limit = p.limit g := by
    rw [Arrival.limit, Plan.limit, hnow, hk.flag, hk.policy]
  exact timely_advance (k := { k with gate := (k.gate.begin p.request p.draws).1 }) hlimit
    hk.policy (.begin k.gate p.request p.draws) (k.gate.le_wake_begin p.request p.draws)
    fun hnone => by rw [hnone]; rfl

theorem keeps_start (k : Clockwork) (p : Plan) :
    k.gate.Keeps (k.start p).1.gate ∧ (k.start p).1.gate.now = k.gate.now := by
  obtain ⟨hkeeps, hnow⟩ := keeps_advance
    { k with gate := (k.gate.begin p.request p.draws).1 } (k.gate.begin p.request p.draws).2
    (p.cancelAfter.map fun d => ⟨k.gate.now + d, k.timers + 1⟩)
  exact ⟨⟨hkeeps.policy, hkeeps.flag⟩, hnow⟩

theorem timely_planAll (hk : g.Keeps k.gate) (hnow : k.gate.now = g.now) (plans : List Plan) :
    List.Forall₂ (fun p t => t.Timely g g.now p) plans (k.planAll plans).2 ∧
      g.Keeps (k.planAll plans).1.gate ∧ (k.planAll plans).1.gate.now = g.now := by
  induction plans generalizing k with
  | nil => exact ⟨.nil, hk, hnow⟩
  | cons p plans ih =>
    have hplan : (k.plan p).2.Timely g g.now p ∧ g.Keeps (k.plan p).1.gate ∧
        (k.plan p).1.gate.now = g.now := by
      unfold plan
      split
      · next hzero =>
        obtain ⟨hkeeps, hsame⟩ := k.keeps_start p
        refine ⟨?_, hk.trans hkeeps, hsame.trans hnow⟩
        rw [← hnow]
        exact timely_start hk (by rw [hnow, hzero, Nat.add_zero])
      · exact ⟨.planned (by rw [hnow]) (by rw [hnow]; exact Nat.le_add_right _ _), hk, hnow⟩
    obtain ⟨htimely, hk', hnow'⟩ := hplan
    obtain ⟨hrest, hk'', hnow''⟩ := ih hk' hnow'
    exact ⟨.cons htimely hrest, hk'', hnow''⟩

theorem timely_later (h : t.Timely g now p)
    (ht : ∀ timer, t.timer? = some timer → time ≤ timer.time) :
    t.Timely g (max now time) p := by
  cases h with
  | planned hstart hnow => exact .planned hstart (Nat.max_le.mpr ⟨hnow, ht _ rfl⟩)
  | running hlimit hpolicy hc hnow hcancel =>
    -- The timer of a call goes off no later than its wake.
    have hwake := Nat.le_trans (ht _ rfl) Timer.time_first_le
    exact .running hlimit hpolicy hc (Nat.max_le.mpr ⟨hnow, hwake⟩) hcancel
  | done h => exact .done h

theorem timely_fire (hk : g.Keeps k.gate) (h : t.Timely g k.gate.now p)
    (ht : t.timer? = some timer) :
    (k.fire t timer.time).2.Timely g (max k.gate.now timer.time) p := by
  cases h with
  | planned hstart hnow =>
    obtain rfl := Option.some.inj ht
    refine timely_start (k := { k with gate := k.gate.waitUntil _ }) ⟨hk.policy, hk.flag⟩ ?_
    exact (Nat.max_eq_right hnow).trans hstart
  | running hlimit hpolicy hc hnow hcancel =>
    obtain rfl := Option.some.inj ht
    refine timely_advance (k := { k with gate := k.gate.waitUntil _ }) hlimit hpolicy hc ?_ hcancel
    exact Nat.max_le.mpr ⟨hnow, Timer.time_first_le⟩
  | done => cases ht

theorem keeps_fire (k : Clockwork) (t : Task) (time : Nat) :
    k.gate.Keeps (k.fire t time).1.gate ∧ (k.fire t time).1.gate.now = max k.gate.now time := by
  have hwait : k.gate.Keeps (k.gate.waitUntil time) := ⟨rfl, rfl⟩
  cases t with
  | planned p =>
    obtain ⟨hk, hnow⟩ := keeps_start { k with gate := k.gate.waitUntil time } p
    exact ⟨hwait.trans hk, hnow⟩
  | running c order cancel =>
    obtain ⟨hk, hnow⟩ := keeps_advance { k with gate := k.gate.waitUntil time } c cancel
    exact ⟨hwait.trans hk, hnow⟩
  | done => exact ⟨hwait, rfl⟩

theorem timely_run (hk : g.Keeps k.gate)
    (h : List.Forall₂ (fun p t => t.Timely g k.gate.now p) plans ts) :
    List.Forall₂ (fun p t => t.Timely g (k.run ts).1.gate.now p) plans (k.run ts).2 := by
  fun_induction run k ts with
  | case1 => exact h
  | case2 k ts l t timer r he next ih =>
    obtain ⟨rfl, ht⟩ := eq_of_earliest he
    obtain ⟨hkeeps, hnow⟩ := k.keeps_fire t timer.time
    apply ih (hk.trans hkeeps)
    rw [hnow]
    -- The others wait at least as long as the one whose timer goes off.
    have hlater (p : Plan) (u : Task) (hu : u ∈ l ++ t :: r) (hp : u.Timely g k.gate.now p) :
        u.Timely g (max k.gate.now timer.time) p :=
      timely_later hp fun other ho => time_le_of_earliest he hu ho
    obtain ⟨ps, p, qs, rfl, hl, hp, hr⟩ := forall₂_split h
    have hl := forall₂_imp_of_mem hl fun q u hu => hlater q u (List.mem_append_left _ hu)
    have hr := forall₂_imp_of_mem hr fun q u hu =>
      hlater q u (List.mem_append_right _ (List.mem_cons_of_mem t hu))
    exact List.rel_append hl (.cons (timely_fire hk hp ht) hr)

theorem met_of_timely (h : List.Forall₂ (fun p t => t.Timely g now p) plans ts)
    (hdone : ∀ t ∈ ts, t.timer? = none) :
    List.Forall₂ (fun p x => p.Met g x) plans (ts.filterMap Task.result?) := by
  induction h with
  | nil => exact .nil
  | @cons p t plans ts hp _ ih =>
    have ht := hdone t List.mem_cons_self
    have ih := ih fun u hu => hdone u (List.mem_cons_of_mem t hu)
    cases hp with
    | planned | running => cases ht
    | done hmet => exact .cons hmet ih

theorem met_callAll (g : Gate) (plans : List Plan) :
    List.Forall₂ (fun p x => p.Met g x) plans (g.callAll plans).2 := by
  obtain ⟨htimely, hk, hnow⟩ := timely_planAll (k := { gate := g }) ⟨rfl, rfl⟩ rfl plans
  rw [← hnow] at htimely
  have hrun := timely_run hk htimely
  exact met_of_timely hrun fun t ht => timer?_eq_none_of_earliest (earliest_run _ _) ht

end Clockwork

end StockGate
