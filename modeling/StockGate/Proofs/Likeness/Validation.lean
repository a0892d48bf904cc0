import StockGate.Proofs.Validation

namespace StockGate

/-- The classes of errors of a lookup. -/
inductive Trouble where
  | outage
  | refusal
  | nonsense
  deriving DecidableEq

def LookupError.trouble : LookupError → Trouble
  | .connect _ | .unavailable _ => .outage
  | .status _ | .notFound _ => .refusal
  | .invalidResponse _ => .nonsense

/-- The classes are just as fine as retries and findings need them. -/
theorem LookupError.trouble_eq_iff {e e' : LookupError} :
    e'.trouble = e.trouble ↔ e'.isTransient = e.isTransient ∧ e'.kind = e.kind := by
  cases e <;> cases e' <;> simp [trouble, isTransient, kind]

/-- The answers are errors of one class, or records that say the same about stock. -/
inductive LookupsAlike : LookupAnswer → LookupAnswer → Prop
  | found {p p' : Product} (hid : p'.id = p.id) (hstock : p'.stock = p.stock) :
      LookupsAlike (.ok p) (.ok p')
  | failed {e e' : LookupError} (he : e'.trouble = e.trouble) : LookupsAlike (.error e) (.error e')

theorem LookupsAlike.refl : ∀ a : LookupAnswer, LookupsAlike a a
  | .ok _ => .found rfl rfl
  | .error _ => .failed rfl

/-- The policies differ at most in what they do about failures, and if `strict` in nothing. -/
inductive Policy.Akin (strict : Prop) (p : Policy) : Policy → Prop
  | lenience (lenient : Bool) (h : strict → lenient = p.failOpen) :
      Akin strict p { p with failOpen := lenient }

namespace Policy.Akin

variable {strict : Prop} {p q : Policy}

theorem refl (strict : Prop) (p : Policy) : p.Akin strict p :=
  .lenience p.failOpen fun _ => rfl

theorem timeout (h : p.Akin strict q) : q.timeout = p.timeout := by
  cases h
  rfl

theorem retryPlan (h : p.Akin strict q) : RetryPlan.ofPolicy q = RetryPlan.ofPolicy p := by
  cases h
  rfl

end Policy.Akin

section Waiting

variable {α : Type} {R : α → α → Prop} {d : Nat}

/-- The replies take equally long, and their answers are so related. -/
inductive Reply.Twin (R : α → α → Prop) : Reply α → Reply α → Prop
  | after (delay : Nat) {a a' : α} (ha : R a a') : Twin R (.after delay a) (.after delay a')
  | never : Twin R .never .never

/-- All times of the second are `d` later, and the answers are so related. -/
structure Awaited.Twin (R : α → α → Prop) (d : Nat) (w w' : Awaited α) : Prop where
  arrival : Option.Rel (fun x x' => x'.1 = x.1 + d ∧ R x.2 x'.2) w.arrival w'.arrival
  limit : w'.limit = w.limit + d

theorem Reply.Twin.refl (hR : ∀ a, R a a) : ∀ r : Reply α, r.Twin R r
  | .after delay a => .after delay (hR a)
  | .never => .never

theorem Reply.Twin.start {r r' : Reply α} (h : r.Twin R r') (now limit : Nat) :
    (Awaited.start now r limit).Twin R d (.start (now + d) r' (limit + d)) := by
  have hlimit : max (now + d) (limit + d) = max now limit + d := by omega
  cases h with
  | after delay ha => exact ⟨.some ⟨Nat.add_right_comm now d delay, ha⟩, hlimit⟩
  | never => exact ⟨.none, hlimit⟩

theorem Awaited.twin_refl (hR : ∀ a, R a a) (w : Awaited α) : w.Twin R 0 w := by
  refine ⟨?_, rfl⟩
  cases w.arrival with
  | none => exact .none
  | some x => exact .some ⟨rfl, hR x.2⟩

namespace Awaited.Twin

variable {w w' : Awaited α}

theorem ends (h : w.Twin R d w') : w'.ends = w.ends + d := by
  have harrival := h.arrival
  unfold Awaited.ends
  generalize w.arrival = x at harrival
  generalize w'.arrival = x' at harrival
  rw [h.limit]
  cases harrival with
  | none => rfl
  | some hx =>
    simp only [hx.1]
    omega

theorem answer? (h : w.Twin R d w') : Option.Rel R w.answer? w'.answer? := by
  have harrival := h.arrival
  unfold Awaited.answer?
  generalize w.arrival = x at harrival
  generalize w'.arrival = x' at harrival
  rw [h.limit]
  cases harrival with
  | none => exact .none
  | @some x x' hx =>
    simp only [hx.1, Nat.add_le_add_iff_right]
    split
    · exact .some hx.2
    · exact .none

end Awaited.Twin

end Waiting

inductive LookupStage.Twin (d : Nat) : LookupStage → LookupStage → Prop
  | asked {w w' : Awaited LookupAnswer} (hw : w.Twin LookupsAlike d w') :
      Twin d (.asked w) (.asked w')
  | pausing (t : Nat) : Twin d (.pausing t) (.pausing (t + d))

/-- The second validation does what the first one does, `d` later. -/
structure Validation.Twin (strict : Prop) (d : Nat) (v v' : Validation) : Prop where
  request : v'.request = v.request
  policy : v.policy.Akin strict v'.policy
  deadline : v'.deadline.time = v.deadline.time + d
  started : v'.started = v.started + d
  attempt : v'.attempt = v.attempt
  stage : v.stage.Twin d v'.stage

inductive ValidationAdvance.Twin (strict : Prop) (d : Nat) :
    ValidationAdvance → ValidationAdvance → Prop
  | waiting : Twin strict d .waiting .waiting
  | moved {v v' : Validation} (hv : v.Twin strict d v') : Twin strict d (.moved v) (.moved v')
  | finished (f : Finding) : Twin strict d (.finished f) (.finished f)
  | overflown : Twin strict d .overflown .overflown

theorem RetryPlan.next_congr {e e' : LookupError} (he : e'.isTransient = e.isTransient)
    (plan : RetryPlan) (attempts remaining draw : Nat) :
    plan.next attempts e' remaining draw = plan.next attempts e remaining draw := by
  rw [next, next, he]

theorem LookupsAlike.available {a a' : LookupAnswer} (h : LookupsAlike a a') (asked : String) :
    (∃ n, a.bind (·.available asked) = .ok n ∧ a'.bind (·.available asked) = .ok n) ∨
      ∃ e e', a.bind (·.available asked) = .error e ∧ a'.bind (·.available asked) = .error e' ∧
        e'.trouble = e.trouble := by
  cases h with
  | failed he => exact .inr ⟨_, _, rfl, rfl, he⟩
  | @found p p' hid hstock =>
    change (∃ n, p.available asked = .ok n ∧ p'.available asked = .ok n) ∨
      ∃ e e', p.available asked = .error e ∧ p'.available asked = .error e' ∧
        e'.trouble = e.trouble
    have heq : p'.available asked = p.available asked := by
      rw [Product.available, Product.available, hid, hstock]
    rw [heq]
    cases ha : p.available asked with
    | ok n => exact .inl ⟨n, rfl, rfl⟩
    | error e => exact .inr ⟨e, e, rfl, rfl, rfl⟩

namespace Validation

variable {strict : Prop} {d now now' : Nat} {draws : Nat → Nat} {k k' k₁ : Catalog}
  {v v' v₁ : Validation} {f : Finding} {log log' : List Event}

namespace Twin

theorem wake (h : v.Twin strict d v') : v'.wake = v.wake + d := by
  have hstage := h.stage
  unfold Validation.wake
  generalize v.stage = stage at hstage
  generalize v'.stage = stage' at hstage
  cases hstage with
  | asked hw => exact hw.ends
  | pausing t => rfl

theorem start {reply reply' : Reply LookupAnswer} (h : v.Twin strict d v')
    (hreply : reply.Twin LookupsAlike reply') :
    (v.listening now reply).Twin strict d (v'.listening (now + d) reply') where
  request := h.request
  policy := h.policy
  deadline := h.deadline
  started := h.started
  attempt := h.attempt
  stage := by
    have hstart := hreply.start (d := d) now v.deadline.time
    rw [← h.deadline] at hstart
    exact .asked hstart

theorem remaining (h : v.Twin strict d v') (now : Nat) :
    v'.deadline.remaining (now + d) = v.deadline.remaining now := by
  rw [Deadline.remaining, Deadline.remaining, h.deadline, Nat.add_sub_add_right]

theorem next (h : v.Twin strict d v') {e e' : LookupError} (he : e'.trouble = e.trouble)
    (now draw : Nat) :
    (RetryPlan.ofPolicy v'.policy).next v'.attempt e' (v'.deadline.remaining (now + d)) draw =
      (RetryPlan.ofPolicy v.policy).next v.attempt e (v.deadline.remaining now) draw := by
  rw [h.policy.retryPlan, h.attempt, h.remaining]
  exact RetryPlan.next_congr (LookupError.trouble_eq_iff.mp he).1 _ _ _ _

theorem failed (h : v.Twin strict d v') (now : Nat) (kind : ErrorKind) :
    Finding.failed kind (now + d - v'.started) v'.attempt =
      .failed kind (now - v.started) v.attempt := by
  rw [h.started, h.attempt, Nat.add_sub_add_right]

theorem afterError (h : v.Twin strict d v') {e e' : LookupError} (he : e'.trouble = e.trouble)
    (now draw : Nat) :
    (v.afterError now draw e).2.Twin strict d (v'.afterError (now + d) draw e').2 := by
  have hnext := h.next he now draw
  -- The answer to whether and when to try again is the same.
  unfold Validation.afterError
  split
  · next hd =>
    split
    · exact .overflown
    · next hd' => cases hd'.symm.trans (hnext.trans hd)
    · next hd' => cases hd'.symm.trans (hnext.trans hd)
  · next delay hd =>
    split
    · next hd' => cases hd'.symm.trans (hnext.trans hd)
    · next delay' hd' =>
      cases hd'.symm.trans (hnext.trans hd)
      have hattempt : v'.attempt + 1 = v.attempt + 1 := by rw [h.attempt]
      have hpause : now + d + delay = now + delay + d := Nat.add_right_comm now d delay
      refine .moved ⟨h.request, h.policy, h.deadline, h.started, hattempt, ?_⟩
      simp only [hpause]
      exact .pausing (now + delay)
    · next hd' => cases hd'.symm.trans (hnext.trans hd)
  · next hd =>
    split
    · next hd' => cases hd'.symm.trans (hnext.trans hd)
    · next hd' => cases hd'.symm.trans (hnext.trans hd)
    · simp only [h.failed, (LookupError.trouble_eq_iff.mp he).2]
      exact .finished _

theorem afterLookup (h : v.Twin strict d v') {a a' : Option LookupAnswer}
    (ha : Option.Rel LookupsAlike a a') (now draw : Nat) :
    (v.afterLookup now draw a).2.Twin strict d (v'.afterLookup (now + d) draw a').2 := by
  unfold Validation.afterLookup
  cases ha with
  | none =>
    simp only [Option.map_none, h.failed]
    exact .finished _
  | some ha =>
    have hstock := ha.available v.request.product
    simp only [Option.map_some, stock, h.request]
    rcases hstock with ⟨n, hn, hn'⟩ | ⟨e, e', he, he', htrouble⟩
    · simp only [hn, hn', h.started, h.attempt, Nat.add_sub_add_right]
      exact .finished _
    · simp only [he, he']
      exact h.afterError htrouble now draw

theorem step (h : v.Twin strict d v')
    (hask : (k.ask v.request.product).2.Twin LookupsAlike (k'.ask v.request.product).2)
    (now : Nat) (draws : Nat → Nat) :
    (v.step now draws k).2.2.Twin strict d (v'.step (now + d) draws k').2.2 := by
  have hstage := h.stage
  unfold Validation.step
  rw [h.wake]
  by_cases hwait : now < v.wake
  · rw [if_pos hwait, if_pos (Nat.add_lt_add_right hwait d)]
    exact .waiting
  · rw [if_neg hwait, if_neg fun hlt => hwait (Nat.lt_of_add_lt_add_right hlt)]
    generalize hs : v.stage = stage at hstage
    generalize hs' : v'.stage = stage' at hstage
    cases hstage with
    | asked hw =>
      simp only [h.attempt]
      exact h.afterLookup hw.answer? now (draws v.attempt)
    | pausing t =>
      have hreply : (k.ask v.request.product).2.Twin LookupsAlike
          (k'.ask v'.request.product).2 := by
        rw [h.request]
        exact hask
      exact .moved (h.start hreply)

theorem catalog (h : v.Twin strict d v') {K : Catalog → Catalog → Prop} (hk : K k k')
    (hask : K (k.ask v.request.product).1 (k'.ask v.request.product).1) (now : Nat)
    (draws : Nat → Nat) : K (v.step now draws k).1 (v'.step (now + d) draws k').1 := by
  have hstage := h.stage
  unfold Validation.step
  rw [h.wake]
  by_cases hwait : now < v.wake
  · rw [if_pos hwait, if_pos (Nat.add_lt_add_right hwait d)]
    exact hk
  · rw [if_neg hwait, if_neg fun hlt => hwait (Nat.lt_of_add_lt_add_right hlt), h.request]
    generalize v.stage = stage at hstage
    generalize v'.stage = stage' at hstage
    cases hstage with
    | asked => exact hk
    | pausing => exact hask

end Twin

theorem twin_refl (strict : Prop) (v : Validation) : v.Twin strict 0 v where
  request := rfl
  policy := .refl strict v.policy
  deadline := rfl
  started := rfl
  attempt := rfl
  stage := by
    cases v.stage with
    | asked w => exact .asked (w.twin_refl .refl)
    | pausing t => exact .pausing t

theorem run_of_moved (h : (v.step (max now v.wake) draws k).2.2 = .moved v₁) :
    (v.run now draws k log).finding =
      (v₁.run (max now v.wake) draws (v.step (max now v.wake) draws k).1
        (log ++ (v.step (max now v.wake) draws k).2.1)).finding := by
  rw [run]
  split <;> simp_all

theorem run_of_finished (h : (v.step (max now v.wake) draws k).2.2 = .finished f) :
    (v.run now draws k log).finding = .ok f := by
  rw [run]
  split <;> simp_all

theorem run_of_overflown (h : (v.step (max now v.wake) draws k).2.2 = .overflown) :
    (v.run now draws k log).finding = .error .delayTooLong := by
  rw [run]
  split <;> simp_all

theorem twin_start {p q : Policy} (hp : p.Akin strict q) {r : Request}
    (hask : (k.ask r.product).2.Twin LookupsAlike (k'.ask r.product).2) :
    (Validation.start now k r (.after now p.timeout) p).2.Twin strict d
      (Validation.start (now + d) k' r (.after (now + d) q.timeout) q).2 := by
  have hlimit : now + d + q.timeout = now + p.timeout + d := by
    rw [hp.timeout, Nat.add_right_comm]
  have hstart := hask.start (d := d) now (now + p.timeout)
  rw [← hlimit] at hstart
  exact ⟨rfl, hp, hlimit, rfl, rfl, .asked hstart⟩

/-- What a validation finds out does not depend on when it runs. -/
theorem Twin.finding (h : v.Twin strict d v')
    (hk : ∀ m n q, (k.answer m q).Twin LookupsAlike (k'.answer n q))
    (hnow : max now' v'.wake = max now v.wake + d) :
    (v'.run now' draws k' log').finding = (v.run now draws k log).finding := by
  have hask (k k' : Catalog) (hk : ∀ m n q, (k.answer m q).Twin LookupsAlike (k'.answer n q))
      (q : String) : (k.ask q).2.Twin LookupsAlike (k'.ask q).2 := hk _ _ q
  fun_induction run v now draws k log generalizing v' now' k' log'
  case case1 v now k log time k₁ events v₁ hs hlt ih =>
    have hstep := h.step (hask k k' hk v.request.product) time draws
    have hnext := h.catalog (K := fun k k' => ∀ m n q, (k.answer m q).Twin LookupsAlike
      (k'.answer n q)) hk hk time draws
    rw [hs] at hstep hnext
    rw [← hnow] at hstep hnext
    generalize ha : (v'.step (max now' v'.wake) draws k').2.2 = a at hstep
    cases hstep with
    | moved hv =>
      rw [run_of_moved ha]
      apply ih hv hnext
      have hwake := hv.wake
      omega
  case case2 v now k log time k₁ events f hs =>
    have hstep := h.step (hask k k' hk v.request.product) time draws
    rw [hs, ← hnow] at hstep
    generalize ha : (v'.step (max now' v'.wake) draws k').2.2 = a at hstep
    cases hstep with
    | finished => exact run_of_finished ha
  case case3 v now k log time k₁ events hs =>
    have hstep := h.step (hask k k' hk v.request.product) time draws
    rw [hs, ← hnow] at hstep
    generalize ha : (v'.step (max now' v'.wake) draws k').2.2 = a at hstep
    cases hstep with
    | overflown => exact run_of_overflown ha

end Validation

end StockGate
