import StockGate.Proofs.Retry
import StockGate.Proofs.Validation

namespace StockGate

/-- All that a validation depends on: what it is about, when it starts and by when it must be over,
the catalog, and the jitter drawn after each attempt. -/
structure Trial where
  request : Request
  policy : Policy
  start : Nat
  deadline : Deadline
  catalog : Catalog
  jitter : Nat → Nat

/-- The catalog once it has been asked, and the validation that has asked it. -/
def Trial.opening (T : Trial) : Catalog × Validation :=
  Validation.start T.start T.catalog T.request T.deadline T.policy

def Trial.run (T : Trial) : Validation.Ended :=
  T.opening.2.run T.start T.jitter T.opening.1 []

/-- Somebody wants to buy a lamp. -/
def oneLamp : Request where
  product := "lamp"
  quantity := 1
  caller := { correlationId := ⟨0⟩ }
  product_not_blank := lamp_not_blank
  quantity_ne_zero := one_lamp_ne_zero

namespace Validation

variable {v v' : Validation} {now D : Nat} {draws : Nat → Nat} {catalog catalog' : Catalog}
  {log : List Event} {f : Finding} {T : Trial}

/-- What holds of a validation and outlives every step, on a clock that stops at each wake, tells
what its run comes to. -/
theorem run_induct {P : Validation → Catalog → Prop} {Q : Ended → Prop}
    (moved : ∀ {v v' catalog catalog'}, P v catalog →
      v.Stride v.wake draws catalog catalog' (.moved v') → P v' catalog')
    (finished : ∀ {v catalog catalog' f log}, P v catalog →
      v.Stride v.wake draws catalog catalog' (.finished f) → Q ⟨catalog', log, v.wake, .ok f⟩)
    (overflown : ∀ {v catalog catalog' log}, P v catalog →
      v.Stride v.wake draws catalog catalog' .overflown →
        Q ⟨catalog', log, v.wake, .error .delayTooLong⟩)
    (h : P v catalog) (hnow : now ≤ v.wake) : Q (v.run now draws catalog log) := by
  fun_induction run v now draws catalog log
  case case1 v now catalog log time catalog' events v' hs hlt ih =>
    have hst := v.stride time draws catalog
    have htime : time = v.wake := Nat.max_eq_right hnow
    rw [hs] at hst
    exact ih (moved h (htime ▸ hst)) hst.le_wake
  case case2 v now catalog log time catalog' events f hs =>
    have hst := v.stride time draws catalog
    have htime : time = v.wake := Nat.max_eq_right hnow
    rw [hs, htime] at hst
    rw [htime]
    exact finished h hst
  case case3 v now catalog log time catalog' events hs =>
    have hst := v.stride time draws catalog
    have htime : time = v.wake := Nat.max_eq_right hnow
    rw [hs, htime] at hst
    rw [htime]
    exact overflown h hst

def plan (v : Validation) : RetryPlan :=
  .ofPolicy v.policy

/-- The delays so far fit in the time since the start, and if there were any they have left some of
the time before the deadline. -/
structure Frugal (v : Validation) : Prop where
  counted : 0 < v.attempt
  spent_le : v.started + v.plan.spent (v.attempt - 1) ≤ v.wake
  spent_lt : 1 < v.attempt → v.started + v.plan.spent (v.attempt - 1) < v.deadline.time

theorem frugal_start (now : Nat) (catalog : Catalog) (r : Request) (d : Deadline) (p : Policy) :
    (start now catalog r d p).2.Frugal where
  counted := Nat.one_pos
  spent_le := Awaited.le_ends_start _ _ _
  spent_lt := fun h => absurd h (Nat.lt_irrefl 1)

namespace Frugal

theorem two_pow_le (h : v.Frugal) (hD : v.deadline.time ≤ v.started + D) :
    v.plan.baseDelay * 2 ^ min (v.attempt - 1) 32 ≤ D + v.plan.baseDelay := by
  rcases Nat.eq_or_lt_of_le h.counted with hone | hmore
  · rw [← hone, Nat.sub_self, Nat.zero_min, Nat.pow_zero, Nat.mul_one]
    exact Nat.le_add_left _ _
  · have hspent := h.spent_lt hmore
    have hpow := v.plan.two_pow_le_spent (v.attempt - 1)
    omega

theorem within_reach (h : v.Frugal) (hreach : v.deadline.time ≤ v.started + clockReach) :
    v.plan.cost v.attempt ≤ clockReach + UInt64.size := by
  obtain ⟨n, hn⟩ := Nat.exists_eq_add_one_of_ne_zero (Nat.ne_of_gt h.counted)
  have hcost := v.plan.cost_succ_le_two_pow n
  have hpow := h.two_pow_le hreach
  have hbase := RetryPlan.baseDelay_lt v.policy
  rw [hn, Nat.add_sub_cancel] at hpow
  rw [hn]
  exact Nat.le_trans hcost (Nat.le_trans hpow (Nat.add_le_add_left (Nat.le_of_lt hbase) _))

theorem next_eq (h : v.Frugal) (hreach : v.deadline.time ≤ v.started + clockReach)
    (e : LookupError) :
    v.next now draws e =
      .ok (if e.isTransient = true ∧ v.attempt ≤ v.policy.maxRetries.toNat ∧
          v.plan.pause v.attempt (draws v.attempt) < v.deadline.remaining now
        then some (v.plan.pause v.attempt (draws v.attempt)) else none) :=
  RetryPlan.next_eq h.counted (h.within_reach hreach) e _ _

theorem paid (h : v.Frugal) (hnow : v.wake ≤ now) (draw : Nat) :
    v.started + v.plan.spent v.attempt ≤ now + v.plan.pause v.attempt draw := by
  -- A pause begins no earlier than the wake and is no shorter than its cost.
  obtain ⟨n, hn⟩ := Nat.exists_eq_add_one_of_ne_zero (Nat.ne_of_gt h.counted)
  have hspent := h.spent_le
  have hsucc := v.plan.spent_succ n
  have hcost := v.plan.cost_le_pause v.attempt draw
  rw [hn, Nat.add_sub_cancel] at hspent
  rw [← hn] at hsucc
  omega

theorem moved (h : v.Frugal) (hreach : v.deadline.time ≤ v.started + clockReach)
    (hst : v.Stride now draws catalog catalog' (.moved v')) : v'.Frugal := by
  cases hst with
  | pause hs hnow ha he hd =>
    obtain ⟨rfl, hlt⟩ := RetryPlan.next_eq_some h.counted (h.within_reach hreach) hd
    have hdue : v.wake ≤ now := by rwa [wake, hs]
    have hpaid := h.paid hdue (draws v.attempt)
    have hbefore : now + v.plan.pause v.attempt (draws v.attempt) < v.deadline.time :=
      Nat.add_lt_of_lt_sub' hlt
    exact ⟨Nat.succ_pos _, hpaid, fun _ => Nat.lt_of_le_of_lt hpaid hbefore⟩
  | ask hs hnow =>
    have hspent := h.spent_le
    rw [wake, hs] at hspent
    exact ⟨h.counted, Nat.le_trans hspent (Nat.le_trans hnow (Awaited.le_ends_start _ _ _)),
      h.spent_lt⟩

theorem not_overflown (h : v.Frugal) (hreach : v.deadline.time ≤ v.started + clockReach) :
    ¬ v.Stride now draws catalog catalog' .overflown := by
  intro hst
  cases hst with
  | overflow hs hnow ha he hd =>
    rw [h.next_eq hreach] at hd
    cases hd

end Frugal

theorem Stride.attempts (hst : v.Stride now draws catalog catalog' (.finished f)) (r : Request) :
    (Outcome.of r f).attempts = v.attempt ∧ (Outcome.of r f).performed = true := by
  cases hst <;> exact ⟨rfl, rfl⟩

def lookups (v : Validation) : Nat :=
  match v.stage with
  | .asked _ => v.attempt
  | .pausing _ => v.attempt - 1

theorem lookups_of_asked {w : Awaited LookupAnswer} (hs : v.stage = .asked w) :
    v.lookups = v.attempt := by
  rw [lookups, hs]

theorem lookups_of_pausing {t : Nat} (hs : v.stage = .pausing t) :
    v.lookups = v.attempt - 1 := by
  rw [lookups, hs]

/-- The validation is one of this trial, and its pauses are paid for. -/
structure Affords (T : Trial) (v : Validation) : Prop where
  request : v.request = T.request
  policy : v.policy = T.policy
  deadline : v.deadline = T.deadline
  started : v.started = T.start
  frugal : v.Frugal

/-- The validation is under way in this trial, and the catalog was asked as often as it counts. -/
structure Underway (T : Trial) (v : Validation) (catalog : Catalog) : Prop extends
    v.Affords T where
  answer : catalog.answer = T.catalog.answer
  asked : catalog.asked = T.catalog.asked ++ List.replicate v.lookups T.request.product

theorem affords_start (T : Trial) : T.opening.2.Affords T where
  request := rfl
  policy := rfl
  deadline := rfl
  started := rfl
  frugal := frugal_start _ _ _ _ _

theorem underway_start (T : Trial) : T.opening.2.Underway T T.opening.1 where
  toAffords := affords_start T
  answer := rfl
  asked := rfl

namespace Affords

theorem within_reach (h : v.Affords T) (hreach : T.deadline.time ≤ T.start + clockReach) :
    v.deadline.time ≤ v.started + clockReach := by
  rwa [h.deadline, h.started]

theorem moved (h : v.Affords T) (hreach : T.deadline.time ≤ T.start + clockReach)
    (hst : v.Stride now draws catalog catalog' (.moved v')) : v'.Affords T := by
  have hfrugal := h.frugal.moved (h.within_reach hreach) hst
  cases hst with
  | pause | ask => exact ⟨h.request, h.policy, h.deadline, h.started, hfrugal⟩

end Affords

namespace Underway

theorem moved (h : v.Underway T catalog) (hreach : T.deadline.time ≤ T.start + clockReach)
    (hst : v.Stride now draws catalog catalog' (.moved v')) : v'.Underway T catalog' := by
  have hafford := h.toAffords.moved hreach hst
  have hasked := h.asked
  cases hst with
  | pause hs =>
    rw [lookups_of_asked hs] at hasked
    exact ⟨hafford, h.answer, hasked⟩
  | ask hs =>
    refine ⟨hafford, h.answer, ?_⟩
    have hcount : v.attempt - 1 + 1 = v.attempt := Nat.sub_add_cancel h.frugal.counted
    change catalog.asked ++ [v.request.product] =
      T.catalog.asked ++ List.replicate v.attempt T.request.product
    rw [hasked, lookups_of_pausing hs, h.request, List.append_assoc, ← List.replicate_succ', hcount]

theorem finished (h : v.Underway T catalog)
    (hst : v.Stride now draws catalog catalog' (.finished f)) :
    catalog'.asked = T.catalog.asked ++ List.replicate v.attempt T.request.product := by
  have hasked := h.asked
  cases hst with
  | timeOut hs | check hs | fail hs => rwa [lookups_of_asked hs] at hasked

end Underway

end Validation

namespace Trial

variable {T : Trial}

/-- A validation returns, and it reports its lookups as they were. There were no more than the
policy allows, and the pauses between them have left some time. -/
theorem counted (hreach : T.deadline.time ≤ T.start + clockReach) :
    ∃ n f, T.run.finding = .ok f ∧ (Outcome.of T.request f).attempts = n ∧
      T.run.catalog.asked = T.catalog.asked ++ List.replicate n T.request.product ∧
      0 < n ∧ n ≤ T.policy.maxRetries.toNat + 1 ∧
      (1 < n → T.start + (RetryPlan.ofPolicy T.policy).spent (n - 1) < T.deadline.time) := by
  refine Validation.run_induct (P := fun v catalog => v.Underway T catalog)
    (Q := fun e => ∃ n f, e.finding = .ok f ∧ (Outcome.of T.request f).attempts = n ∧
      e.catalog.asked = T.catalog.asked ++ List.replicate n T.request.product ∧
      0 < n ∧ n ≤ T.policy.maxRetries.toNat + 1 ∧
      (1 < n → T.start + (RetryPlan.ofPolicy T.policy).spent (n - 1) < T.deadline.time))
    (fun h hst => h.moved hreach hst) ?_ ?_ (Validation.underway_start T)
    (Awaited.le_ends_start _ _ _)
  · intro v catalog catalog' f log h hst
    have hle := v.attempt_le
    have hlt := h.frugal.spent_lt
    rw [h.policy] at hle
    rw [Validation.plan, h.policy, h.started, h.deadline] at hlt
    exact ⟨v.attempt, f, rfl, (hst.attempts T.request).1, h.finished hst, h.frugal.counted, hle,
      hlt⟩
  · intro v catalog catalog' log h hst
    exact absurd hst (h.frugal.not_overflown (h.within_reach hreach))

end Trial

end StockGate
