import Mathlib.Algebra.Group.Nat.Defs
import StockGate.Retry.Plan

namespace StockGate

/-- As far as a clock reaches that counts its seconds in 63 bits, in milliseconds. -/
def clockReach : Nat :=
  2 ^ 63 * 1000

namespace Backoff

variable {attempt base cap draw n : Nat}

theorem factor_succ (n : Nat) : factor (n + 1) = min (2 ^ n) (2 ^ 32 - 1) :=
  factor_eq (Nat.succ_pos n)

theorem factor_succ_le (attempt : Nat) : factor (attempt + 1) ≤ 2 * factor attempt := by
  cases attempt with
  | zero => decide
  | succ n =>
    rw [factor_succ, factor_succ, Nat.pow_succ]
    omega

theorem jitter_le (delay draw : Nat) : 10 * (jitter delay draw * nanosPerMilli) ≤ delay := by
  have hrange : jitterRange delay ≤ delay / nanosPerMilli / 10 := Nat.mod_le _ _
  have hjitter : jitter delay draw ≤ delay / nanosPerMilli / 10 :=
    Nat.le_trans (Nat.min_le_right _ _) (Nat.le_trans (Nat.sub_le _ _) hrange)
  unfold nanosPerMilli at *
  omega

theorem jitter_zero (draw : Nat) : jitter 0 draw = 0 :=
  Nat.min_zero draw

/-- Short of the longest duration nothing is cut off but what the cap leaves out. -/
theorem delay_eq (hpos : 0 < attempt)
    (hlong : base * factor attempt + jitter (base * factor attempt) draw * nanosPerMilli ≤
      longest) :
    delay attempt base cap draw =
      .ok (min (base * factor attempt + jitter (base * factor attempt) draw * nanosPerMilli)
        cap) := by
  unfold delay
  split
  · next hzero =>
    obtain rfl : base = 0 := hzero.resolve_left (Nat.ne_of_gt hpos)
    rw [Nat.zero_mul, jitter_zero, Nat.zero_mul, Nat.zero_min]
  · have hstep : step attempt base = base * factor attempt :=
      Nat.min_eq_left (Nat.le_trans (Nat.le_add_right _ _) hlong)
    simp only [hstep]
    exact if_neg (Nat.not_lt_of_le hlong)

/-- The factors of the first `n` attempts together. -/
def total : Nat → Nat
  | 0 => 0
  | n + 1 => total n + factor (n + 1)

theorem total_succ_of_le (h : n ≤ 32) : total n + 1 = 2 ^ n := by
  induction n with
  | zero => rfl
  | succ n ih =>
    have hpow : 2 ^ n ≤ 2 ^ 31 := Nat.pow_le_pow_right Nat.two_pos (by omega)
    have hsum := ih (Nat.le_of_succ_le h)
    rw [total, factor_succ, Nat.pow_succ]
    omega

theorem total_add (m : Nat) : total (32 + m) = (2 ^ 32 - 1) * (m + 1) := by
  induction m with
  | zero =>
    have hsum := total_succ_of_le (Nat.le_refl 32)
    rw [Nat.add_zero]
    omega
  | succ m ih =>
    have hpow : 2 ^ 32 ≤ 2 ^ (32 + m) := Nat.pow_le_pow_right Nat.two_pos (Nat.le_add_right _ _)
    have hfactor : factor (32 + m + 1) = 2 ^ 32 - 1 := by
      rw [factor_succ]
      omega
    rw [← Nat.add_assoc, total, ih, hfactor, Nat.mul_succ (2 ^ 32 - 1) (m + 1)]

theorem two_pow_le_total (n : Nat) : 2 ^ min n 32 ≤ total n + 1 := by
  rcases Nat.le_total n 32 with h | h
  · rw [Nat.min_eq_left h]
    exact Nat.le_of_eq (total_succ_of_le h).symm
  · obtain ⟨m, rfl⟩ := Nat.exists_eq_add_of_le h
    rw [Nat.min_eq_right h, total_add]
    omega

theorem factor_succ_le_two_pow (n : Nat) : factor (n + 1) ≤ 2 ^ min n 32 := by
  rw [factor_succ]
  rcases Nat.le_total n 32 with h | h
  · rw [Nat.min_eq_left h]
    exact Nat.min_le_left _ _
  · rw [Nat.min_eq_right h]
    omega

end Backoff

namespace RetryPlan

variable {plan : RetryPlan} {attempts remaining draw d : Nat} {error : LookupError}

/-- The delay before a retry, in milliseconds and without jitter. -/
def cost (plan : RetryPlan) (attempts : Nat) : Nat :=
  plan.baseDelay * Backoff.factor attempts

/-- The delay before a retry, in milliseconds. -/
def pause (plan : RetryPlan) (attempts draw : Nat) : Nat :=
  plan.cost attempts + Backoff.jitter (plan.cost attempts * Backoff.nanosPerMilli) draw

/-- The delays before the first `n` retries together, without jitter. -/
def spent (plan : RetryPlan) (n : Nat) : Nat :=
  plan.baseDelay * Backoff.total n

theorem baseDelay_lt (p : Policy) : (ofPolicy p).baseDelay < UInt64.size :=
  p.retryBackoffMs.toNat_lt_size

theorem cost_one_lt (p : Policy) : (ofPolicy p).cost 1 < UInt64.size := by
  rw [cost, show Backoff.factor 1 = 1 from rfl, Nat.mul_one]
  exact baseDelay_lt p

theorem cost_succ_le (plan : RetryPlan) (attempts : Nat) :
    plan.cost (attempts + 1) ≤ 2 * plan.cost attempts := by
  have h := Nat.mul_le_mul_left plan.baseDelay (Backoff.factor_succ_le attempts)
  rwa [Nat.mul_left_comm] at h

theorem cost_le_pause (plan : RetryPlan) (attempts draw : Nat) :
    plan.cost attempts ≤ plan.pause attempts draw :=
  Nat.le_add_right _ _

theorem spent_succ (plan : RetryPlan) (n : Nat) :
    plan.spent (n + 1) = plan.spent n + plan.cost (n + 1) :=
  Nat.mul_add _ _ _

theorem two_pow_le_spent (plan : RetryPlan) (n : Nat) :
    plan.baseDelay * 2 ^ min n 32 ≤ plan.spent n + plan.baseDelay :=
  Nat.mul_le_mul_left plan.baseDelay (Backoff.two_pow_le_total n)

theorem cost_succ_le_two_pow (plan : RetryPlan) (n : Nat) :
    plan.cost (n + 1) ≤ plan.baseDelay * 2 ^ min n 32 :=
  Nat.mul_le_mul_left plan.baseDelay (Backoff.factor_succ_le_two_pow n)

/-- The longest duration has room for a delay that the clock reaches and for its jitter. -/
theorem pause_le_longest (h : plan.cost attempts ≤ clockReach + UInt64.size) (draw : Nat) :
    plan.pause attempts draw * Backoff.nanosPerMilli ≤ Backoff.longest := by
  have hsum : plan.pause attempts draw * Backoff.nanosPerMilli =
      plan.cost attempts * Backoff.nanosPerMilli +
        Backoff.jitter (plan.cost attempts * Backoff.nanosPerMilli) draw *
          Backoff.nanosPerMilli := Nat.add_mul _ _ _
  have hjitter := Backoff.jitter_le (plan.cost attempts * Backoff.nanosPerMilli) draw
  have htenth : 10 * (plan.pause attempts draw * Backoff.nanosPerMilli) ≤
      11 * (plan.cost attempts * Backoff.nanosPerMilli) := by omega
  have hcost := Nat.mul_le_mul_left 11 (Nat.mul_le_mul_right Backoff.nanosPerMilli h)
  have hroom : 11 * ((clockReach + UInt64.size) * Backoff.nanosPerMilli) ≤
      10 * Backoff.longest := by decide
  exact Nat.le_of_mul_le_mul_left (Nat.le_trans htenth (Nat.le_trans hcost hroom)) (by decide)

theorem delay_eq (hpos : 0 < attempts) (h : plan.cost attempts ≤ clockReach + UInt64.size)
    (remaining draw : Nat) :
    plan.delay attempts remaining draw = .ok (min (plan.pause attempts draw) remaining) := by
  have hnanos : plan.baseDelay * Backoff.nanosPerMilli * Backoff.factor attempts =
      plan.cost attempts * Backoff.nanosPerMilli := Nat.mul_right_comm _ _ _
  have hlong := pause_le_longest h draw
  rw [pause, Nat.add_mul] at hlong
  rw [delay, Backoff.delay_eq hpos (by rwa [hnanos]), hnanos, ← Nat.add_mul, ← pause,
    Nat.mul_min_mul_right]
  exact congrArg Except.ok (Nat.mul_div_cancel _ (by decide))

/-- A retry is made after an error that another attempt may mend, as long as there are retries
left, and where its delay is shorter than the time that remains. -/
theorem next_eq (hpos : 0 < attempts) (h : plan.cost attempts ≤ clockReach + UInt64.size)
    (error : LookupError) (remaining draw : Nat) :
    plan.next attempts error remaining draw =
      .ok (if error.isTransient = true ∧ attempts ≤ plan.maxRetries.toNat ∧
          plan.pause attempts draw < remaining then some (plan.pause attempts draw) else none) := by
  unfold next
  rw [delay_eq hpos h]
  simp only [Except.map]
  split
  · next hstop => rw [if_neg (by grind)]
  · next hgo =>
    split
    · next hle => rw [if_neg (by omega)]
    · next hlt => rw [if_pos (by grind), Nat.min_eq_left (by omega)]

theorem next_eq_some (hpos : 0 < attempts) (h : plan.cost attempts ≤ clockReach + UInt64.size)
    (hd : plan.next attempts error remaining draw = .ok (some d)) :
    d = plan.pause attempts draw ∧ d < remaining := by
  rw [next_eq hpos h] at hd
  grind

end RetryPlan

end StockGate
