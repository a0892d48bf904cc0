import StockGate.Proofs.Validation.Course
import StockGate.Settings.Check

namespace StockGate

namespace RetryPlan

variable {plan : RetryPlan} {attempts remaining : Nat} {error : LookupError}

theorem spent_last (plan : RetryPlan) :
    plan.spent (UInt32.size - 1) = plan.baseDelay * ((2 ^ 32 - 1) * (2 ^ 32 - 32)) :=
  congrArg (plan.baseDelay * ·) (Backoff.total_add (2 ^ 32 - 33))

theorem next_eq_zero (hbase : plan.baseDelay = 0) (he : error.isTransient = true)
    (hle : attempts ≤ plan.maxRetries.toNat) (hremaining : 0 < remaining) (draw : Nat) :
    plan.next attempts error remaining draw = .ok (some 0) := by
  have hdelay : plan.delay attempts remaining draw = .ok 0 := by
    rw [delay, hbase, Nat.zero_mul, Backoff.delay, if_pos (.inr rfl)]
    rfl
  have hgo : ¬ ((!error.isTransient) = true ∨ plan.maxRetries.toNat < attempts) := by
    simp [he, hle]
  rw [next, if_neg hgo, hdelay, Except.map, if_neg (Nat.not_le_of_lt hremaining)]

end RetryPlan

/-- So much time is too short for more lookups than 32 bits can count: the policy does not allow as
many, or the delays between them take all of it. -/
def Policy.KeepsCount (p : Policy) (time : Nat) : Prop :=
  p.maxRetries.toNat + 1 < UInt32.size ∨
    time ≤ p.retryBackoffMs.toNat * ((2 ^ 32 - 1) * (2 ^ 32 - 32))

instance (p : Policy) (time : Nat) : Decidable (p.KeepsCount time) :=
  inferInstanceAs (Decidable (_ ∨ _))

theorem Policy.outruns_of_not_keepsCount {p : Policy} {time : Nat} (hp : ¬ p.KeepsCount time) :
    p.maxRetries.toNat + 1 = UInt32.size ∧
      (RetryPlan.ofPolicy p).spent p.maxRetries.toNat < time := by
  have hretries := p.maxRetries.toNat_lt_size
  have hmany : p.maxRetries.toNat + 1 = UInt32.size := by
    have hnot : ¬ p.maxRetries.toNat + 1 < UInt32.size := fun h => hp (.inl h)
    omega
  refine ⟨hmany, ?_⟩
  rw [Nat.eq_sub_of_add_eq hmany, RetryPlan.spent_last]
  exact Nat.lt_of_not_le fun hle => hp (.inr hle)

theorem Policy.KeepsCount.lt {p : Policy} {time n : Nat} (hp : p.KeepsCount time)
    (hn : n ≤ p.maxRetries.toNat + 1)
    (hspent : 1 < n → (RetryPlan.ofPolicy p).spent (n - 1) < time) : n < UInt32.size := by
  apply Nat.lt_of_not_le
  intro hle
  have hretries := p.maxRetries.toNat_lt_size
  obtain rfl : n = UInt32.size := by omega
  have hlt := hspent (by decide)
  rw [RetryPlan.spent_last] at hlt
  rcases hp with hfew | hlong
  · omega
  · exact absurd hlt (Nat.not_lt_of_le hlong)

namespace Trial

/-- A trial in which every lookup fails at once and in passing, and no jitter is drawn. -/
def hopeless (r : Request) (p : Policy) (time : Nat) : Trial where
  request := r
  policy := p
  start := 0
  deadline := .after 0 time
  catalog := { answer := fun _ _ => .after 0 (.error (.unavailable 503)) }
  jitter := fun _ => 0

variable {T : Trial} {r : Request} {p : Policy} {time n : Nat}

theorem admissible_hopeless (r : Request) (p : Policy) (time : Nat) :
    (hopeless r p time).Admissible :=
  fun _ => Nat.lt_of_lt_of_le Nat.one_pos (Nat.le_max_left 1 _)

theorem backoff_hopeless (n : Nat) :
    (hopeless r p time).backoff (n + 1) = (RetryPlan.ofPolicy p).cost (n + 1) :=
  (doubled_eq (T := hopeless r p time) (Nat.succ_pos n)).symm

theorem begins_hopeless (hn : n ≤ p.maxRetries.toNat)
    (hfits : (RetryPlan.ofPolicy p).spent n < time) :
    (hopeless r p time).Begins (n + 1) ((RetryPlan.ofPolicy p).spent n) := by
  -- Nothing but the delays takes time.
  induction n with
  | zero => exact .first
  | succ n ih =>
    have hspent := (RetryPlan.ofPolicy p).spent_succ n
    have hb := ih (Nat.le_of_succ_le hn) (by omega)
    have htime : (hopeless r p time).deadline.time = time := Nat.zero_add time
    have hanswered : (hopeless r p time).Answered (n + 1) ((RetryPlan.ofPolicy p).spent n)
        ((RetryPlan.ofPolicy p).spent n) (.error (.unavailable 503)) :=
      ⟨0, rfl, rfl, by omega⟩
    have hretries : (hopeless r p time).Retries (n + 1) ((RetryPlan.ofPolicy p).spent n)
        (.unavailable 503) :=
      ⟨.unavailable 503, hn, by rw [backoff_hopeless, htime]; omega⟩
    have hnext := hb.retry hanswered hretries
    rwa [backoff_hopeless, ← hspent] at hnext

theorem attempts_hopeless (hreach : time ≤ clockReach)
    (hfits : (RetryPlan.ofPolicy p).spent p.maxRetries.toNat < time) :
    ∃ f, (hopeless r p time).run.finding = .ok f ∧
      (Outcome.of r f).attempts = p.maxRetries.toNat + 1 := by
  have hreach : (hopeless r p time).deadline.time ≤ (hopeless r p time).start + clockReach :=
    Nat.add_le_add_left hreach 0
  obtain ⟨f, hf, k, t, hb, hh⟩ := ends_run (Nat.zero_le _) hreach (admissible_hopeless r p time)
  obtain ⟨n, f', hf', hn, -, -, hle, -⟩ := counted hreach
  obtain rfl := Except.ok.inj (hf.symm.trans hf')
  obtain ⟨hattempts, -⟩ := hh.reports
  have hge := (begins_hopeless (r := r) (Nat.le_refl _) hfits).le_of_halts hb hh
  have hlast : n = p.maxRetries.toNat + 1 := by
    apply Nat.le_antisymm hle
    rwa [← hn, hattempts]
  exact ⟨f, hf, hn.trans hlast⟩

/-- All validations under a policy that have so much time report their lookups as they were, no
more than one and the retries, and count them in 32 bits, just if the policy keeps count. -/
theorem counted_iff (p : Policy) (time : Nat) (hreach : time ≤ clockReach) :
    (∀ T : Trial, T.policy = p → T.deadline = .after T.start time →
      ∃ n f, T.run.finding = .ok f ∧ (Outcome.of T.request f).attempts = n ∧
        T.run.catalog.asked = T.catalog.asked ++ List.replicate n T.request.product ∧
        n ≤ p.maxRetries.toNat + 1 ∧ n < UInt32.size) ↔
      p.KeepsCount time := by
  constructor
  · intro hall
    apply Decidable.byContradiction
    intro hp
    obtain ⟨hmany, hfits⟩ := Policy.outruns_of_not_keepsCount hp
    obtain ⟨f, hf, hattempts⟩ := attempts_hopeless (r := oneLamp) hreach hfits
    obtain ⟨n, f', hf', hn, -, -, hlt⟩ := hall (hopeless oneLamp p time) rfl rfl
    obtain rfl := Except.ok.inj (hf.symm.trans hf')
    exact absurd (hn.symm.trans (hattempts.trans hmany)) (Nat.ne_of_lt hlt)
  · rintro hp T rfl hd
    have hlimit : T.deadline.time ≤ T.start + clockReach := by
      rw [hd]
      exact Nat.add_le_add_left hreach _
    obtain ⟨n, f, hf, hn, hasked, -, hle, hspent⟩ := counted hlimit
    refine ⟨n, f, hf, hn, hasked, hle, hp.lt hle fun hmore => ?_⟩
    have hlt := hspent hmore
    rw [hd] at hlt
    exact Nat.lt_of_add_lt_add_left hlt

/-- As many retries as 32 bits can count, with this backoff. -/
def relentless (backoff : UInt64) : Policy where
  maxRetries := 4294967295
  retryBackoffMs := backoff

theorem counted_iff_with_backoff :
    (relentless 25).KeepsCount 500 ∧
      ∃ n f, (hopeless oneLamp (relentless 25) 500).run.finding = .ok f ∧
        (Outcome.of oneLamp f).attempts = n ∧
        (hopeless oneLamp (relentless 25) 500).run.catalog.asked = List.replicate n "lamp" ∧
        n < UInt32.size := by
  have hkeeps : (relentless 25).KeepsCount 500 := by decide
  have hreach : 500 ≤ clockReach := by decide
  obtain ⟨n, f, hf, hn, hasked, -, hlt⟩ :=
    (counted_iff (relentless 25) 500 hreach).mpr hkeeps (hopeless oneLamp (relentless 25) 500)
      rfl rfl
  exact ⟨hkeeps, n, f, hf, hn, hasked, hlt⟩

/-- Without backoff only the number of retries can stop a validation whose lookups fail at once, and
after as many as 32 bits can count it makes another. -/
theorem counter_overflows :
    (relentless 0).errors = [] ∧
      (RetryPlan.ofPolicy (relentless 0)).next 4294967295 (.unavailable 503) 500 0 =
        .ok (some 0) ∧
      ∃ (T : Trial) (f : Finding), T.policy = relentless 0 ∧
        T.deadline = .after T.start (relentless 0).timeout ∧ T.run.finding = .ok f ∧
        (Outcome.of T.request f).attempts = UInt32.size := by
  have hreach : (relentless 0).timeout ≤ clockReach := by decide
  have hfits : (RetryPlan.ofPolicy (relentless 0)).spent (relentless 0).maxRetries.toNat <
      (relentless 0).timeout := by
    rw [RetryPlan.spent, show (RetryPlan.ofPolicy (relentless 0)).baseDelay = 0 from rfl,
      Nat.zero_mul]
    decide
  obtain ⟨f, hf, hattempts⟩ := attempts_hopeless (r := oneLamp) hreach hfits
  have hnext : (RetryPlan.ofPolicy (relentless 0)).next 4294967295 (.unavailable 503) 500 0 =
      .ok (some 0) :=
    RetryPlan.next_eq_zero rfl rfl (Nat.le_refl _) (by decide) 0
  exact ⟨by decide, hnext, hopeless oneLamp (relentless 0) _, f, rfl, rfl, hf, hattempts⟩

end Trial

end StockGate
