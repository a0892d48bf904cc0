import StockGate.Proofs.Validation.Count

namespace StockGate

namespace Backoff

theorem jitter_lt (delay draw : Nat) : jitter delay draw < UInt64.size := by
  have hrange : jitterRange delay < UInt64.size := Nat.mod_lt _ (by decide)
  have hjitter : jitter delay draw ≤ jitterRange delay - 1 := Nat.min_le_right _ _
  omega

end Backoff

/-- The states of a trial's validation, with the time. The validation may go on late, and whatever
others have asked the catalog in between. -/
inductive Trial.Passes (T : Trial) : Validation → Nat → Prop
  | start : Passes T T.opening.2 T.start
  | wait {v : Validation} {now later : Nat} (h : Passes T v now) (hle : now ≤ later) :
      Passes T v later
  | step {v v' : Validation} {now : Nat} {catalog : Catalog} (h : Passes T v now)
      (hs : (v.step now T.jitter catalog).2.2 = .moved v') : Passes T v' now

namespace Validation

/-- In its next step the validation works out a delay, in nanoseconds: after this attempt, from this
base and with so much time remaining. That is when a lookup has failed in a way that another may
mend, and there are retries left. -/
inductive WorksOut (v : Validation) (now : Nat) : (attempt base remaining : Nat) → Prop
  | delay {w : Awaited LookupAnswer} {a : LookupAnswer} {e : LookupError}
      (hs : v.stage = .asked w) (hnow : w.ends ≤ now) (ha : w.answer? = some a)
      (he : v.stock a = .error e) (htransient : e.isTransient = true)
      (hretry : v.attempt ≤ v.policy.maxRetries.toNat) :
      WorksOut v now v.attempt (v.policy.retryBackoffMs.toNat * Backoff.nanosPerMilli)
        (v.deadline.remaining now * Backoff.nanosPerMilli)

end Validation

namespace Trial

variable {T : Trial} {v : Validation} {now : Nat}

theorem Passes.affords (h : T.Passes v now) (hreach : T.deadline.time ≤ T.start + clockReach) :
    v.Affords T := by
  induction h with
  | start => exact Validation.affords_start T
  | wait _ _ ih => exact ih
  | @step v v' now catalog _ hs ih =>
    have hst := v.stride now T.jitter catalog
    rw [hs] at hst
    exact ih.moved hreach hst

/-- The delay that doubles with every attempt, up to the 33rd, has room for its jitter. -/
theorem room_of_affords (h : v.Affords T) (hD : T.deadline.time ≤ T.start + (2 ^ 64 - 1))
    (delay draw : Nat) :
    v.policy.retryBackoffMs.toNat * Backoff.nanosPerMilli * 2 ^ min (v.attempt - 1) 32 +
      Backoff.jitter delay draw * Backoff.nanosPerMilli ≤ Backoff.longest := by
  have hpow : v.policy.retryBackoffMs.toNat * 2 ^ min (v.attempt - 1) 32 ≤
      2 ^ 64 - 1 + v.policy.retryBackoffMs.toNat :=
    h.frugal.two_pow_le (by rwa [h.deadline, h.started])
  have hbase : v.policy.retryBackoffMs.toNat < UInt64.size := v.policy.retryBackoffMs.toNat_lt_size
  have hjitter := Backoff.jitter_lt delay draw
  rw [Nat.mul_right_comm, ← Nat.add_mul]
  have hsum : v.policy.retryBackoffMs.toNat * 2 ^ min (v.attempt - 1) 32 +
      Backoff.jitter delay draw ≤ 3 * UInt64.size := by
    have hsize : UInt64.size = 2 ^ 64 := rfl
    omega
  exact Nat.le_trans (Nat.mul_le_mul_right _ hsum) (by decide)

/-- However the catalog behaves and whatever jitter is drawn, a delay that a validation works out
is no longer than the longest duration, and so no step fails. The base doubles with every attempt
up to the 33rd. On its own a delay can be too long. -/
theorem no_delay_overflows (T : Trial) (hD : T.deadline.time ≤ T.start + (2 ^ 64 - 1)) :
    (∀ v now attempt base remaining, T.Passes v now → v.WorksOut now attempt base remaining →
      base * 2 ^ min (attempt - 1) 32 +
          Backoff.jitter (Backoff.step attempt base) (T.jitter attempt) * Backoff.nanosPerMilli ≤
        Backoff.longest ∧
      ∃ d, Backoff.delay attempt base remaining (T.jitter attempt) = .ok d) ∧
    (∀ v now catalog, T.Passes v now → (v.step now T.jitter catalog).2.2 ≠ .overflown) ∧
    ∃ attempt base remaining draw,
      Backoff.delay attempt base remaining draw = .error .delayTooLong := by
  have hreach : T.deadline.time ≤ T.start + clockReach :=
    Nat.le_trans hD (Nat.add_le_add_left (by decide) _)
  refine ⟨?_, ?_, ?_⟩
  · rintro v now _ _ _ hv ⟨hs, hnow, ha, he, htransient, hretry⟩
    have hafford := hv.affords hreach
    refine ⟨room_of_affords hafford hD _ _, ?_⟩
    have hok : (Backoff.delay v.attempt (v.policy.retryBackoffMs.toNat * Backoff.nanosPerMilli)
        (v.deadline.remaining now * Backoff.nanosPerMilli) (T.jitter v.attempt)).map
          (· / Backoff.nanosPerMilli) = .ok _ :=
      RetryPlan.delay_eq hafford.frugal.counted
        (hafford.frugal.within_reach (hafford.within_reach hreach)) _ _
    cases hd : Backoff.delay v.attempt (v.policy.retryBackoffMs.toNat * Backoff.nanosPerMilli)
        (v.deadline.remaining now * Backoff.nanosPerMilli) (T.jitter v.attempt) with
    | ok d => exact ⟨d, rfl⟩
    | error o =>
      rw [hd] at hok
      cases hok
  · intro v now catalog hv hover
    have hafford := hv.affords hreach
    have hst := v.stride now T.jitter catalog
    rw [hover] at hst
    exact hafford.frugal.not_overflown (hafford.within_reach hreach) hst
  · exact ⟨33, (2 ^ 64 - 1) * Backoff.nanosPerMilli, 0, 1, rfl⟩

/-- All the time that 64 bits can count, half of it before the first retry, and a catalog that is
never available. -/
def drawnOut : Trial where
  request := oneLamp
  policy := { maxRetries := 2, retryBackoffMs := 9223372036854775808 }
  start := 0
  deadline := ⟨2 ^ 64 - 1⟩
  catalog := { answer := fun _ _ => .after 0 (.error (.unavailable 503)) }
  jitter := fun _ => 0

/-- The second delay that is worked out is longer than 64 bits can count in milliseconds. -/
theorem no_delay_overflows_when_drawn_out :
    2 ^ 63 * Backoff.nanosPerMilli * 2 ^ min (2 - 1) 32 + 0 * Backoff.nanosPerMilli ≤
      Backoff.longest ∧
    ∃ v, drawnOut.Passes v (2 ^ 63) ∧
      v.WorksOut (2 ^ 63) 2 (2 ^ 63 * Backoff.nanosPerMilli)
        ((2 ^ 63 - 1) * Backoff.nanosPerMilli) := by
  obtain ⟨hroom, -⟩ := no_delay_overflows drawnOut (Nat.le_add_left _ _)
  have hpaused := @Passes.step drawnOut _ _ _ drawnOut.opening.1 .start rfl
  have hasked := @Passes.step drawnOut _ _ _ drawnOut.opening.1
    (hpaused.wait (Nat.zero_le (2 ^ 63))) rfl
  refine ⟨(hroom _ _ 2 _ ((2 ^ 63 - 1) * Backoff.nanosPerMilli) hasked ?_).1, _, hasked, ?_⟩
  all_goals exact .delay rfl (Nat.le_refl _) rfl rfl rfl (Nat.le_refl 2)

/-- An attempt that begins by the rules is one that the validation comes to. -/
theorem Begins.passes {k t : Nat} (h : T.Begins k t)
    (hreach : T.deadline.time ≤ T.start + clockReach) (hj : T.Admissible) :
    ∃ v, T.Passes v t ∧ v.attempt = k ∧
      v.stage = .asked (.start t (T.reply k) T.deadline.time) := by
  induction h with
  | first => exact ⟨_, .start, rfl, rfl⟩
  | @retry k t time e hb ha hr ih =>
    obtain ⟨v, hv, rfl, hs⟩ := ih
    obtain ⟨delay, hreply, rfl, hle⟩ := ha
    have hafford := hv.affords hreach
    have hnext : v.next (t + delay) T.jitter e = .ok (some (T.backoff v.attempt)) := by
      rw [T.next_eq hafford hreach hj, if_pos ⟨LookupError.passing_iff.mp hr.1, hr.2⟩]
    have hanswer : (Awaited.start t (T.reply v.attempt) T.deadline.time).answer? =
        some (.error e) :=
      Awaited.answer?_start_eq_some_iff.mpr
        ⟨delay, hreply, Nat.le_trans hle (Nat.le_max_right _ _)⟩
    have hends : (Awaited.start t (T.reply v.attempt) T.deadline.time).ends ≤ t + delay := by
      rw [hreply]
      exact Nat.min_le_left _ _
    have hmore : v.attempt + 1 ≤ v.policy.maxRetries.toNat + 1 := by
      rw [hafford.policy]
      exact Nat.succ_le_succ hr.2.1
    have hpause : v.Stride (t + delay) T.jitter T.catalog T.catalog (.moved _) :=
      .pause hs hends hanswer rfl hnext hmore
    obtain ⟨u, hu, hcount, hpausing, hdeadline⟩ : ∃ u, T.Passes u (t + delay) ∧
        u.attempt = v.attempt + 1 ∧ u.stage = .pausing (t + delay + T.backoff v.attempt) ∧
        u.deadline = T.deadline :=
      ⟨_, (hv.wait (Nat.le_add_right t delay)).step hpause.step_eq.2, rfl, rfl, hafford.deadline⟩
    -- All that matters of the catalog that is asked next is its answer.
    let catalog : Catalog := { answer := fun _ _ => T.reply (v.attempt + 1) }
    have hask : u.Stride (t + delay + T.backoff v.attempt) T.jitter catalog _ (.moved _) :=
      .ask hpausing (Nat.le_refl _)
    have hasked := (hu.wait (Nat.le_add_right _ (T.backoff v.attempt))).step hask.step_eq.2
    refine ⟨_, hasked, hcount, ?_⟩
    rw [Validation.listening, hdeadline]
    rfl

/-- Retries enough to go on long after the base has stopped to double. -/
def patient : Policy where
  timeoutMs := 1099511627776
  maxRetries := 200
  retryBackoffMs := 1

/-- A base that doubled with every attempt would have outgrown any duration by the hundredth, which
a validation can well come to. -/
theorem doubling_outgrows_durations :
    patient.errors = [] ∧
      ∃ (T : Trial) (v : Validation) (now remaining : Nat), T.policy = patient ∧
        T.deadline = .after T.start patient.timeout ∧ T.Admissible ∧ T.Passes v now ∧
        v.WorksOut now 100 (1 * Backoff.nanosPerMilli) remaining ∧
        Backoff.longest < 1 * Backoff.nanosPerMilli * 2 ^ (100 - 1) := by
  have hspent : (RetryPlan.ofPolicy patient).spent 99 = 1 * ((2 ^ 32 - 1) * 68) :=
    congrArg (1 * ·) (Backoff.total_add 67)
  have hfits : (RetryPlan.ofPolicy patient).spent 99 < patient.timeout := by
    rw [hspent]
    decide
  have hbegins := begins_hopeless (r := oneLamp) (p := patient) (n := 99) (by decide) hfits
  have hadmissible := admissible_hopeless oneLamp patient patient.timeout
  obtain ⟨v, hv, hattempt, hs⟩ := hbegins.passes (by decide) hadmissible
  have hpolicy := (hv.affords (by decide)).policy
  have hworks := Validation.WorksOut.delay hs (Nat.min_le_left _ _)
    (Awaited.answer?_start_eq_some_iff.mpr ⟨0, rfl, Nat.le_max_left _ _⟩)
    (show v.stock (.error (.unavailable 503)) = .error (.unavailable 503) from rfl) rfl
    (by rw [hattempt, hpolicy]; decide)
  rw [hattempt, hpolicy] at hworks
  exact ⟨by decide, hopeless oneLamp patient patient.timeout, v, _, _, rfl, rfl, hadmissible, hv,
    hworks, by decide⟩

end Trial

end StockGate
