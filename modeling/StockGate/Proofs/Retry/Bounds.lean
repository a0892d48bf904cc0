import StockGate.Proofs.Retry

namespace StockGate.Backoff

variable {attempt later base cap delay draw j : Nat}

theorem factor_pos (h : 0 < attempt) : 0 < factor attempt := by
  have hpow : 0 < 2 ^ (attempt - 1) := Nat.two_pow_pos _
  rw [factor_eq h]
  exact Nat.lt_min.mpr ⟨hpow, by decide⟩

theorem factor_le_factor (h : 0 < attempt) (hle : attempt ≤ later) :
    factor attempt ≤ factor later := by
  have hpow : 2 ^ (attempt - 1) ≤ 2 ^ (later - 1) :=
    Nat.pow_le_pow_right Nat.two_pos (Nat.sub_le_sub_right hle 1)
  rw [factor_eq h, factor_eq (Nat.lt_of_lt_of_le h hle)]
  exact Nat.le_min.mpr
    ⟨Nat.le_trans (Nat.min_le_left _ _) hpow, Nat.min_le_right _ _⟩

theorem step_eq (h : 0 < attempt) (base : Nat) :
    step attempt base = min (base * min (2 ^ (attempt - 1)) (2 ^ 32 - 1)) longest := by
  rw [step, factor_eq h]
  rfl

theorem step_pos (h : 0 < attempt) (hbase : 0 < base) : 0 < step attempt base :=
  Nat.lt_min.mpr ⟨Nat.mul_pos hbase (factor_pos h), by decide⟩

theorem step_le_step (h : 0 < attempt) (hle : attempt ≤ later) (base : Nat) :
    step attempt base ≤ step later base := by
  have hmul := Nat.mul_le_mul_left base (factor_le_factor h hle)
  exact Nat.le_min.mpr ⟨Nat.le_trans (Nat.min_le_left _ _) hmul, Nat.min_le_right _ _⟩

/-- What may be drawn as the jitter of a delay: whole milliseconds, at least those of none. -/
def Drawn (delay j : Nat) : Prop :=
  j < max 1 (jitterRange delay)

theorem drawn_zero (delay : Nat) : Drawn delay 0 :=
  Nat.lt_of_lt_of_le Nat.one_pos (Nat.le_max_left _ _)

theorem drawn_jitter (delay draw : Nat) : Drawn delay (jitter delay draw) := by
  have hlast : jitter delay draw ≤ jitterRange delay - 1 := Nat.min_le_right _ _
  unfold Drawn
  omega

theorem jitter_of_drawn (h : Drawn delay j) : jitter delay j = j := by
  apply Nat.min_eq_left
  unfold Drawn at h
  omega

/-- However the range of the jitter is cut off, it ends below a tenth of the delay. -/
theorem ten_mul_lt_of_drawn (hpos : 0 < delay) (h : Drawn delay j) :
    10 * (delay + j * nanosPerMilli) < 11 * delay := by
  have hrange : jitterRange delay ≤ delay / nanosPerMilli / 10 := Nat.mod_le _ _
  unfold Drawn at h
  unfold nanosPerMilli at *
  omega

theorem delay_of_drawn (hattempt : 0 < attempt) (hbase : 0 < base)
    (hj : Drawn (step attempt base) j) (cap : Nat) :
    Backoff.delay attempt base cap j =
      if longest < step attempt base + j * nanosPerMilli then .error .delayTooLong
      else .ok (min (step attempt base + j * nanosPerMilli) cap) := by
  rw [Backoff.delay, if_neg (by omega)]
  simp only [jitter_of_drawn hj]

theorem delay_jitter (attempt base cap draw : Nat) :
    Backoff.delay attempt base cap (jitter (step attempt base) draw) =
      Backoff.delay attempt base cap draw := by
  unfold Backoff.delay
  simp only [jitter_of_drawn (drawn_jitter (step attempt base) draw)]

/-- The delay before a retry doubles its base with every attempt, as far as 32 bits count and to the
longest duration at most. A jitter below a tenth of it, in whole milliseconds as 64 bits count them,
comes on top, which is too long just if both together are longer than any duration; and the cap cuts
off what is above it. So a delay is never longer than the cap and less than a tenth above what the
doubling gives, and never below that unless the cap is, which is the shortest it can be and grows
with the attempts. -/
theorem delay_within_bounds (attempt base cap : Nat) (hattempt : 0 < attempt) (hbase : 0 < base) :
    let d (n : Nat) := min (base * min (2 ^ (n - 1)) (2 ^ 32 - 1)) longest
    let range := d attempt / 10 ^ 6 / 10 % 2 ^ 64
    (∀ j, j < max 1 range →
      (Backoff.delay attempt base cap j = .error .delayTooLong ↔
        longest < d attempt + j * 10 ^ 6) ∧
      (d attempt + j * 10 ^ 6 ≤ longest → ∃ t, Backoff.delay attempt base cap j = .ok t ∧
        t ≤ cap ∧ min (d attempt) cap ≤ t ∧ 10 * t < 11 * d attempt)) ∧
    (∀ draw, ∃ j, j < max 1 range ∧
      Backoff.delay attempt base cap draw = Backoff.delay attempt base cap j) ∧
    Backoff.delay attempt base cap 0 = .ok (min (d attempt) cap) ∧
    ∀ later, attempt ≤ later → min (d attempt) cap ≤ min (d later) cap := by
  intro d range
  have hd (n : Nat) (hn : 0 < n) : d n = step n base := (step_eq hn base).symm
  have hdrawn (j : Nat) : j < max 1 range ↔ Drawn (step attempt base) j := by
    rw [← hd attempt hattempt]
    rfl
  have hpos := step_pos hattempt hbase
  have hlongest : step attempt base ≤ longest := Nat.min_le_right _ _
  have heq (j : Nat) (hj : Drawn (step attempt base) j) := delay_of_drawn hattempt hbase hj cap
  rw [hd attempt hattempt]
  refine ⟨fun j hj => ?_, fun draw => ?_, ?_, fun later hle => ?_⟩
  · rw [hdrawn] at hj
    have htenth := ten_mul_lt_of_drawn hpos hj
    rw [heq j hj]
    change (_ ↔ longest < step attempt base + j * nanosPerMilli) ∧
      (step attempt base + j * nanosPerMilli ≤ longest → _)
    by_cases hover : longest < step attempt base + j * nanosPerMilli
    · rw [if_pos hover]
      exact ⟨iff_of_true rfl hover, fun hle => absurd hover (Nat.not_lt.mpr hle)⟩
    · rw [if_neg hover]
      refine ⟨iff_of_false nofun hover, fun _ => ⟨_, rfl, Nat.min_le_right _ _, ?_, ?_⟩⟩
      · exact Nat.le_min.mpr ⟨Nat.le_trans (Nat.min_le_left _ _) (Nat.le_add_right _ _),
          Nat.min_le_right _ _⟩
      · have hmin := Nat.min_le_left (step attempt base + j * nanosPerMilli) cap
        omega
  · exact ⟨_, (hdrawn _).mpr (drawn_jitter _ draw), (delay_jitter attempt base cap draw).symm⟩
  · rw [heq 0 (drawn_zero _), Nat.zero_mul, Nat.add_zero, if_neg (Nat.not_lt.mpr hlongest)]
  · rw [hd later (Nat.lt_of_lt_of_le hattempt hle)]
    have hstep := step_le_step hattempt hle base
    exact Nat.le_min.mpr ⟨Nat.le_trans (Nat.min_le_left _ _) hstep, Nat.min_le_right _ _⟩

/-- At the longest duration the range of the jitter is all that 64 bits count, and one millisecond
of it is too long. -/
theorem delay_within_bounds_at_longest :
    let base := 5 * 10 ^ 18
    Backoff.delay 40 base longest 1 = .error .delayTooLong ∧
      Backoff.delay 40 base longest 0 = .ok longest ∧
      ∃ t, Backoff.delay 3 base longest (2 ^ 40) = .ok t ∧ 4 * base ≤ t ∧
        10 * t < 11 * (4 * base) := by
  intro base
  obtain ⟨hlong, -, hleast, -⟩ := delay_within_bounds 40 base longest (by decide) (by decide)
  obtain ⟨hshort, -⟩ := delay_within_bounds 3 base longest (by decide) (by decide)
  obtain ⟨t, ht, -, hle, htenth⟩ := (hshort (2 ^ 40) (by decide)).2 (by decide)
  have hthree : min (base * min (2 ^ (3 - 1)) (2 ^ 32 - 1)) longest = 4 * base := by decide
  simp only [hthree] at hle htenth
  rw [Nat.min_eq_left (by decide)] at hle
  refine ⟨(hlong 1 (by decide)).1.mpr (by decide), ?_, t, ht, hle, htenth⟩
  exact hleast.trans (congrArg Except.ok (by decide))

end StockGate.Backoff
