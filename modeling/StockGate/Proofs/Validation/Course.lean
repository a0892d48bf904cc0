import StockGate.Proofs.Validation.Run

namespace StockGate

/-- Another attempt may do better. -/
inductive LookupError.Passing : LookupError → Prop
  | connect (detail : String) : Passing (.connect detail)
  | unavailable (code : Nat) : Passing (.unavailable code)

/-- The record is of the product asked for, and says how much is in stock. -/
def Product.Tells (p : Product) (asked : String) (q : UInt32) : Prop :=
  p.id = asked ∧ ∃ level, p.stock = some level ∧ level.schemaVersion = 1 ∧ level.available = q

namespace Trial

/-- What the catalog replies to attempt `k`. -/
def reply (T : Trial) (k : Nat) : Reply LookupAnswer :=
  T.catalog.answer (T.catalog.asked.length + (k - 1)) T.request.product

/-- The base doubles with every attempt, up to the largest factor of 32 bits. -/
def doubled (T : Trial) (k : Nat) : Nat :=
  T.policy.retryBackoffMs.toNat * min (2 ^ (k - 1)) (2 ^ 32 - 1)

/-- The delay between the answer to attempt `k` and the next attempt. -/
def backoff (T : Trial) (k : Nat) : Nat :=
  T.doubled k + T.jitter k

/-- Jitter is below a tenth of what it is added to, counted in 64 bits, or it is zero. -/
def Admissible (T : Trial) : Prop :=
  ∀ k, T.jitter k < max 1 (T.doubled k / 10 % 2 ^ 64)

/-- The answer to attempt `k`, begun at `t`, comes at this time, and not after the deadline. -/
def Answered (T : Trial) (k t time : Nat) (a : LookupAnswer) : Prop :=
  ∃ delay, T.reply k = .after delay a ∧ t + delay = time ∧ time ≤ T.deadline.time

/-- Another attempt follows attempt `k`, which has failed with this error at this time. -/
def Retries (T : Trial) (k time : Nat) (e : LookupError) : Prop :=
  e.Passing ∧ k ≤ T.policy.maxRetries.toNat ∧ T.backoff k < T.deadline.time - time

/-- Attempt `k` begins at this time. -/
inductive Begins (T : Trial) : (k time : Nat) → Prop
  | first : Begins T 1 T.start
  | retry {k t time : Nat} {e : LookupError} (hb : Begins T k t)
      (ha : T.Answered k t time (.error e)) (hr : T.Retries k time e) :
      Begins T (k + 1) (time + T.backoff k)

/-- Attempt `k`, begun at `t`, is the last: the validation ends at this time with this finding. -/
inductive Halts (T : Trial) (k t : Nat) : (time : Nat) → Finding → Prop
  | late (hlate : ∀ time a, ¬ T.Answered k t time a) :
      Halts T k t T.deadline.time (.failed .timeout (T.deadline.time - T.start) k)
  | stock {time : Nat} {p : Product} {q : UInt32} (ha : T.Answered k t time (.ok p))
      (hq : p.Tells T.request.product q) : Halts T k t time (.checked q (time - T.start) k)
  | useless {time : Nat} {p : Product} (ha : T.Answered k t time (.ok p))
      (hq : ∀ q, ¬ p.Tells T.request.product q) :
      Halts T k t time (.failed .invalidResponse (time - T.start) k)
  | error {time : Nat} {e : LookupError} (ha : T.Answered k t time (.error e))
      (hr : ¬ T.Retries k time e) : Halts T k t time (.failed e.kind (time - T.start) k)

/-- By the rules the validation ends at this time, with this finding. -/
def Ends (T : Trial) (time : Nat) (f : Finding) : Prop :=
  ∃ k t, T.Begins k t ∧ T.Halts k t time f

variable {T : Trial} {k n t t' time time' : Nat} {a a' : LookupAnswer} {e : LookupError}
  {f f' : Finding}

theorem Answered.unique (h : T.Answered k t time a) (h' : T.Answered k t time' a') :
    time' = time ∧ a' = a := by
  obtain ⟨delay, hr, rfl, -⟩ := h
  obtain ⟨delay', hr', rfl, -⟩ := h'
  obtain ⟨rfl, rfl⟩ := Reply.after.inj (hr'.symm.trans hr)
  exact ⟨rfl, rfl⟩

theorem Begins.pos (h : T.Begins k t) : 0 < k := by
  cases h with
  | first => exact Nat.one_pos
  | retry => exact Nat.succ_pos _

theorem Begins.unique (h : T.Begins k t) (h' : T.Begins k t') : t' = t := by
  induction h generalizing t' with
  | first =>
    cases h' with
    | first => rfl
    | retry hb => exact absurd hb.pos (Nat.lt_irrefl 0)
  | retry hb ha _ ih =>
    cases h' with
    | first => exact absurd hb.pos (Nat.lt_irrefl 0)
    | retry hb' ha' =>
      obtain rfl := ih hb'
      rw [(ha.unique ha').1]

theorem Begins.le_deadline (h : T.Begins k t) (hstart : T.start ≤ T.deadline.time) :
    t ≤ T.deadline.time := by
  cases h with
  | first => exact hstart
  | retry _ _ hr =>
    have hlt := hr.2.2
    omega

theorem Begins.retried (h : T.Begins n t) (hk : 0 < k) (hlt : k < n) :
    ∃ t time e, T.Begins k t ∧ T.Answered k t time (.error e) ∧ T.Retries k time e := by
  induction h with
  | first => exact absurd hk (Nat.not_lt_of_le (Nat.le_of_lt_succ hlt))
  | @retry m t time e hb ha hr ih =>
    rcases Nat.lt_succ_iff_lt_or_eq.mp hlt with hlt | rfl
    · exact ih hlt
    · exact ⟨t, time, e, hb, ha, hr⟩

theorem Halts.not_retries (h : T.Halts k t time f) (ha : T.Answered k t time' (.error e)) :
    ¬ T.Retries k time' e := by
  cases h with
  | late hlate => exact absurd ha (hlate _ _)
  | stock hp | useless hp => exact absurd (hp.unique ha).2 nofun
  | error ha' hr =>
    obtain ⟨rfl, heq⟩ := ha'.unique ha
    obtain rfl := Except.error.inj heq
    exact hr

theorem Halts.unique (h : T.Halts k t time f) (h' : T.Halts k t time' f') :
    time' = time ∧ f' = f := by
  -- There is only one answer, and it decides which rule applies.
  cases h <;> cases h' <;> grind [Answered.unique, Product.Tells]

theorem Begins.le_of_halts (h : T.Begins n t') (hb : T.Begins k t) (hh : T.Halts k t time f) :
    n ≤ k := by
  apply Nat.le_of_not_lt
  intro hlt
  obtain ⟨t', time', e, hb', ha, hr⟩ := h.retried hb.pos hlt
  obtain rfl := hb.unique hb'
  exact hh.not_retries ha hr

theorem Ends.unique (h : T.Ends time f) (h' : T.Ends time' f') : time' = time ∧ f' = f := by
  obtain ⟨k, t, hb, hh⟩ := h
  obtain ⟨k', t', hb', hh'⟩ := h'
  obtain rfl : k' = k := Nat.le_antisymm (hb'.le_of_halts hb hh) (hb.le_of_halts hb' hh')
  obtain rfl := hb.unique hb'
  exact hh.unique hh'

theorem Halts.reports (h : T.Halts k t time f) :
    (Outcome.of T.request f).attempts = k ∧ (Outcome.of T.request f).duration = time - T.start := by
  cases h <;> exact ⟨rfl, rfl⟩

end Trial

theorem LookupError.passing_iff {e : LookupError} : e.Passing ↔ e.isTransient = true := by
  constructor
  · rintro (_ | _) <;> rfl
  · intro h
    cases e with
    | connect detail => exact .connect detail
    | unavailable code => exact .unavailable code
    | _ => cases h

theorem Product.available_eq_error {p : Product} {asked : String} {e : LookupError}
    (h : p.available asked = .error e) :
    (∀ q, ¬ p.Tells asked q) ∧ e.kind = .invalidResponse ∧ e.isTransient = false := by
  refine ⟨fun q hq => ?_, ?_⟩
  · cases (available_eq_ok_iff.mpr hq).symm.trans h
  · unfold available at h
    grind [LookupError.kind, LookupError.isTransient]

namespace Trial

variable {T : Trial} {k t time : Nat} {a : LookupAnswer} {e : LookupError} {f : Finding}
  {v v' : Validation} {catalog catalog' : Catalog}

theorem doubled_eq (hk : 0 < k) : (RetryPlan.ofPolicy T.policy).cost k = T.doubled k :=
  congrArg (T.policy.retryBackoffMs.toNat * ·) (Backoff.factor_eq hk)

theorem backoff_eq (hj : T.Admissible) (hk : 0 < k) :
    (RetryPlan.ofPolicy T.policy).pause k (T.jitter k) = T.backoff k := by
  have hjitter : Backoff.jitter (T.doubled k * Backoff.nanosPerMilli) (T.jitter k) =
      T.jitter k := by
    have hlt := hj k
    have hsize : UInt64.size = 2 ^ 64 := rfl
    rw [Backoff.jitter, Backoff.jitterRange, Nat.mul_div_cancel _ (by decide), hsize]
    omega
  rw [RetryPlan.pause, doubled_eq hk, hjitter, backoff]

theorem answered_at_wake (ht : t ≤ T.deadline.time)
    (hs : v.stage = .asked (.start t (T.reply k) T.deadline.time))
    (ha : (Awaited.start t (T.reply k) T.deadline.time).answer? = some a) :
    T.Answered k t v.wake a := by
  obtain ⟨delay, hr, hle⟩ := Awaited.answer?_start_eq_some_iff.mp ha
  have hwake : v.wake = t + delay := by
    rw [Validation.wake, hs, hr]
    exact Nat.min_eq_left hle
  rw [hwake]
  exact ⟨delay, hr, rfl, by omega⟩

theorem wake_eq_deadline (ht : t ≤ T.deadline.time)
    (hs : v.stage = .asked (.start t (T.reply k) T.deadline.time))
    (ha : (Awaited.start t (T.reply k) T.deadline.time).answer? = none) :
    v.wake = T.deadline.time := by
  rw [Validation.wake, hs]
  exact (Awaited.ends_eq_limit_of_answer?_eq_none ha).trans (Nat.max_eq_right ht)

theorem not_answered_of_answer?
    (ha : (Awaited.start t (T.reply k) T.deadline.time).answer? = none) (time : Nat)
    (a : LookupAnswer) : ¬ T.Answered k t time a := by
  rintro ⟨delay, hr, rfl, hle⟩
  have hle := Nat.le_trans hle (Nat.le_max_right t T.deadline.time)
  cases ha.symm.trans (Awaited.answer?_start_eq_some_iff.mpr ⟨delay, hr, hle⟩)

/-- The validation is where the rules have it. -/
inductive Stands (T : Trial) (v : Validation) : Prop
  | asked {t : Nat} (hb : T.Begins v.attempt t)
      (hs : v.stage = .asked (.start t (T.reply v.attempt) T.deadline.time)) : Stands T v
  | pausing {t : Nat} (hb : T.Begins v.attempt t) (hs : v.stage = .pausing t) : Stands T v

theorem stands_start (T : Trial) : T.Stands T.opening.2 :=
  .asked .first rfl

theorem next_eq (h : v.Affords T) (hreach : T.deadline.time ≤ T.start + clockReach)
    (hj : T.Admissible) (time : Nat) (e : LookupError) :
    v.next time T.jitter e =
      .ok (if e.isTransient = true ∧ v.attempt ≤ T.policy.maxRetries.toNat ∧
          T.backoff v.attempt < T.deadline.time - time then some (T.backoff v.attempt)
        else none) := by
  rw [h.frugal.next_eq (h.within_reach hreach), Validation.plan, h.policy, h.deadline,
    backoff_eq hj h.frugal.counted]
  rfl

theorem Stands.moved (hs : T.Stands v) (h : v.Underway T catalog)
    (hstart : T.start ≤ T.deadline.time) (hreach : T.deadline.time ≤ T.start + clockReach)
    (hj : T.Admissible) (hst : v.Stride v.wake T.jitter catalog catalog' (.moved v')) :
    T.Stands v' := by
  cases hs with
  | @asked t hb hasked =>
    cases hst with
    | @pause w a e delay hs hnow ha he hd hle =>
      obtain rfl := LookupStage.asked.inj (hasked.symm.trans hs)
      rw [T.next_eq h.toAffords hreach hj] at hd
      obtain ⟨htransient, hretry, hfits, rfl⟩ :
          e.isTransient = true ∧ v.attempt ≤ T.policy.maxRetries.toNat ∧
            T.backoff v.attempt < T.deadline.time - v.wake ∧ T.backoff v.attempt = delay := by
        grind
      have hanswered := answered_at_wake (hb.le_deadline hstart) hasked ha
      -- A record is never an error that passes, so the catalog itself has failed.
      cases a with
      | ok p =>
        rw [Validation.stock] at he
        rw [(Product.available_eq_error he).2.2] at htransient
        cases htransient
      | error e' =>
        obtain rfl := Except.error.inj he
        exact .pausing
          (.retry hb hanswered ⟨LookupError.passing_iff.mpr htransient, hretry, hfits⟩) rfl
    | ask hs => cases hasked.symm.trans hs
  | @pausing t hb hpausing =>
    cases hst with
    | pause hs => cases hpausing.symm.trans hs
    | ask hs hnow =>
      have hwake : v.wake = t := by rw [Validation.wake, hpausing]
      have hreply : (catalog.ask v.request.product).2 = T.reply v.attempt := by
        rw [Service.ask, h.answer, h.asked, h.request, List.length_append, List.length_replicate,
          Validation.lookups_of_pausing hpausing]
        rfl
      rw [Validation.listening, hwake, hreply, h.deadline]
      exact .asked hb rfl

theorem Stands.ends (hs : T.Stands v) (h : v.Underway T catalog)
    (hstart : T.start ≤ T.deadline.time) (hreach : T.deadline.time ≤ T.start + clockReach)
    (hj : T.Admissible) (hst : v.Stride v.wake T.jitter catalog catalog' (.finished f)) :
    T.Ends v.wake f := by
  cases hs with
  | pausing hb hpausing =>
    cases hst with
    | timeOut hs | check hs | fail hs => cases hpausing.symm.trans hs
  | @asked t hb hasked =>
    have hle := hb.le_deadline hstart
    refine ⟨v.attempt, t, hb, ?_⟩
    cases hst with
    | timeOut hs hnow ha =>
      obtain rfl := LookupStage.asked.inj (hasked.symm.trans hs)
      rw [wake_eq_deadline hle hasked ha, h.started]
      exact .late (not_answered_of_answer? ha)
    | @check w a n hs hnow ha hn =>
      obtain rfl := LookupStage.asked.inj (hasked.symm.trans hs)
      have hanswered := answered_at_wake hle hasked ha
      cases a with
      | error e => cases hn
      | ok p =>
        rw [Validation.stock, h.request] at hn
        rw [h.started]
        exact .stock hanswered (Product.available_eq_ok_iff.mp hn)
    | @fail w a e hs hnow ha he hd =>
      obtain rfl := LookupStage.asked.inj (hasked.symm.trans hs)
      have hanswered := answered_at_wake hle hasked ha
      rw [h.started]
      cases a with
      | ok p =>
        rw [Validation.stock, h.request] at he
        obtain ⟨huseless, hkind, -⟩ := Product.available_eq_error he
        rw [hkind]
        exact .useless hanswered huseless
      | error e' =>
        obtain rfl := Except.error.inj he
        refine .error hanswered fun ⟨hpassing, hretry, hfits⟩ => ?_
        rw [T.next_eq h.toAffords hreach hj,
          if_pos ⟨LookupError.passing_iff.mp hpassing, hretry, hfits⟩] at hd
        cases hd

/-- The run of a validation is what the rules come to. -/
theorem ends_run (hstart : T.start ≤ T.deadline.time)
    (hreach : T.deadline.time ≤ T.start + clockReach) (hj : T.Admissible) :
    ∃ f, T.run.finding = .ok f ∧ T.Ends T.run.time f := by
  refine Validation.run_induct (P := fun v catalog => v.Underway T catalog ∧ T.Stands v)
    (Q := fun e => ∃ f, e.finding = .ok f ∧ T.Ends e.time f) ?_ ?_ ?_
    ⟨Validation.underway_start T, T.stands_start⟩ (Awaited.le_ends_start _ _ _)
  · rintro v v' catalog catalog' ⟨h, hs⟩ hst
    exact ⟨h.moved hreach hst, hs.moved h hstart hreach hj hst⟩
  · rintro v catalog catalog' f log ⟨h, hs⟩ hst
    exact ⟨f, rfl, hs.ends h hstart hreach hj hst⟩
  · rintro v catalog catalog' log ⟨h, -⟩ hst
    exact absurd hst (h.frugal.not_overflown (h.within_reach hreach))

/-- Whatever the catalog replies and whatever jitter is drawn, a validation by a deadline that a
clock can reach ends when and as the rules say. It reports the number of its last attempt, which 32
bits hold, and how long it took; it has asked for its product just as often; and every attempt but
the last failed in passing, with time left for its backoff. -/
theorem follows_the_rules (T : Trial) (hretries : T.policy.maxRetries.toNat < 2 ^ 32 - 1)
    (hstart : T.start ≤ T.deadline.time) (hreach : T.deadline.time ≤ T.start + clockReach)
    (hj : T.Admissible) :
    (∀ time f, T.Ends time f ↔ T.run.time = time ∧ T.run.finding = .ok f) ∧
    ∃ n f, T.run.finding = .ok f ∧
      (Outcome.of T.request f).attempts = n ∧
      (Outcome.of T.request f).duration = T.run.time - T.start ∧
      T.run.catalog.asked = T.catalog.asked ++ List.replicate n T.request.product ∧
      n < UInt32.size ∧
      ∀ k, 0 < k → k < n →
        ∃ t time e, T.Begins k t ∧ T.Answered k t time (.error e) ∧ T.Retries k time e := by
  obtain ⟨f, hf, hends⟩ := ends_run hstart hreach hj
  constructor
  · intro time f'
    constructor
    · intro h
      obtain ⟨rfl, rfl⟩ := hends.unique h
      exact ⟨rfl, hf⟩
    · rintro ⟨rfl, hf'⟩
      obtain rfl := Except.ok.inj (hf.symm.trans hf')
      exact hends
  · obtain ⟨n, f', hf', hn, hasked, -, hle, -⟩ := T.counted hreach
    obtain rfl := Except.ok.inj (hf.symm.trans hf')
    obtain ⟨k, t, hb, hh⟩ := hends
    obtain ⟨hattempts, hduration⟩ := hh.reports
    obtain rfl : k = n := hattempts.symm.trans hn
    have hsize : UInt32.size = 2 ^ 32 := rfl
    exact ⟨k, f, hf, hn, hduration, hasked, by omega, fun j hj hlt => hb.retried hj hlt⟩

/-- A catalog that comes up little by little, and at last answers at the very deadline. -/
def comingUp : Trial where
  request := oneLamp
  policy := { maxRetries := 2, retryBackoffMs := 100 }
  start := 7
  deadline := ⟨350⟩
  catalog :=
    { answer := fun n product =>
        match n with
        | 0 => .after 5 (.error (.connect "connection refused"))
        | 1 => .after 1 (.error (.unavailable 503))
        | _ =>
          .after 9 (.ok { id := product, stock := some { schemaVersion := 1, available := 5 } }) }
  jitter := fun k => if k = 1 then 9 else if k = 2 then 19 else 0

theorem follows_the_rules_to_the_deadline :
    comingUp.run.time = comingUp.deadline.time ∧ comingUp.run.finding = .ok (.checked 5 343 3) := by
  have hadmissible : comingUp.Admissible := by
    intro k
    simp only [comingUp]
    split
    · next h => subst h; decide
    · split
      · next h => subst h; decide
      · omega
  have hsecond : comingUp.Begins 2 121 :=
    .retry .first ⟨5, rfl, rfl, by decide⟩ ⟨.connect _, by decide, by decide⟩
  have hthird : comingUp.Begins 3 341 :=
    .retry hsecond ⟨1, rfl, rfl, by decide⟩ ⟨.unavailable _, by decide, by decide⟩
  have hends : comingUp.Ends 350 (.checked 5 343 3) :=
    ⟨3, 341, hthird, .stock ⟨9, rfl, rfl, by decide⟩ ⟨rfl, _, rfl, rfl, rfl⟩⟩
  obtain ⟨hrules, -⟩ :=
    follows_the_rules comingUp (by decide) (by decide) (by decide) hadmissible
  exact (hrules _ _).mp hends

end Trial

end StockGate
