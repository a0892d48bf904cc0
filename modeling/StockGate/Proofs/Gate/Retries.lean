import StockGate.Proofs.Gate.Limits
import StockGate.Proofs.Validation.Run

namespace StockGate

theorem RetryPlan.two_pow_sub_one_le_spent (plan : RetryPlan) (n : Nat) :
    plan.baseDelay * (2 ^ min n 32 - 1) ≤ plan.spent n := by
  have hpow := plan.two_pow_le_spent n
  rw [Nat.mul_sub, Nat.mul_one]
  omega

namespace Validation

variable {x x' : Validation} {p : Policy} {now : Nat} {draws : Nat → Nat}
  {catalog catalog' : Catalog}

theorem Paced.deadline_within_reach (h : x.Paced p) :
    x.deadline.time ≤ x.started + clockReach := by
  have hsize : p.timeout < UInt64.size := p.timeoutMs.toNat_lt_size
  rw [h.deadline]
  exact Nat.add_le_add_left (Nat.le_trans (Nat.le_of_lt hsize) (by decide)) _

/-- The delays before the retries that were made are shorter than the policy's timeout. -/
theorem Frugal.spent_lt_timeout {n : Nat} (h : x.Frugal) (hp : x.Paced p)
    (hn : x.attempt = n + 1) (hpos : 0 < n) : (RetryPlan.ofPolicy p).spent n < p.timeout := by
  have hspent := h.spent_lt (by omega)
  rw [plan, hp.policy, hn, Nat.add_sub_cancel, hp.deadline] at hspent
  exact Nat.lt_of_add_lt_add_left hspent

end Validation

/-- The validation of the call, if it has begun, pays for its pauses. -/
def Call.Frugal (c : Call) : Prop :=
  ∀ permit x, c.stage = .validating permit x → x.Frugal

/-- The retries of a call take less than the timeout. Where there were none that holds of any
timeout but zero. -/
def CallResult.Sparing (r : CallResult) (p : Policy) : Prop :=
  ∀ e n, r = .evaluated e → e.outcome.attempts = n + 1 → 0 < n ∨ 0 < p.timeout →
    p.retryBackoffMs.toNat * (2 ^ min n 32 - 1) < p.timeout

namespace Call.Frugal

variable {c c' : Call} {v : Arrival} {g g' : Gate} {r : CallResult}

theorem begin (g : Gate) (r : Request) (draws : Nat → Nat) : (g.begin r draws).2.Frugal :=
  fun _ _ hs => nomatch hs

theorem moved (h : c.Frugal) (hp : c.Paced v) (hst : g.Stride c g' (.moved c')) : c'.Frugal := by
  have hstage := hp.stage
  cases hst with
  | enter =>
    rintro permit x ⟨⟩
    exact Validation.frugal_start _ _ _ _ _
  | go hs hv =>
    rw [hs] at hstage
    cases hstage with
    | validating hx =>
      rintro permit x ⟨⟩
      exact (h _ _ hs).moved hx.deadline_within_reach hv

theorem ended (h : c.Frugal) (hp : c.Paced v) (hst : g.Stride c g' (.over r)) :
    r.Sparing v.met.policy := by
  intro e n he hn hroom
  have hstage := hp.stage
  cases hst with
  | skip | shed =>
    obtain rfl := CallResult.evaluated.inj he
    cases hn
  | overflow => cases he
  | @finish permit x f _ catalog hs hv =>
    rw [hs] at hstage
    cases hstage with
    | validating hx =>
      obtain rfl := CallResult.evaluated.inj he
      have hattempt : x.attempt = n + 1 := (hv.attempts c.request).1.symm.trans hn
      have hpow := (RetryPlan.ofPolicy v.met.policy).two_pow_sub_one_le_spent n
      apply Nat.lt_of_le_of_lt hpow
      rcases Nat.eq_zero_or_pos n with rfl | hpos
      · exact hroom.resolve_left (Nat.lt_irrefl 0)
      · exact (h _ _ hs).spent_lt_timeout hx hattempt hpos

end Call.Frugal

namespace GateSession

variable {s : GateSession} {g : Gate} {i : Nat} {v : Visit} {c : Call} {e : Ending}

theorem Reached.frugal (h : Reached g s) (hc : s.call? i = some (v, c)) : c.Frugal := by
  have hboth := h.induct_call (P := fun v c => c.Paced v ∧ c.Frugal)
    (fun g r draws => ⟨.begin g r draws, .begin g r draws⟩)
    (fun hc hnow hst => ⟨hc.1.moved hst hnow, hc.2.moved hc.1 hst⟩)
  exact (hboth i v c hc).2

theorem Reached.ending_sparing (h : Reached g s) (hc : s.call? i = some (v, c))
    (he : s.endingOf i v c ((s.gate.step c).2.status c) = some e) :
    e.result.Sparing e.met.policy := by
  obtain ⟨g', hst⟩ := stride_of_endingOf he
  obtain ⟨r, -, rfl⟩ := endingOf_eq_some_iff.mp he
  exact (h.frugal hc).ended (h.paced hc) hst

/-- However many retries a policy allows, the catalog behaves, and jitter is drawn, the retries of a
call are few: the base delay, times the power of two by their number up to 32, less one, is below
the policy's timeout. -/
theorem retries_are_few (g : Gate) (steps : List GateStep) :
    ∀ e ∈ endings g steps, ∀ x n, e.result = .evaluated x → x.outcome.attempts = n + 1 →
      0 < n ∨ 0 < e.met.policy.timeout →
      e.met.policy.retryBackoffMs.toNat * (2 ^ min n 32 - 1) < e.met.policy.timeout :=
  forall_endings (P := fun e => e.result.Sparing e.met.policy)
    (fun _ _ _ _ _ hr hc he => hr.ending_sparing hc he) (fun _ _ _ _ _ _ he => nomatch he) steps

/-- A gate whose catalog fails at once whenever it is asked, and which has retries enough. -/
def overloaded : Gate where
  policy := { maxRetries := 10 }
  catalog := { answer := fun _ _ => .after 0 (.error (.unavailable 503)) }
  flags := .fixed true
  emitter := .disabled

/-- A call that asks five times. -/
def insistent : List GateStep :=
  .arrive fiveOfOne (fun _ => 0) ::
    (List.replicate 5 [.advance 0, .advance 0, .wait 500]).flatten

theorem retries_are_few_when_overloaded :
    ∃ e x, e ∈ endings overloaded insistent ∧ e.result = .evaluated x ∧
      x.outcome.attempts = 4 + 1 ∧ 25 * (2 ^ min 4 32 - 1) < 500 := by
  have hmem : (endings overloaded insistent)[0] ∈ endings overloaded insistent :=
    List.getElem_mem _
  have hresult : (endings overloaded insistent)[0].result =
      .evaluated ⟨.allow true, ⟨"lamp", 5, .failed .unavailable 375 5⟩⟩ := rfl
  have htimeout : 0 < (endings overloaded insistent)[0].met.policy.timeout := by decide
  have hfew := retries_are_few overloaded insistent _ hmem _ 4 hresult rfl (.inr htimeout)
  exact ⟨_, _, hmem, hresult, rfl, hfew⟩

/-- A gate that leaves its catalog no time at all, and a catalog that needs none. -/
def hasty : Gate where
  policy := { timeoutMs := 0, retryBackoffMs := 1 }
  catalog :=
    { answer := fun _ product =>
        .after 0 (.ok { id := product, stock := some { schemaVersion := 1, available := 5 } }) }
  flags := .fixed true
  emitter := .disabled

/-- No retries take no time, which is not less than none. -/
theorem timeout_zero_leaves_no_time :
    ∃ e x n, e ∈ endings hasty [.arrive fiveOfOne fun _ => 0, .advance 0, .advance 0] ∧
      0 < e.met.policy.retryBackoffMs.toNat ∧ e.result = .evaluated x ∧
      x.outcome.performed = true ∧ x.outcome.attempts = n + 1 ∧
      ¬ e.met.policy.retryBackoffMs.toNat * (2 ^ min n 32 - 1) < e.met.policy.timeout := by
  refine ⟨_, ⟨.allow false, ⟨"lamp", 5, .checked 5 0 1⟩⟩, 0, List.getElem_mem (n := 0) ?_, ?_, ?_⟩
  · decide
  · decide
  · exact ⟨rfl, rfl, rfl, by decide⟩

end GateSession

end StockGate
