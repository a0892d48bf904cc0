import StockGate.Proofs.Gate.Recovery
import StockGate.Proofs.Retry

namespace StockGate

/-- The validation took no longer than the policy allows, and if it timed out just as long. -/
structure Outcome.InTime (o : Outcome) (p : Policy) : Prop where
  bounded : o.duration ≤ p.timeout
  exact : o.errorKind? = some .timeout → o.duration = p.timeout

theorem LookupError.kind_ne_timeout (e : LookupError) : e.kind ≠ .timeout := by
  cases e <;> nofun

theorem Outcome.errorKind?_checked (r : Request) (q : UInt32) (duration attempts : Nat) :
    (Outcome.of r (.checked q duration attempts)).errorKind? = none ∨
      (Outcome.of r (.checked q duration attempts)).errorKind? = some .insufficientInventory := by
  by_cases hle : r.quantity ≤ q <;> simp [errorKind?, Outcome.of, hle]

namespace Validation

variable {x x' : Validation} {p : Policy} {now : Nat} {draws : Nat → Nat}
  {catalog catalog' : Catalog} {f : Finding}

/-- The validation keeps to the policy: it never waits beyond the deadline, and the next delay is
not longer than any duration. -/
structure Paced (x : Validation) (p : Policy) : Prop where
  policy : x.policy = p
  deadline : x.deadline.time = x.started + p.timeout
  begun : x.started ≤ x.wake
  counted : 0 < x.attempt
  affordable : (RetryPlan.ofPolicy p).cost x.attempt < 2 * UInt64.size
  stage : ∃ ls, x.stage.After x.deadline.time ls

theorem Paced.wake_le (h : x.Paced p) : x.wake ≤ x.started + p.timeout := by
  obtain ⟨ls, hx⟩ := h.stage
  rw [← h.deadline]
  exact hx.wake_le

theorem paced_start (now : Nat) (catalog : Catalog) (r : Request) (p : Policy) :
    (start now catalog r (.after now p.timeout) p).2.Paced p where
  policy := rfl
  deadline := rfl
  begun := Awaited.le_ends_start _ _ _
  counted := Nat.one_pos
  affordable := Nat.lt_of_lt_of_le (RetryPlan.cost_one_lt p) (Nat.le_mul_of_pos_left _ Nat.two_pos)
  stage := by
    let l : LookupMade := ⟨now, r.product, (catalog.ask r.product).2⟩
    have hlast : [l].getLast? = some l := rfl
    exact ⟨[l], .asked hlast (Nat.le_add_right _ _)⟩

theorem Stride.due (h : x.Stride now draws catalog catalog' (.moved x')) : x.wake ≤ now := by
  cases h with
  | pause hs hnow | ask hs hnow => rwa [wake, hs]

theorem Paced.remaining_le (h : x.Paced p) (hnow : x.wake ≤ now) :
    x.deadline.remaining now ≤ p.timeout := by
  have hbegun := h.begun
  have hdeadline := h.deadline
  rw [Deadline.remaining]
  omega

theorem Paced.next_eq (h : x.Paced p) (e : LookupError) :
    x.next now draws e =
      (RetryPlan.ofPolicy p).next x.attempt e (x.deadline.remaining now) (draws x.attempt) := by
  rw [next, h.policy]

theorem Paced.within_reach (h : x.Paced p) :
    (RetryPlan.ofPolicy p).cost x.attempt ≤ clockReach + UInt64.size :=
  Nat.le_trans (Nat.le_of_lt h.affordable) (by decide)

theorem Paced.moved (h : x.Paced p) (hst : x.Stride now draws catalog catalog' (.moved x'))
    (hnow : now ≤ x.wake) : x'.Paced p := by
  have hdue := hst.due
  have hbegun : x.started ≤ x'.wake :=
    Nat.le_trans h.begun (Nat.le_trans hdue hst.le_wake)
  obtain ⟨ls, hx⟩ := h.stage
  obtain ⟨-, hdeadline, -, hx'⟩ := hst.after hx hnow
  rw [← hdeadline] at hx'
  cases hst with
  | pause hs hle ha he hd =>
    rw [h.next_eq] at hd
    -- The pause fits in the time that remains, and so the next one is at most twice that.
    have hsize : p.timeout < UInt64.size := p.timeoutMs.toNat_lt_size
    have hremaining := h.remaining_le hdue
    obtain ⟨rfl, hlt⟩ := RetryPlan.next_eq_some h.counted h.within_reach hd
    have hcost := (RetryPlan.ofPolicy p).cost_le_pause x.attempt (draws x.attempt)
    have hnext := (RetryPlan.ofPolicy p).cost_succ_le x.attempt
    refine ⟨h.policy, h.deadline, hbegun, Nat.succ_pos _, ?_, _, hx'⟩
    change (RetryPlan.ofPolicy p).cost (x.attempt + 1) < _
    omega
  | ask hs hle => exact ⟨h.policy, h.deadline, hbegun, h.counted, h.affordable, _, hx'⟩

theorem Paced.not_overflown (h : x.Paced p) :
    ¬ x.Stride now draws catalog catalog' .overflown := by
  intro hst
  cases hst with
  | @overflow _ _ e _ hs hnow ha he hd =>
    rw [h.next_eq, RetryPlan.next_eq h.counted h.within_reach] at hd
    cases hd

theorem Paced.wake_eq_of_late {w : Awaited LookupAnswer} (h : x.Paced p) (hs : x.stage = .asked w)
    (ha : w.answer? = none) : x.wake = x.started + p.timeout := by
  obtain ⟨ls, hx⟩ := h.stage
  rw [wake, hs]
  rw [hs] at hx
  cases hx with
  | asked hl ht =>
    refine (Awaited.ends_eq_limit_of_answer?_eq_none ha).trans ?_
    exact (Nat.max_eq_right ht).trans h.deadline

theorem Paced.finished (h : x.Paced p) (r : Request)
    (hst : x.Stride now draws catalog catalog' (.finished f)) (hnow : now ≤ x.wake) :
    (Outcome.of r f).InTime p := by
  have hwake := h.wake_le
  have hbound : now - x.started ≤ p.timeout := by omega
  cases hst with
  | timeOut hs hle ha =>
    have hlate := h.wake_eq_of_late hs ha
    rw [wake, hs] at hnow hlate
    have hexact : now - x.started = p.timeout := by
      simp only at hnow hlate
      omega
    exact ⟨hbound, fun _ => hexact⟩
  | check =>
    refine ⟨hbound, fun hk => ?_⟩
    rcases Outcome.errorKind?_checked r _ _ _ with hk' | hk' <;> cases hk'.symm.trans hk
  | fail => exact ⟨hbound, fun hk => absurd (Option.some.inj hk) (LookupError.kind_ne_timeout _)⟩

end Validation

/-- The last moment at which the call can return. -/
def Arrival.limit (v : Arrival) : Nat :=
  v.met.now + v.met.flag.timeout + v.met.policy.timeout

/-- The stage ends by the limit of the call. -/
inductive CallStage.Paced (v : Arrival) : CallStage → Prop
  | asking {w : Awaited FlagAnswer} (hw : w.limit = v.met.now + v.met.flag.timeout) :
      Paced v (.asking w)
  | validating {permit : Permit} {x : Validation} (hx : x.Paced v.met.policy)
      (hs : x.started ≤ v.met.now + v.met.flag.timeout) : Paced v (.validating permit x)

/-- The call keeps to the limits that its arrival has set. -/
structure Call.Paced (c : Call) (v : Arrival) : Prop where
  policy : c.policy = v.met.policy
  stage : c.stage.Paced v

theorem Outcome.inTime_skipped (r : Request) (p : Policy) : (Outcome.of r .skipped).InTime p :=
  ⟨Nat.zero_le _, nofun⟩

theorem Outcome.inTime_shed (r : Request) (p : Policy) : (Outcome.of r .shed).InTime p :=
  ⟨Nat.zero_le _, nofun⟩

namespace Call.Paced

variable {c c' : Call} {v : Arrival} {g g' : Gate} {r : CallResult}

theorem begin (g : Gate) (r : Request) (draws : Nat → Nat) :
    (g.begin r draws).2.Paced ⟨g, r⟩ where
  policy := rfl
  stage := .asking (Nat.max_eq_right (Nat.le_add_right _ _))

theorem wake_le (h : c.Paced v) : c.wake ≤ v.limit := by
  unfold Call.wake Arrival.limit
  have hstage := h.stage
  generalize c.stage = stage at hstage
  cases hstage with
  | @asking w hw =>
    have hends := w.ends_le_limit
    exact Nat.le_trans (hw ▸ hends) (Nat.le_add_right _ _)
  | validating hx hs => exact Nat.le_trans hx.wake_le (Nat.add_le_add_right hs _)

theorem moved (h : c.Paced v) (hst : g.Stride c g' (.moved c')) (hnow : g.now ≤ c.wake) :
    c'.Paced v := by
  have hstage := h.stage
  cases hst with
  | @enter w _ permit hs =>
    rw [hs] at hstage
    rw [wake, hs] at hnow
    cases hstage with
    | asking hw =>
      have hx := Validation.paced_start g.now g.catalog c.request c.policy
      rw [h.policy] at hx
      refine ⟨h.policy, .validating ?_ (Nat.le_trans hnow (hw ▸ w.ends_le_limit))⟩
      rw [Call.validation, h.policy]
      exact hx
  | go hs hv =>
    rw [hs] at hstage
    rw [wake, hs] at hnow
    cases hstage with
    | validating hx hstart =>
      refine ⟨h.policy, .validating (hx.moved hv hnow) ?_⟩
      cases hv <;> exact hstart

theorem ended (h : c.Paced v) (hst : g.Stride c g' (.over r)) (hnow : g.now ≤ c.wake) :
    ∃ e, r = .evaluated e ∧ e.outcome.InTime v.met.policy := by
  have hstage := h.stage
  cases hst with
  | skip => exact ⟨_, rfl, Outcome.inTime_skipped _ _⟩
  | shed => exact ⟨_, rfl, Outcome.inTime_shed _ _⟩
  | finish hs hv =>
    rw [hs] at hstage
    rw [wake, hs] at hnow
    cases hstage with
    | validating hx => exact ⟨_, rfl, hx.finished c.request hv hnow⟩
  | overflow hs hv =>
    rw [hs] at hstage
    cases hstage with
    | validating hx => exact absurd hv hx.not_overflown

end Call.Paced

namespace GateSession

variable {s : GateSession} {g : Gate} {i : Nat} {v : Visit} {c : Call}

theorem Reached.paced (h : Reached g s) (hc : s.call? i = some (v, c)) : c.Paced v.toArrival :=
  h.induct_call (P := fun v c => c.Paced v) .begin (fun hc hnow hst => hc.moved hst hnow) i v c hc

end GateSession

end StockGate
