import StockGate.Proofs.Gate.Isolation
import StockGate.Proofs.Gate.Retries
import StockGate.Proofs.Validation.Count

namespace StockGate

/-- The number of the lookup that is under way, or that follows the pause. -/
def Call.attempt (c : Call) : Nat :=
  match c.stage with
  | .asking _ => 0
  | .validating _ x => x.attempt

theorem Validation.Frugal.attempt_lt {x : Validation} {p : Policy} (h : x.Frugal) (hp : x.Paced p)
    (hk : p.KeepsCount p.timeout) : x.attempt < UInt32.size := by
  have hle := x.attempt_le
  rw [hp.policy] at hle
  apply hk.lt hle
  intro hmore
  have hspent := h.spent_lt hmore
  rw [Validation.plan, hp.policy, hp.deadline] at hspent
  exact Nat.lt_of_add_lt_add_left hspent

namespace Call.Frugal

variable {c : Call} {v : Arrival} {g g' : Gate} {e : Evaluation}

theorem attempt_lt (h : c.Frugal) (hp : c.Paced v)
    (hk : v.met.policy.KeepsCount v.met.policy.timeout) : c.attempt < UInt32.size := by
  have hstage := hp.stage
  unfold Call.attempt
  cases hs : c.stage with
  | asking => exact (by decide : 0 < UInt32.size)
  | validating permit x =>
    rw [hs] at hstage
    cases hstage with
    | validating hx => exact (h _ _ hs).attempt_lt hx hk

theorem attempts_lt (h : c.Frugal) (hp : c.Paced v)
    (hk : v.met.policy.KeepsCount v.met.policy.timeout)
    (hst : g.Stride c g' (.over (.evaluated e))) : e.outcome.attempts < UInt32.size := by
  have hlt := h.attempt_lt hp hk
  cases hst with
  | skip | shed => exact (by decide : 0 < UInt32.size)
  | finish hs hv =>
    rw [Call.attempt, hs] at hlt
    exact (hv.attempts c.request).1 ▸ hlt

end Call.Frugal

/-- If the policy keeps count of lookups, what the call has returned counts them in 32 bits. -/
def Ending.Counted (e : Ending) : Prop :=
  e.met.policy.KeepsCount e.met.policy.timeout →
    ∀ x, e.result = .evaluated x → x.outcome.attempts < UInt32.size

namespace GateSession

variable {s : GateSession} {g : Gate} {i : Nat} {v : Visit} {c : Call}

theorem Reached.ending_counted (h : Reached g s) (hc : s.call? i = some (v, c)) {e : Ending}
    (he : s.endingOf i v c ((s.gate.step c).2.status c) = some e) : e.Counted := by
  obtain ⟨g', hst⟩ := stride_of_endingOf he
  obtain ⟨r, -, rfl⟩ := endingOf_eq_some_iff.mp he
  rintro hk x rfl
  exact (h.frugal hc).attempts_lt (h.paced hc) hk hst

theorem endings_counted (g : Gate) (steps : List GateStep) : ∀ e ∈ endings g steps, e.Counted :=
  forall_endings (fun _ _ _ _ _ hr hc he => hr.ending_counted hc he)
    (fun _ _ _ _ _ _ he => nomatch he) steps

/-- What the clockwork makes of a call is how the call ends in some session. -/
theorem exists_ending_of_callAll {plans : List Plan} {x : CallResult × Nat}
    (hx : x ∈ (g.callAll plans).2) :
    ∃ steps, ∃ e ∈ endings g steps, e.met.policy = g.policy ∧ e.result = x.1 := by
  obtain ⟨s, ⟨steps, rfl⟩, hu, -, hs⟩ := Clockwork.attains_callAll g plans
  have hstatus : .over x.1 ∈ (run g steps).visits.map (·.status) :=
    hs.subset (List.mem_map_of_mem (f := fun x : CallResult × Nat => CallStatus.over x.1) hx)
  obtain ⟨v, hv, hover⟩ := List.mem_map.mp hstatus
  obtain ⟨i, hi⟩ := List.mem_iff_getElem?.mp hv
  have htally := tallied_run g steps
  obtain ⟨e, he, rfl⟩ := htally.complete i v x.1 hi hover
  obtain ⟨u, hu', hmet, hr⟩ := htally.ended e he
  obtain rfl := Option.some.inj (hi.symm.trans hu')
  refine ⟨steps, e, he, ?_, CallStatus.over.inj (hr.symm.trans hover)⟩
  rw [← hmet]
  exact hu.met v hv

end GateSession

/-- A gate with this policy, and a catalog that fails at once whenever it is asked. -/
def hopelessGate (p : Policy) : Gate where
  policy := p
  catalog := { answer := fun _ _ => .after 0 (.error (.unavailable 503)) }
  flags := .fixed true
  emitter := .disabled

theorem fate_hopeless (r : Request) (p : Policy) {f : Finding}
    (hf : (Trial.hopeless r p p.timeout).run.finding = .ok f) :
    ((hopelessGate p).begin r fun _ => 0).2.fate (hopelessGate p).catalog =
      .evaluated (((hopelessGate p).begin r fun _ => 0).2.evaluation f) := by
  have hsteady : (hopelessGate p).catalog.Steady := fun _ _ _ => rfl
  have hfate : (Trial.hopeless r p p.timeout).opening.2.fate (fun _ => 0) (hopelessGate p).catalog =
      .ok f := by
    rw [← hf]
    exact ((Validation.twin_refl True _).finding (hsteady.twin rfl) rfl)
  have hon : ((hopelessGate p).begin r fun _ => 0).2.fate (hopelessGate p).catalog =
      ((hopelessGate p).begin r fun _ => 0).2.conclude
        ((Trial.hopeless r p p.timeout).opening.2.fate (fun _ => 0) (hopelessGate p).catalog) :=
    rfl
  rw [hon, hfate]
  rfl

/-- Under a policy that does not keep count the gate's only call makes a lookup more than 32 bits can
count. -/
theorem callAll_hopeless (r : Request) {p : Policy} (hp : ¬ p.KeepsCount p.timeout) :
    ∃ e, ((hopelessGate p).callAll [{ request := r, draws := fun _ => 0 }]).2.map Prod.fst =
        [.evaluated e] ∧ e.outcome.attempts = UInt32.size := by
  have hreach : p.timeout ≤ clockReach :=
    Nat.le_trans (Nat.le_of_lt p.timeoutMs.toNat_lt_size) (by decide)
  obtain ⟨hmany, hfits⟩ := Policy.outruns_of_not_keepsCount hp
  obtain ⟨f, hf, hattempts⟩ := Trial.attempts_hopeless (r := r) hreach hfits
  have halone := Clockwork.callAll_alone (hopelessGate p) { request := r, draws := fun _ => 0 }
    (fun _ _ _ => rfl) rfl rfl rfl
  rw [fate_hopeless r p hf] at halone
  exact ⟨_, halone, hattempts.trans hmany⟩

namespace GateSession

/-- Just under the policies that keep count of lookups, every call that is not cancelled returns as
it should. That is no later than the flag's timeout and the policy's timeout after it came, with a
duration no longer than the policy's timeout, just as long if it timed out, and with a number of
lookups that 32 bits hold, as they do at all times. In every session the clock stops for a call
until it has gone on, which brings it nearer to its end; and so all calls that the clockwork makes
are over in the end. -/
theorem returns_in_time_iff (p : Policy) :
    (∀ (g : Gate) (steps : List GateStep),
      (∀ e ∈ endings g steps, e.met.policy = p → e.result ≠ .cancelled →
        e.time ≤ e.met.now + e.met.flag.timeout + p.timeout ∧
        ∃ x, e.result = .evaluated x ∧ x.outcome.attempts < UInt32.size ∧
          x.outcome.duration ≤ p.timeout ∧
          (x.outcome.errorKind? = some .timeout → x.outcome.duration = p.timeout)) ∧
      (∀ i v c, (run g steps).call? i = some (v, c) → v.met.policy = p →
        c.attempt < UInt32.size ∧ (run g steps).gate.now ≤ c.wake ∧
        c.wake ≤ v.met.now + v.met.flag.timeout + p.timeout ∧
        ((run g steps).gate.now = c.wake → ∀ u d,
          ((run g steps).step (.advance i)).call? i = some (u, d) → d.rank < c.rank)) ∧
      (g.policy = p → ∀ plans : List Plan, List.Forall₂
        (fun plan x => x.1 = .cancelled ∧ plan.cancelAfter ≠ none ∨
          x.2 ≤ g.now + plan.start + g.flag.timeout + p.timeout ∧
          ∃ e, x.1 = .evaluated e ∧ e.outcome.attempts < UInt32.size ∧
            e.outcome.duration ≤ p.timeout ∧
            (e.outcome.errorKind? = some .timeout → e.outcome.duration = p.timeout))
        plans (g.callAll plans).2)) ↔
      p.KeepsCount p.timeout := by
  constructor
  · intro hall
    by_contra hp
    obtain ⟨e, hcall, hattempts⟩ := callAll_hopeless oneLamp hp
    obtain ⟨-, -, hcalls⟩ := hall (hopelessGate p) []
    have hmet := hcalls rfl [{ request := oneLamp, draws := fun _ => 0 }]
    generalize ((hopelessGate p).callAll _).2 = results at hcall hmet
    cases hmet with
    | cons hx hrest =>
      cases hrest
      rcases hx with ⟨-, hcancelled⟩ | ⟨-, e', he, hlt, -⟩
      · exact hcancelled rfl
      · obtain rfl := CallResult.evaluated.inj (he.symm.trans (List.cons.inj hcall).1)
        exact absurd hattempts (Nat.ne_of_lt hlt)
  · intro hk g steps
    refine ⟨?_, ?_, ?_⟩
    · rintro e he rfl hne
      obtain ⟨htime, x, hx, hin⟩ := endings_in_time g steps e he hne
      exact ⟨htime, x, hx, endings_counted g steps e he hk x hx, hin.bounded, hin.exact⟩
    · rintro i v c hc rfl
      have hr := reached_run g steps
      refine ⟨(hr.frugal hc).attempt_lt (hr.paced hc) hk,
        hr.punctual _ (mem_wakes_of_call? hc), (hr.paced hc).wake_le, fun hdue u d hd => ?_⟩
      exact rank_lt_of_advance hc (Nat.le_of_eq hdue.symm) hd
    · rintro rfl plans
      apply forall₂_imp_of_mem (Clockwork.met_callAll g plans)
      rintro plan x hx (hcancelled | ⟨htime, e, he, hin⟩)
      · exact .inl hcancelled
      · obtain ⟨steps, y, hy, hpolicy, hresult⟩ := exists_ending_of_callAll hx
        have hlt := endings_counted g steps y hy (hpolicy ▸ hk) e (hresult.trans he)
        exact .inr ⟨htime, e, he, hlt, hin.bounded, hin.exact⟩

/-- A gate whose flag comes at the last moment, and whose catalog never answers. -/
def silent : Gate where
  catalog := { answer := fun _ _ => .never }
  flags := { answer := fun _ _ => .after 100 (.ok { value := true }) }
  emitter := .disabled

/-- A call that has to wait for as long as it can. -/
def longest : List GateStep :=
  [.arrive fiveOfOne fun _ => 0, .wait 1000, .advance 0, .wait 1000, .advance 0]

theorem returns_in_time_at_the_limit :
    ({} : Policy).KeepsCount ({} : Policy).timeout ∧
    ∃ e x, e ∈ endings silent longest ∧ e.met.policy = {} ∧ e.result = .evaluated x ∧
      e.time = e.met.now + e.met.flag.timeout + e.met.policy.timeout ∧
      x.outcome.errorKind? = some .timeout ∧ x.outcome.duration = 500 := by
  have hkeeps : ({} : Policy).KeepsCount ({} : Policy).timeout := by decide
  obtain ⟨hin, -, -⟩ := (returns_in_time_iff {}).mpr hkeeps silent longest
  have hmem : (endings silent longest)[0] ∈ endings silent longest := List.getElem_mem _
  have hresult : (endings silent longest)[0].result =
      .evaluated ⟨.allow true, ⟨"lamp", 5, .failed .timeout 500 1⟩⟩ := rfl
  obtain ⟨-, x, hx, -, -, hexact⟩ := hin _ hmem rfl (by rw [hresult]; nofun)
  obtain rfl := CallResult.evaluated.inj (hx.symm.trans hresult)
  refine ⟨hkeeps, _, _, hmem, rfl, hx, ?_, rfl, hexact rfl⟩
  decide

/-- Whatever a counter of 32 bits shows, the retries go on at once after a lookup that fails at
once, and so a call for which every lookup does makes more than the counter can count. -/
theorem no_count_ends_retries :
    (Trial.relentless 0).errors = [] ∧
      (∀ (shown : UInt32) (draw : Nat),
        (RetryPlan.ofPolicy (Trial.relentless 0)).next shown.toNat (.unavailable 503)
          (Trial.relentless 0).timeout draw = .ok (some 0)) ∧
      ∃ e, ((hopelessGate (Trial.relentless 0)).callAll
          [{ request := oneLamp, draws := fun _ => 0 }]).2.map Prod.fst = [.evaluated e] ∧
        e.outcome.attempts = UInt32.size := by
  refine ⟨by decide, fun shown draw => ?_, callAll_hopeless oneLamp (by decide)⟩
  exact RetryPlan.next_eq_zero rfl rfl (Nat.le_of_lt_succ shown.toNat_lt_size) (by decide) draw

end GateSession

end StockGate
