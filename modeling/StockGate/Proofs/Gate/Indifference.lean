import StockGate.Proofs.Gate.Records
import StockGate.Proofs.Likeness.Session

namespace StockGate

def CallStatus.result? : CallStatus → Option CallResult
  | .waiting _ => none
  | .over r => some r

/-- The refusal that a cart handler gets to know of. -/
def CallResult.rejection? : CallResult → Option Rejection
  | .evaluated e => e.verdict.rejection?
  | _ => none

theorem CallStatus.Twin.result? {strict : Prop} {status status' : CallStatus}
    (h : status.Twin strict status') :
    Option.Rel (CallResult.Akin strict) status.result? status'.result? := by
  cases h with
  | waiting => exact .none
  | ended hr => exact .some hr

theorem map_eq_of_forall₂ {α β : Type} {R : α → α → Prop} {f : α → β} {xs ys : List α}
    (h : List.Forall₂ R xs ys) (hf : ∀ x y, R x y → f y = f x) : ys.map f = xs.map f := by
  induction h with
  | nil => rfl
  | cons hxy _ ih => rw [List.map_cons, List.map_cons, hf _ _ hxy, ih]

/-- What a turn did and when: the breaker that it found and the one that it left, and what it asked
the catalog for. -/
def Turn.deed (t : Turn) : Nat × Nat × Breaker × Breaker × List String :=
  (t.number, t.before.now, t.before.breaker, t.after.breaker, t.lookups.map (·.product))

theorem Turn.Twin.deed {strict : Prop} {t t' : Turn} (h : t.Twin strict t') : t'.deed = t.deed := by
  have hproducts : t'.lookups.map (·.product) = t.lookups.map (·.product) := by
    unfold Turn.lookups lookupsSince
    rw [h.after.catalog.asked, h.before.catalog.asked, List.map_map, List.map_map]
    rfl
  rw [Turn.deed, Turn.deed, h.number, h.before.now, h.before.breaker, h.after.breaker, hproducts]

namespace GateSession

/-- Let policies differ in what they do about failures, and in nothing else. Then the calls of a
gate come to the same outcomes, the catalog is asked the same at the same times, and the breaker
goes the same way. Verdicts differ only where a failure is admitted under the one policy and refused
under the other, and telemetry differs only in what it says of that. -/
theorem lenience_shows_in_verdicts_only (g : Gate) (q : Policy) (steps steps' : List GateStep)
    (plans : List Plan) (hq : g.policy.Akin False q)
    (hsteps : List.Forall₂ (GateStep.Akin False) steps steps') :
    let g' := { g with policy := q }
    let s := run g steps
    let s' := run g' steps'
    List.Forall₂ (fun v v' => Option.Rel (CallResult.Akin False) v.status.result? v'.status.result?)
      s.visits s'.visits ∧
    s'.turns.map Turn.deed = s.turns.map Turn.deed ∧
    s'.gate.breaker = s.gate.breaker ∧
    s.gate.telemetry.Akin False s'.gate.telemetry ∧
    List.Forall₂ (fun x x' => x.1.Akin False x'.1 ∧ x'.2 = x.2) (g.callAll plans).2
      (g'.callAll plans).2 := by
  intro g' s s'
  have hg : g.Twin False g' :=
    ⟨rfl, hq, rfl, .refl .refl _, .refl .refl _, rfl, rfl, .refl False g.telemetry⟩
  have hs : s.Twin False s' := twin_run hg hsteps
  have hresults := hs.visits.imp fun v v' hv => hv.status.result?
  have hturns := map_eq_of_forall₂ hs.turns fun t t' ht => ht.deed
  exact ⟨hresults, hturns, hs.gate.breaker, hs.gate.telemetry, hg.callAll plans⟩

/-- The frail gate refuses what it would have admitted. -/
def harsh : Policy :=
  { frail.policy with failOpen := false }

theorem lenience_shows_in_verdicts_only_in_outage :
    ∃ e e', ((run frail (outage ++ [.replace frail.policy])).visits.map (·.status.result?))[0]? =
        some (some (.evaluated e)) ∧
      ((run { frail with policy := harsh } (outage ++ [.replace harsh])).visits.map
        (·.status.result?))[0]? = some (some (.evaluated e')) ∧
      e.verdict = .allow true ∧ e'.verdict = .rejectSystem ∧ e'.outcome = e.outcome := by
  have hq : frail.policy.Akin False harsh := .lenience false nofun
  have hsteps : List.Forall₂ (GateStep.Akin False) (outage ++ [.replace frail.policy])
      (outage ++ [.replace harsh]) :=
    List.rel_append (List.forall₂_same.mpr fun step _ => .same step) (.cons (.replace hq) .nil)
  obtain ⟨hresults, -⟩ := lenience_shows_in_verdicts_only frail harsh _ _ [] hq hsteps
  have hfirst := forall₂_getElem? hresults 0
  refine ⟨_, _, rfl, rfl, rfl, rfl, ?_⟩
  cases hfirst with
  | some hfirst =>
    cases hfirst with
    | some hakin =>
      cases hakin with
      | evaluated h => exact h.outcome

/-- Let two gates differ in the errors of their catalogs, each replaced by one of its class, in what
records say beside id and stock, and in the errors of their flag services. Then nothing differs that
a caller can see or a sink is told, and the breaker goes the same way. -/
theorem error_details_show_in_log_only (g : Gate) (catalog : Catalog) (flags : FlagService)
    (steps : List GateStep) (plans : List Plan) (hk : g.catalog.Twin LookupsAlike catalog)
    (hf : g.flags.Twin FlagsAlike flags) :
    let g' := { g with catalog, flags }
    let s := run g steps
    let s' := run g' steps
    s'.visits.map (·.status.result?) = s.visits.map (·.status.result?) ∧
    s'.visits.map (·.status.result?.bind CallResult.rejection?) =
      s.visits.map (·.status.result?.bind CallResult.rejection?) ∧
    s'.turns.map Turn.deed = s.turns.map Turn.deed ∧
    s'.gate.breaker = s.gate.breaker ∧
    s'.gate.telemetry = { s.gate.telemetry with log := s'.gate.telemetry.log } ∧
    (g'.callAll plans).2 = (g.callAll plans).2 := by
  intro g' s s'
  have hg : g.Twin True g' :=
    ⟨rfl, .refl True g.policy, rfl, hk, hf, rfl, rfl, .refl True g.telemetry⟩
  have hs : s.Twin True s' := twin_run hg (List.forall₂_same.mpr fun step _ => .same step)
  have hresult (v v' : Visit) (hv : v.Twin True v') : v'.status.result? = v.status.result? := by
    have hresult := hv.status.result?
    generalize v.status.result? = r at hresult
    generalize v'.status.result? = r' at hresult
    cases hresult with
    | none => rfl
    | some hr => rw [hr.eq_of_strict trivial]
  have hturns := map_eq_of_forall₂ hs.turns fun t t' ht => ht.deed
  refine ⟨map_eq_of_forall₂ hs.visits hresult, ?_, hturns, hs.gate.breaker,
    hs.gate.telemetry.eq_of_strict trivial, ?_⟩
  · apply map_eq_of_forall₂ hs.visits
    intro v v' hv
    rw [hresult v v' hv]
  · have hcalls := (hg.callAll plans).imp fun x x' hx =>
      (Prod.ext (hx.1.eq_of_strict trivial).symm hx.2.symm : x = x')
    rw [List.forall₂_eq_eq_eq] at hcalls
    exact hcalls.symm

/-- A catalog that fails as that of the frail gate does, but says so in other words. -/
def terse : Catalog where
  answer := fun i _ =>
    .after 1 (.error (if i = 1 then .unavailable 503 else .notFound "lamp"))

theorem error_details_show_in_log_only_in_outage :
    (run { watched with catalog := terse } outage).gate.telemetry.log ≠
        (run watched outage).gate.telemetry.log ∧
      (run { watched with catalog := terse } outage).gate.telemetry.memory 0 =
        (run watched outage).gate.telemetry.memory 0 ∧
      ((run watched outage).gate.telemetry.memory 0).spans.length = 3 := by
  have hk : watched.catalog.Twin LookupsAlike terse := by
    refine ⟨rfl, fun n _ => .after 1 (.failed ?_)⟩
    split <;> rfl
  obtain ⟨-, -, -, -, htelemetry, -⟩ :=
    error_details_show_in_log_only watched terse watched.flags outage [] hk (.refl .refl _)
  refine ⟨by decide, ?_, rfl⟩
  exact congrFun (congrArg Telemetry.memory htelemetry) 0

end GateSession

end StockGate
