import StockGate.Proofs.Gate.Session

namespace StockGate

def Arrival.flagReply (v : Arrival) : Reply FlagAnswer :=
  v.met.flags.answer v.met.flags.asked.length (v.met.flag.question v.request)

/-- In time the flag's service says that validation is on. -/
def Arrival.FlagOn (v : Arrival) : Prop :=
  ∃ delay answer, v.flagReply = .after delay (.ok answer) ∧ delay ≤ v.met.flag.timeout ∧
    answer.value = true

def Arrival.flagWait (v : Arrival) : Awaited FlagAnswer :=
  .start v.met.now v.flagReply (v.met.now + v.met.flag.timeout)

theorem FlagGate.enabled_eq_true_iff {a : Option FlagAnswer} :
    FlagGate.enabled a = true ↔ ∃ answer, a = some (.ok answer) ∧ answer.value = true := by
  unfold enabled
  split
  · simp
  · next h =>
    constructor
    · nofun
    · rintro ⟨answer, rfl, -⟩
      exact absurd rfl (h answer)

theorem Arrival.enabled_iff (v : Arrival) :
    FlagGate.enabled v.flagWait.answer? = true ↔ v.FlagOn := by
  rw [FlagGate.enabled_eq_true_iff]
  constructor
  · rintro ⟨answer, ha, hon⟩
    obtain ⟨delay, hr, hle⟩ := Awaited.answer?_start_eq_some_iff.mp ha
    exact ⟨delay, answer, hr, by omega, hon⟩
  · rintro ⟨delay, answer, hr, hle, hon⟩
    exact ⟨answer, Awaited.answer?_start_eq_some_iff.mpr ⟨delay, hr, by omega⟩, hon⟩

/-- What the call returns when it ends with this finding. -/
def Arrival.evaluation (v : Arrival) (f : Finding) : Evaluation :=
  ⟨decideOn (.of v.request f) v.met.policy, .of v.request f⟩

/-- The call goes on with the request and the policy of its arrival. -/
structure Call.From (c : Call) (v : Arrival) : Prop where
  request : c.request = v.request
  policy : c.policy = v.met.policy

/-- The turns of a call that has come neither to the breaker nor to the catalog. -/
structure Idle (ts : List Turn) : Prop where
  lookups : ts.flatMap Turn.lookups = []
  told : ts.filterMap Turn.answer? = []
  breaker : ∀ t ∈ ts, t.after.breaker = t.before.breaker

/-- The turns of a call that the breaker let through at `time`. -/
structure Admitted (v : Arrival) (ts : List Turn) (time : Nat) (permit : Permit) : Prop where
  flag : v.FlagOn
  told : ts.filterMap Turn.answer? = [(time, .granted permit)]
  lookups : ∀ l ∈ ts.flatMap Turn.lookups, l.product = v.request.product

/-- What a call has done, for each status that it can have. -/
inductive Account (v : Arrival) (ts : List Turn) : CallStatus → Prop
  | asking {c : Call} (hc : c.From v) (hs : c.stage = .asking v.flagWait) (hi : Idle ts) :
      Account v ts (.waiting c)
  | validating {c : Call} {permit : Permit} {x : Validation} {time : Nat} (hc : c.From v)
      (hs : c.stage = .validating permit x) (ha : Admitted v ts time permit)
      (hr : x.request = v.request) (hd : x.deadline.time = time + v.met.policy.timeout)
      (hx : x.stage.After (time + v.met.policy.timeout) (ts.flatMap Turn.lookups)) :
      Account v ts (.waiting c)
  | skipped (hf : ¬ v.FlagOn) (hi : Idle ts) :
      Account v ts (.over (.evaluated (v.evaluation .skipped)))
  | shed {time : Nat} {state : CircuitState} (hf : v.FlagOn)
      (ht : ts.filterMap Turn.answer? = [(time, .refused state)])
      (hl : ts.flatMap Turn.lookups = []) :
      Account v ts (.over (.evaluated (v.evaluation .shed)))
  | found {time : Nat} {permit : Permit} {l : LookupMade} {f : Finding}
      (ha : Admitted v ts time permit) (hl : (ts.flatMap Turn.lookups).getLast? = some l)
      (hf : f.Shows l v.request.product (time + v.met.policy.timeout)) :
      Account v ts (.over (.evaluated (v.evaluation f)))
  | gone {r : CallResult} (h : ∀ e, r ≠ .evaluated e) : Account v ts (.over r)

variable {g g' : Gate} {c : Call} {a : CallAdvance} {v : Arrival} {ts : List Turn} {t : Turn}

theorem flatMap_lookups_append (ts : List Turn) (t : Turn) :
    (ts ++ [t]).flatMap Turn.lookups = ts.flatMap Turn.lookups ++ t.lookups := by
  rw [List.flatMap_append, List.flatMap_singleton]

theorem filterMap_concat {α β : Type} (f : α → Option β) (l : List α) (x : α) :
    (l ++ [x]).filterMap f = l.filterMap f ++ (f x).toList := by
  rw [List.filterMap_append]
  cases hx : f x <;> simp [hx]

theorem filterMap_answer?_of_none (ht : t.told = none) :
    (ts ++ [t]).filterMap Turn.answer? = ts.filterMap Turn.answer? := by
  rw [filterMap_concat, Turn.answer?, ht]
  exact List.append_nil _

theorem Turn.lookups_eq_nil (h : t.after.catalog = t.before.catalog) : t.lookups = [] := by
  rw [lookups, h, lookupsSince_self]

theorem idle_nil : Idle [] :=
  ⟨rfl, rfl, fun _ h => absurd h List.not_mem_nil⟩

theorem Idle.append (h : Idle ts) (ht : t.told = none)
    (hc : t.after.catalog = t.before.catalog) (hb : t.after.breaker = t.before.breaker) :
    Idle (ts ++ [t]) where
  lookups := by rw [flatMap_lookups_append, h.lookups, t.lookups_eq_nil hc, List.append_nil]
  told := (filterMap_answer?_of_none ht).trans h.told
  breaker := by
    intro u hu
    rcases List.mem_append.mp hu with hu | hu
    · exact h.breaker u hu
    · rw [List.mem_singleton.mp hu]
      exact hb

theorem Admitted.append {permit : Permit} {time : Nat} {new : List LookupMade}
    (h : Admitted v ts time permit) (ht : t.told = none) (hl : t.lookups = new)
    (hnew : ∀ l ∈ new, l.product = v.request.product) : Admitted v (ts ++ [t]) time permit where
  flag := h.flag
  told := (filterMap_answer?_of_none ht).trans h.told
  lookups := by
    rw [flatMap_lookups_append, hl]
    intro l hmem
    rcases List.mem_append.mp hmem with hmem | hmem
    · exact h.lookups l hmem
    · exact hnew l hmem

namespace Gate

theorem told?_of_validating {permit : Permit} {x : Validation}
    (hs : c.stage = .validating permit x) : g.told? c = none := by
  rw [told?, hs]

theorem told?_of_early {w : Awaited FlagAnswer} (hs : c.stage = .asking w)
    (hnow : g.now < w.ends) : g.told? c = none := by
  simp only [told?, hs]
  exact if_neg fun h => absurd h.1 (Nat.not_le_of_lt hnow)

theorem told?_of_off {w : Awaited FlagAnswer} (hs : c.stage = .asking w)
    (hoff : FlagGate.enabled w.answer? = false) : g.told? c = none := by
  simp only [told?, hs, hoff]
  exact if_neg fun h => absurd h.2 nofun

theorem told?_of_on {w : Awaited FlagAnswer} (hs : c.stage = .asking w) (hnow : w.ends ≤ g.now)
    (hon : FlagGate.enabled w.answer? = true) :
    g.told? c = some (g.breaker.enter g.now c.policy).2.1 := by
  simp only [told?, hs]
  exact if_pos ⟨hnow, hon⟩

end Gate

theorem Idle.told_append (h : Idle ts) (i : Nat) (g' : Gate) {admission : Admission}
    (ht : g.told? c = some admission) :
    (ts ++ [(⟨i, g, g', g.told? c⟩ : Turn)]).filterMap Turn.answer? = [(g.now, admission)] := by
  rw [filterMap_concat, h.told, Turn.answer?, ht]
  rfl

theorem Call.From.evaluation_eq (h : c.From v) (f : Finding) : c.evaluation f = v.evaluation f := by
  rw [Call.evaluation, h.request, h.policy, Arrival.evaluation]

namespace Account

theorem advance_asking (hc : c.From v) (hs : c.stage = .asking v.flagWait) (hi : Idle ts) (i : Nat)
    (hst : g.Stride c g' a) : Account v (ts ++ [⟨i, g, g', g.told? c⟩]) (a.status c) := by
  -- The end of the wait for the flag is the one step that can come to the breaker.
  cases hst with
  | await hs' hnow => exact .asking hc hs (hi.append (Gate.told?_of_early hs' hnow) rfl rfl)
  | skip hs' hnow hoff hg =>
    obtain rfl := CallStage.asking.inj (hs.symm.trans hs')
    have hf : ¬ v.FlagOn := by
      rw [← v.enabled_iff, hoff]
      nofun
    rw [hc.evaluation_eq]
    exact .skipped hf (hi.append (Gate.told?_of_off hs hoff) (Gate.catalog_eq_of_quiet hg)
      (Gate.breaker_eq_of_quiet hg))
  | shed hs' hnow hon ha hg =>
    obtain rfl := CallStage.asking.inj (hs.symm.trans hs')
    have ht := hi.told_append i g' (Gate.told?_of_on hs hnow hon)
    rw [ha] at ht
    have hcat : g'.catalog = g.catalog := (Gate.catalog_eq_of_quiet hg :)
    rw [hc.evaluation_eq]
    apply Account.shed (v.enabled_iff.mp hon) ht
    rw [flatMap_lookups_append, hi.lookups, Turn.lookups_eq_nil hcat]
    rfl
  | enter hs' hnow hon ha hg =>
    obtain rfl := CallStage.asking.inj (hs.symm.trans hs')
    have ht := hi.told_append i g' (Gate.told?_of_on hs hnow hon)
    rw [ha] at ht
    have hcat : g'.catalog = (g.catalog.ask c.request.product).1 :=
      (Gate.catalog_eq_of_quiet hg :)
    have hl : (ts ++ [(⟨i, g, g', g.told? c⟩ : Turn)]).flatMap Turn.lookups =
        [⟨g.now, c.request.product, (g.catalog.ask c.request.product).2⟩] := by
      rw [flatMap_lookups_append, hi.lookups, Turn.lookups, hcat, lookupsSince_ask]
      rfl
    have hmine : ∀ l ∈ (ts ++ [(⟨i, g, g', g.told? c⟩ : Turn)]).flatMap Turn.lookups,
        l.product = v.request.product := by
      rw [hl]
      intro l hmem
      rw [List.mem_singleton.mp hmem, hc.request]
    refine .validating ⟨hc.request, hc.policy⟩ rfl ⟨v.enabled_iff.mp hon, ht, hmine⟩ hc.request
      ?_ ?_
    · rw [← hc.policy]
      rfl
    · rw [hl, ← hc.policy]
      exact .asked (l := ⟨g.now, _, _⟩) rfl (Nat.le_add_right _ _)
  | rest hs' | go hs' | finish hs' | overflow hs' => cases hs.symm.trans hs'

theorem advance_validating {permit : Permit} {x : Validation} {time : Nat} (hc : c.From v)
    (hs : c.stage = .validating permit x) (ha : Admitted v ts time permit)
    (hr : x.request = v.request) (hd : x.deadline.time = time + v.met.policy.timeout)
    (hx : x.stage.After (time + v.met.policy.timeout) (ts.flatMap Turn.lookups))
    (hnow : g.now ≤ c.wake) (i : Nat) (hst : g.Stride c g' a) :
    Account v (ts ++ [⟨i, g, g', g.told? c⟩]) (a.status c) := by
  have ht : g.told? c = none := Gate.told?_of_validating hs
  have hl {catalog : Catalog} (hcat : g'.catalog = catalog) :
      Turn.lookups ⟨i, g, g', g.told? c⟩ = lookupsSince g.now g.catalog catalog := by
    rw [Turn.lookups, hcat]
  -- The account counts the deadline from the admission, the validation has it as a field.
  rw [← hd] at hx
  cases hst with
  | await hs' | skip hs' | shed hs' | enter hs' => cases hs.symm.trans hs'
  | rest hs' hv hg =>
    obtain ⟨rfl, rfl⟩ := CallStage.validating.inj (hs.symm.trans hs')
    cases hv with
    | wait hwait =>
      have hl := hl (Gate.catalog_eq_of_quiet hg)
      rw [lookupsSince_self] at hl
      refine .validating hc hs (ha.append ht hl nofun) hr hd ?_
      rw [flatMap_lookups_append, hl, List.append_nil, ← hd]
      exact hx
  | go hs' hv hg =>
    obtain ⟨rfl, rfl⟩ := CallStage.validating.inj (hs.symm.trans hs')
    rw [Call.wake, hs] at hnow
    obtain ⟨hr', hd', hnew, hx'⟩ := hv.after hx hnow
    have hl := hl (Gate.catalog_eq_of_quiet hg)
    rw [hr] at hnew
    refine .validating ⟨hc.request, hc.policy⟩ rfl (ha.append ht hl hnew)
      (hr'.trans hr) (by rw [hd', hd]) ?_
    rw [flatMap_lookups_append, hl, ← hd]
    exact hx'
  | finish hs' hv hg =>
    obtain ⟨rfl, rfl⟩ := CallStage.validating.inj (hs.symm.trans hs')
    obtain ⟨rfl, l, hlast, hshow⟩ := hv.shows hx
    have hl := hl (Gate.catalog_eq_of_quiet hg)
    rw [lookupsSince_self] at hl
    rw [hr, hd] at hshow
    rw [hc.evaluation_eq]
    refine .found (ha.append ht hl nofun) ?_ hshow
    rw [flatMap_lookups_append, hl, List.append_nil, hlast]
  | overflow => exact .gone fun _ h => CallResult.noConfusion h

theorem advance (h : Account v ts (.waiting c)) (hnow : g.now ≤ c.wake) (i : Nat)
    (hst : g.Stride c g' a) : Account v (ts ++ [⟨i, g, g', g.told? c⟩]) (a.status c) := by
  cases h with
  | asking hc hs hi => exact advance_asking hc hs hi i hst
  | validating hc hs ha hr hd hx => exact advance_validating hc hs ha hr hd hx hnow i hst

end Account

theorem decideOn_checked (r : Request) (p : Policy) (q : UInt32) (duration attempts : Nat) :
    decideOn (.of r (.checked q duration attempts)) p =
      if r.quantity ≤ q then .allow false else .rejectBusiness ⟨r.product, r.quantity, q⟩ := by
  by_cases h : r.quantity ≤ q <;>
    simp [decideOn, Outcome.errorKind?, Outcome.available?, Outcome.of, h]

theorem decideOn_failed (r : Request) (p : Policy) (kind : ErrorKind)
    (duration attempts : Nat) :
    decideOn (.of r (.failed kind duration attempts)) p = .ofFailure p := by
  cases kind <;> rfl

theorem Verdict.ofFailure_ne_rejectBusiness (p : Policy) (shortage : Shortage) :
    Verdict.ofFailure p ≠ .rejectBusiness shortage := by
  unfold Verdict.ofFailure
  split <;> nofun

namespace Finding.Shows

variable {f : Finding} {l : LookupMade} {r : Request} {p : Policy} {deadline : Nat}

theorem reject_iff (h : f.Shows l r.product deadline) (shortage : Shortage) :
    decideOn (.of r f) p = .rejectBusiness shortage ↔
      ∃ q, l.InStock r.product deadline q ∧ q < r.quantity ∧
        shortage = ⟨r.product, r.quantity, q⟩ := by
  cases h with
  | @checked q _ _ hq =>
    rw [decideOn_checked]
    constructor
    · intro hd
      split at hd
      · cases hd
      · next hlt => exact ⟨q, hq, UInt32.not_le.mp hlt, (Verdict.rejectBusiness.inj hd).symm⟩
    · rintro ⟨q', hq', hlt, rfl⟩
      obtain rfl := hq.eq hq'
      rw [if_neg (UInt32.not_le.mpr hlt)]
  | failed hq =>
    rw [decideOn_failed]
    constructor
    · intro hd
      exact absurd hd (Verdict.ofFailure_ne_rejectBusiness p shortage)
    · rintro ⟨q, hq', -, -⟩
      exact absurd hq' (hq q)

theorem allow (h : f.Shows l r.product deadline) (q : UInt32)
    (hq : l.InStock r.product deadline q) (hle : r.quantity ≤ q) :
    decideOn (.of r f) p = .allow false := by
  cases h with
  | checked hq' =>
    obtain rfl := hq.eq hq'
    rw [decideOn_checked, if_pos hle]
  | failed hno => exact absurd hq (hno q)

theorem failure (h : f.Shows l r.product deadline)
    (hno : ∀ q, ¬ l.InStock r.product deadline q) : decideOn (.of r f) p = .ofFailure p := by
  cases h with
  | checked hq => exact absurd hq (hno _)
  | failed => exact decideOn_failed r p _ _ _

end Finding.Shows

namespace GateSession

variable {s : GateSession} {i : Nat} {v : Visit}

/-- Every call has done what its status says. -/
def Accounted (s : GateSession) : Prop :=
  ∀ i v, s.visits[i]? = some v → Account v.toArrival (s.turnsOf i) v.status

theorem Accounted.turn (h : s.Accounted) {told : Option Admission} {status : CallStatus}
    (ha : Account v.toArrival (s.turnsOf i ++ [⟨i, s.gate, g', told⟩]) status) :
    (s.turn i v g' status told).Accounted := by
  intro j u hu
  rcases visit_turn hu with ⟨rfl, rfl⟩ | ⟨hj, hu⟩
  · rw [turnsOf_turn_self]
    exact ha
  · rw [turnsOf_turn_of_ne hj]
    exact h j u hu

theorem Accounted.arrive (h : s.Accounted) (hn : s.Numbered) (r : Request)
    (draws : Nat → Nat) : (s.step (.arrive r draws)).Accounted := by
  intro i u hu
  rcases visit_arrive hu with ⟨rfl, rfl⟩ | ⟨hlt, hu⟩
  · rw [turnsOf_arrive_self hn]
    exact .asking ⟨rfl, rfl⟩ rfl (idle_nil.append rfl rfl rfl)
  · rw [turnsOf_arrive_of_lt hlt]
    exact h i u hu

theorem Reached.accounted {g : Gate} (h : Reached g s) : s.Accounted := by
  apply h.induct
  case start => exact fun i v hv => absurd hv nofun
  case arrive => exact fun s r draws hr ih => ih.arrive hr.numbered r draws
  case advance =>
    intro s i v c hr ih hc
    obtain ⟨hv, hw⟩ := call?_eq_some_iff.mp hc
    have ha := ih i v hv
    rw [hw] at ha
    exact ih.turn (ha.advance (hr.punctual _ (mem_wakes_of_call? hc)) i (s.gate.stride c))
  case cancel => exact fun s i v c _ ih _ => ih.turn (.gone nofun)
  case wait => exact fun s ms _ ih => ih
  case replace => exact fun s p _ ih => ih

/-- The verdict on a call: where the flag is not on in time validation is skipped, where the breaker
refuses the call is shed, and otherwise the last lookup decides. -/
theorem flag_breaker_stock_decide (g : Gate) (steps : List GateStep) (i : Nat) (v : Visit)
    (e : Evaluation) (hv : (run g steps).visits[i]? = some v)
    (he : v.status = .over (.evaluated e)) :
    (¬ v.FlagOn →
      e = ⟨.allow false, .of v.request .skipped⟩ ∧
      (run g steps).lookupsOf i = [] ∧
      (run g steps).toldOf i = [] ∧
      ∀ t ∈ (run g steps).turnsOf i, t.after.breaker = t.before.breaker) ∧
    (v.FlagOn → ∃ time admission, (run g steps).toldOf i = [(time, admission)] ∧
      (∀ state, admission = .refused state →
        e = ⟨.ofFailure v.met.policy, .of v.request .shed⟩ ∧
        (run g steps).lookupsOf i = []) ∧
      (∀ permit, admission = .granted permit →
        ∃ l, ((run g steps).lookupsOf i).getLast? = some l ∧
          (∀ l' ∈ (run g steps).lookupsOf i, l'.product = v.request.product) ∧
          (∀ shortage, e.verdict = .rejectBusiness shortage ↔
            ∃ q, l.InStock v.request.product (time + v.met.policy.timeout) q ∧
              q < v.request.quantity ∧
              shortage = ⟨v.request.product, v.request.quantity, q⟩) ∧
          (∀ q, l.InStock v.request.product (time + v.met.policy.timeout) q →
            v.request.quantity ≤ q → e.verdict = .allow false) ∧
          ((∀ q, ¬ l.InStock v.request.product (time + v.met.policy.timeout) q) →
            e.verdict = .ofFailure v.met.policy))) := by
  have ha := (reached_run g steps).accounted i v hv
  rw [he] at ha
  cases ha with
  | skipped hf hi =>
    refine ⟨fun _ => ⟨rfl, hi.lookups, hi.told, hi.breaker⟩, ?_⟩
    exact fun hon => absurd hon hf
  | @shed time state hf ht hl =>
    refine ⟨fun hoff => absurd hf hoff, fun _ => ⟨time, .refused state, ht, ?_, nofun⟩⟩
    exact fun _ _ => ⟨rfl, hl⟩
  | @found time permit l f ha hl hf =>
    refine ⟨fun hoff => absurd ha.flag hoff, ?_⟩
    refine fun _ => ⟨time, .granted permit, ha.told, nofun, fun _ _ => ?_⟩
    exact ⟨l, hl, ha.lookups, hf.reject_iff, hf.allow, hf.failure⟩
  | gone h => exact absurd rfl (h e)

/-- A gate whose catalog has three of every product, and says so after half a second. -/
def scarce : Gate where
  catalog :=
    { answer := fun _ product =>
        .after 500 (.ok { id := product, stock := some { schemaVersion := 1, available := 3 } }) }
  flags := .fixed true
  emitter := .disabled

def fiveOfOne : Request where
  product := "lamp"
  quantity := 5
  caller := { correlationId := ⟨0⟩ }
  product_not_blank := lamp_not_blank
  quantity_ne_zero := by decide

/-- A call that gets its answer at the very deadline. -/
def lastMoment : List GateStep :=
  [.arrive fiveOfOne fun _ => 0, .advance 0, .advance 0, .wait 500, .advance 0]

theorem flag_breaker_stock_decide_at_deadline :
    ∃ v e, (run scarce lastMoment).visits[0]? = some v ∧ v.status = .over (.evaluated e) ∧
      v.FlagOn ∧ e.verdict = .rejectBusiness ⟨"lamp", 5, 3⟩ := by
  refine ⟨_, _, rfl, rfl, ?_, ?_⟩
  · exact ⟨0, { value := true }, rfl, Nat.zero_le _, rfl⟩
  · have h := flag_breaker_stock_decide scarce lastMoment 0 _ _ rfl rfl
    obtain ⟨time, admission, ht, -, hg⟩ := h.2 ⟨0, { value := true }, rfl, Nat.zero_le _, rfl⟩
    cases ht
    obtain ⟨l, hl, -, hreject, -, -⟩ := hg _ rfl
    cases hl
    refine (hreject _).mpr ⟨3, ?_, by decide, rfl⟩
    exact ⟨500, _, _, rfl, Nat.le_refl 500, rfl, rfl, rfl, rfl⟩

end GateSession

end StockGate
