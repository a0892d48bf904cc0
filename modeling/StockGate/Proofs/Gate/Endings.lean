import StockGate.Proofs.Gate.Chronicle

namespace StockGate

/-- A call that is over: when that came, with what permit in hand, and with what result. -/
structure Ending extends Arrival where
  number : Nat
  time : Nat
  permit : Option Permit
  result : CallResult

structure Answer extends Arrival where
  evaluation : Evaluation

/-- What the call returned, unless it was cancelled. -/
def Ending.answer? (e : Ending) : Option Answer :=
  match e.result with
  | .evaluated x => some ⟨e.toArrival, x⟩
  | _ => none

namespace GateSession

variable {α : Type} {s s' : GateSession} {g g' : Gate} {i : Nat} {v : Visit} {c : Call}
  {status : CallStatus} {told : Option Admission} {step : GateStep} {es : List Ending}

/-- What can be noted of the steps of a run, in order. -/
def collect (f : GateSession → GateStep → Option α) (g : Gate) (steps : List GateStep) : List α :=
  (steps.foldl (fun x step => (x.1.step step, x.2 ++ (f x.1 step).toList))
    (({ gate := g }, []) : GateSession × List α)).2

theorem collect_append (f : GateSession → GateStep → Option α) (g : Gate)
    (steps : List GateStep) (step : GateStep) :
    collect f g (steps ++ [step]) = collect f g steps ++ (f (run g steps) step).toList := by
  have hrun : (steps.foldl (fun x step => (x.1.step step, x.2 ++ (f x.1 step).toList))
      (({ gate := g }, []) : GateSession × List α)).1 = run g steps :=
    (List.foldl_hom Prod.fst fun _ _ => rfl).symm
  rw [collect, List.foldl_append, List.foldl_cons, List.foldl_nil, hrun]
  rfl

/-- The end of the call with this number, if its turn has left it over. -/
def endingOf (s : GateSession) (i : Nat) (v : Visit) (c : Call) : CallStatus → Option Ending
  | .over r =>
    some { v.toArrival with number := i, time := s.gate.now, permit := c.permit?, result := r }
  | .waiting _ => none

/-- The end of a call that a step brings about, if it does. -/
def ending? (s : GateSession) : GateStep → Option Ending
  | .advance i =>
    match s.call? i with
    | some (v, c) => s.endingOf i v c ((s.gate.step c).2.status c)
    | none => none
  | .cancel i =>
    match s.call? i with
    | some (v, c) => s.endingOf i v c (.over .cancelled)
    | none => none
  | _ => none

def endings (g : Gate) (steps : List GateStep) : List Ending :=
  collect ending? g steps

inductive Happens (s : GateSession) : GateStep → GateSession → Prop
  | arrive (r : Request) (draws : Nat → Nat) :
      Happens s (.arrive r draws) (s.step (.arrive r draws))
  | advance {i : Nat} {v : Visit} {c : Call} (hc : s.call? i = some (v, c)) :
      Happens s (.advance i)
        (s.turn i v (s.gate.step c).1 ((s.gate.step c).2.status c) (s.gate.told? c))
  | cancel {i : Nat} {v : Visit} {c : Call} (hc : s.call? i = some (v, c)) :
      Happens s (.cancel i) (s.turn i v (s.gate.cancel c) (.over .cancelled) none)
  /-- There is no such call, or it is over. -/
  | miss {step : GateStep} {i : Nat} (hs : step = .advance i ∨ step = .cancel i)
      (hc : s.call? i = none) : Happens s step s
  | wait (ms : Nat) : Happens s (.wait ms) (s.step (.wait ms))
  | replace (p : Policy) : Happens s (.replace p) (s.step (.replace p))

theorem happens (s : GateSession) (step : GateStep) : s.Happens step (s.step step) := by
  cases step with
  | arrive r draws => exact .arrive r draws
  | advance i =>
    cases hc : s.call? i with
    | none =>
      simp only [GateSession.step, hc]
      exact .miss (.inl rfl) hc
    | some x =>
      simp only [GateSession.step, hc]
      exact .advance hc
  | cancel i =>
    cases hc : s.call? i with
    | none =>
      simp only [GateSession.step, hc]
      exact .miss (.inr rfl) hc
    | some x =>
      simp only [GateSession.step, hc]
      exact .cancel hc
  | wait ms => exact .wait ms
  | replace p => exact .replace p

/-- What holds of a session and of what has been noted, at first and after every step, holds
whatever the run. -/
theorem collect_induct {f : GateSession → GateStep → Option α} {P : GateSession → List α → Prop}
    (start : P { gate := g } [])
    (step : ∀ s xs step s', Reached g s → P s xs → s.Happens step s' →
      P s' (xs ++ (f s step).toList)) (steps : List GateStep) :
    P (run g steps) (collect f g steps) := by
  induction steps using List.reverseRecOn with
  | nil => exact start
  | append_singleton steps last ih =>
    rw [run_append, collect_append]
    exact step _ _ last _ (reached_run g steps) ih (happens _ last)

theorem ending?_advance (hc : s.call? i = some (v, c)) :
    s.ending? (.advance i) = s.endingOf i v c ((s.gate.step c).2.status c) := by
  simp only [ending?, hc]

theorem ending?_cancel (hc : s.call? i = some (v, c)) :
    s.ending? (.cancel i) = s.endingOf i v c (.over .cancelled) := by
  simp only [ending?, hc]

theorem ending?_miss (hs : step = .advance i ∨ step = .cancel i) (hc : s.call? i = none) :
    s.ending? step = none := by
  rcases hs with rfl | rfl <;> simp only [ending?, hc]

theorem endingOf_eq_some_iff {e : Ending} :
    s.endingOf i v c status = some e ↔
      ∃ r, status = .over r ∧
        e = { v.toArrival with
          number := i, time := s.gate.now, permit := c.permit?, result := r } := by
  cases status with
  | waiting d => simp [endingOf]
  | _ r => simp [endingOf, eq_comm]

theorem endingOf_eq_some {e : Ending} (he : s.endingOf i v c status = some e) :
    e.number = i ∧ e.time = s.gate.now ∧ e.toArrival = v.toArrival ∧ status = .over e.result := by
  obtain ⟨r, hr, rfl⟩ := endingOf_eq_some_iff.mp he
  exact ⟨rfl, rfl, rfl, hr⟩

theorem stride_of_endingOf {e : Ending}
    (he : s.endingOf i v c ((s.gate.step c).2.status c) = some e) :
    ∃ g', s.gate.Stride c g' (.over e.result) := by
  obtain ⟨-, -, -, hr⟩ := endingOf_eq_some he
  have hst := s.gate.stride c
  generalize (s.gate.step c).2 = a at hst hr
  cases a with
  | waiting | moved => cases hr
  | _ r =>
    obtain rfl := CallStatus.over.inj hr
    exact ⟨_, hst⟩

/-- What holds of every call when it ends holds of all that have ended. -/
theorem forall_endings {P : Ending → Prop}
    (advance : ∀ s i v c e, Reached g s → s.call? i = some (v, c) →
      s.endingOf i v c ((s.gate.step c).2.status c) = some e → P e)
    (cancel : ∀ (a : Arrival) number time permit, P ⟨a, number, time, permit, .cancelled⟩)
    (steps : List GateStep) : ∀ e ∈ endings g steps, P e := by
  apply collect_induct (f := ending?) (P := fun _ es => ∀ e ∈ es, P e)
  case start => exact fun e he => absurd he List.not_mem_nil
  case step =>
    intro s es step s' hr ih hs e he
    rcases List.mem_append.mp he with he | he
    · exact ih e he
    · have he := Option.mem_toList.mp he
      cases hs with
      | arrive | wait | replace => cases he
      | advance hc =>
        rw [ending?_advance hc] at he
        exact advance s _ _ _ e hr hc he
      | cancel hc =>
        rw [ending?_cancel hc] at he
        obtain ⟨r, hr, rfl⟩ := endingOf_eq_some_iff.mp he
        obtain rfl := CallStatus.over.inj hr
        exact cancel _ _ _ _
      | miss hs hc =>
        rw [ending?_miss hs hc] at he
        cases he

/-- The list holds just the calls that are over, each of them once, and in order of time. -/
structure Tallied (s : GateSession) (es : List Ending) : Prop where
  nodup : (es.map (·.number)).Nodup
  sorted : es.Pairwise (·.time ≤ ·.time)
  past : ∀ e ∈ es, e.time ≤ s.gate.now
  ended : ∀ e ∈ es, ∃ v, s.visits[e.number]? = some v ∧ v.toArrival = e.toArrival ∧
    v.status = .over e.result
  complete : ∀ i v r, s.visits[i]? = some v → v.status = .over r → ∃ e ∈ es, e.number = i

namespace Tallied

theorem arrive (h : s.Tallied es) (r : Request) (draws : Nat → Nat) :
    (s.step (.arrive r draws)).Tallied es where
  nodup := h.nodup
  sorted := h.sorted
  past := h.past
  ended := by
    intro e he
    obtain ⟨v, hv, ha, hr⟩ := h.ended e he
    have hlt := (List.getElem?_eq_some_iff.mp hv).1
    exact ⟨v, (List.getElem?_append_left hlt).trans hv, ha, hr⟩
  complete := by
    intro i v res hv hr
    rcases visit_arrive hv with ⟨-, rfl⟩ | ⟨-, hv⟩
    · cases hr
    · exact h.complete i v res hv hr

theorem number_ne (h : s.Tallied es) (hc : s.call? i = some (v, c)) : ∀ e ∈ es, e.number ≠ i := by
  obtain ⟨hv, hw⟩ := call?_eq_some_iff.mp hc
  rintro e he rfl
  obtain ⟨u, hu, -, hr⟩ := h.ended e he
  obtain rfl := Option.some.inj (hv.symm.trans hu)
  cases hw.symm.trans hr

theorem turn (h : s.Tallied es) (hc : s.call? i = some (v, c)) (hnow : g'.now = s.gate.now) :
    (s.turn i v g' status told).Tallied (es ++ (s.endingOf i v c status).toList) where
  nodup := by
    rw [List.map_append, List.nodup_append]
    refine ⟨h.nodup, ?_, ?_⟩
    · cases s.endingOf i v c status <;> simp
    · intro n hn m hm
      obtain ⟨e, he, rfl⟩ := List.mem_map.mp hn
      obtain ⟨e', he', rfl⟩ := List.mem_map.mp hm
      rw [(endingOf_eq_some (Option.mem_toList.mp he')).1]
      exact h.number_ne hc e he
  sorted := by
    rw [List.pairwise_append]
    refine ⟨h.sorted, ?_, ?_⟩
    · cases s.endingOf i v c status <;> simp
    · intro e he e' he'
      rw [(endingOf_eq_some (Option.mem_toList.mp he')).2.1]
      exact h.past e he
  past := by
    intro e he
    change e.time ≤ g'.now
    rw [hnow]
    rcases List.mem_append.mp he with he | he
    · exact h.past e he
    · exact Nat.le_of_eq (endingOf_eq_some (Option.mem_toList.mp he)).2.1
  ended := by
    intro e he
    rcases List.mem_append.mp he with he | he
    · obtain ⟨u, hu, ha, hr⟩ := h.ended e he
      have hne := Ne.symm (h.number_ne hc e he)
      exact ⟨u, (List.getElem?_set_ne hne).trans hu, ha, hr⟩
    · obtain ⟨hn, -, ha, hr⟩ := endingOf_eq_some (Option.mem_toList.mp he)
      refine ⟨{ v with status }, ?_, ha.symm, hr⟩
      rw [hn]
      exact List.getElem?_set_self (lt_of_call? hc)
  complete := by
    intro j u r hu hr
    -- A turn changes the status of its own call only.
    rcases visit_turn hu with ⟨rfl, rfl⟩ | ⟨-, hu⟩
    · obtain rfl : status = .over r := hr
      exact ⟨_, List.mem_append_right _ (List.mem_singleton_self _), rfl⟩
    · obtain ⟨e, he, hj⟩ := h.complete j u r hu hr
      exact ⟨e, List.mem_append_left _ he, hj⟩

theorem happens (h : s.Tallied es) (hs : s.Happens step s') :
    s'.Tallied (es ++ (s.ending? step).toList) := by
  have hnone : es ++ (none : Option Ending).toList = es := List.append_nil es
  cases hs with
  | arrive r draws => exact hnone.symm ▸ h.arrive r draws
  | advance hc =>
    rw [ending?_advance hc]
    exact h.turn hc (s.gate.stride _).now_eq
  | cancel hc =>
    rw [ending?_cancel hc]
    exact h.turn hc (s.gate.cancel_now _)
  | miss hs hc =>
    rw [ending?_miss hs hc, hnone]
    exact h
  | wait ms =>
    rw [show s.ending? (.wait ms) = none from rfl, hnone]
    exact ⟨h.nodup, h.sorted, fun e he => Nat.le_trans (h.past e he) (Nat.le_max_left _ _),
      h.ended, h.complete⟩
  | replace p =>
    rw [show s.ending? (.replace p) = none from rfl, hnone]
    exact ⟨h.nodup, h.sorted, h.past, h.ended, h.complete⟩

end Tallied

theorem tallied_nil (g : Gate) : Tallied { gate := g } [] where
  nodup := List.nodup_nil
  sorted := List.Pairwise.nil
  past := fun _ he => absurd he List.not_mem_nil
  ended := fun _ he => absurd he List.not_mem_nil
  complete := fun _ _ _ hv _ => absurd hv nofun

theorem tallied_run (g : Gate) (steps : List GateStep) :
    (run g steps).Tallied (endings g steps) :=
  collect_induct (P := Tallied) (tallied_nil g) (fun _ _ _ _ _ ih hs => ih.happens hs) steps

end GateSession

end StockGate
