import Mathlib.Data.List.Perm.Basic
import StockGate.Gate.Schedule
import StockGate.Proofs.Gate.Session

namespace StockGate

namespace GateSession

variable {s : GateSession} {g g' g'' : Gate} {i : Nat} {v : Visit} {c : Call} {p : Policy}
  {sts sts' : List CallStatus}

theorem Reached.step (h : Reached g s) (step : GateStep) : Reached g (s.step step) := by
  obtain ⟨steps, rfl⟩ := h
  exact ⟨steps ++ [step], run_append g steps step⟩

/-- Nobody has replaced the policy. -/
structure Unreplaced (p : Policy) (s : GateSession) : Prop where
  gate : s.gate.policy = p
  met : ∀ v ∈ s.visits, v.met.policy = p

theorem Unreplaced.turn (h : s.Unreplaced p) (hc : s.call? i = some (v, c))
    (hg : g''.policy = s.gate.policy) {status : CallStatus} {told : Option Admission} :
    (s.turn i v g'' status told).Unreplaced p where
  gate := hg.trans h.gate
  met := by
    intro u hu
    rcases List.mem_or_eq_of_mem_set hu with hu | rfl
    · exact h.met u hu
    · exact h.met v (List.mem_of_getElem? (call?_eq_some_iff.mp hc).1)

/-- In some session under one policy the gate comes to this one, and the calls, in whatever order,
to these statuses. -/
def Attains (g g' : Gate) (sts : List CallStatus) : Prop :=
  ∃ s, Reached g s ∧ s.Unreplaced g.policy ∧ s.gate = g' ∧
    sts.Perm (s.visits.map (·.status))

theorem attains_start (g : Gate) : Attains g g [] :=
  ⟨{ gate := g }, reached_run g [], ⟨rfl, fun _ hv => absurd hv List.not_mem_nil⟩, rfl, .refl []⟩

theorem Attains.perm (h : Attains g g' sts) (hp : sts'.Perm sts) : Attains g g' sts' := by
  obtain ⟨s, hr, hu, hg, hs⟩ := h
  exact ⟨s, hr, hu, hg, hp.trans hs⟩

theorem call?_of_mem (h : .waiting c ∈ s.visits.map (·.status)) :
    ∃ i v, s.call? i = some (v, c) := by
  obtain ⟨v, hv, hw⟩ := List.mem_map.mp h
  obtain ⟨i, hc⟩ := exists_call?_of_mem hv hw
  exact ⟨i, v, hc⟩

theorem perm_of_turn {status : CallStatus} {told : Option Admission}
    (hs : (.waiting c :: sts).Perm (s.visits.map (·.status))) (hc : s.call? i = some (v, c)) :
    (status :: sts).Perm ((s.turn i v g' status told).visits.map (·.status)) := by
  obtain ⟨hv, hw⟩ := call?_eq_some_iff.mp hc
  have hi : i < (s.visits.map (·.status)).length := by
    rw [List.length_map]
    exact lt_of_call? hc
  have hget : (s.visits.map (·.status))[i] = .waiting c := by
    rw [List.getElem_map, ← hw, (List.getElem?_eq_some_iff.mp hv).2]
  have hrest : sts.Perm ((s.visits.map (·.status)).eraseIdx i) := by
    have hcons := List.getElem_cons_eraseIdx_perm hi
    rw [hget] at hcons
    exact (hs.trans hcons.symm).cons_inv
  have hset := (List.set_perm_cons_eraseIdx hi status).symm
  rw [turn, List.map_set]
  exact (hrest.cons status).trans hset

theorem Attains.turn {status : CallStatus} (told : Gate → Option Admission)
    (h : Attains g g' (.waiting c :: sts)) (hpolicy : g''.policy = g'.policy)
    (hstep : ∀ s i v, Reached g s → s.gate = g' → s.call? i = some (v, c) →
      Reached g (s.turn i v g'' status (told s.gate))) : Attains g g'' (status :: sts) := by
  obtain ⟨s, hr, hu, hg, hs⟩ := h
  obtain ⟨i, v, hc⟩ := call?_of_mem (hs.subset List.mem_cons_self)
  rw [← hg] at hpolicy
  exact ⟨_, hstep s i v hr hg hc, hu.turn hc hpolicy, rfl, perm_of_turn hs hc⟩

theorem Attains.advance (h : Attains g g' (.waiting c :: sts)) :
    Attains g (g'.step c).1 ((g'.step c).2.status c :: sts) := by
  apply h.turn (·.told? c) (g'.stride c).policy_eq
  intro s i v hr hg hc
  have hstep := hr.step (.advance i)
  simp only [GateSession.step, hc, hg] at hstep
  rwa [hg]

theorem Attains.cancel (h : Attains g g' (.waiting c :: sts)) :
    Attains g (g'.cancel c) (.over .cancelled :: sts) := by
  apply h.turn (fun _ => none) (g'.cancel_policy c)
  intro s i v hr hg hc
  have hstep := hr.step (.cancel i)
  simpa only [GateSession.step, hc, hg] using hstep

theorem Attains.resume (h : Attains g g' (.waiting c :: sts)) :
    Attains g (g'.resume c).1 ((g'.resume c).2 :: sts) := by
  fun_induction Gate.resume g' c with
  | case1 g' c g'' c' hs hlt ih =>
    have ha := h.advance
    rw [hs] at ha
    exact ih ha
  | case2 g' c g'' hs =>
    have ha := h.advance
    rw [hs] at ha
    exact ha
  | case3 g' c g'' r hs =>
    have ha := h.advance
    rw [hs] at ha
    exact ha

theorem Attains.arrive (h : Attains g g' sts) (r : Request) (draws : Nat → Nat) :
    Attains g (g'.begin r draws).1 (.waiting (g'.begin r draws).2 :: sts) := by
  obtain ⟨s, hr, hu, rfl, hs⟩ := h
  have hmet : ∀ v ∈ (s.step (.arrive r draws)).visits, v.met.policy = g.policy := by
    intro v hv
    rcases List.mem_append.mp hv with hv | hv
    · exact hu.met v hv
    · rw [List.mem_singleton.mp hv]
      exact hu.gate
  refine ⟨_, hr.step (.arrive r draws), ⟨hu.gate, hmet⟩, rfl, ?_⟩
  simp only [GateSession.step, List.map_append, List.map_cons, List.map_nil]
  exact (hs.cons _).trans (List.perm_append_singleton _ _).symm

theorem foldl_min_eq {l : List Nat} {n : Nat} (h : ∀ m ∈ l, n ≤ m) : l.foldl min n = n :=
  Nat.le_antisymm (foldl_min_le_start n l) (le_foldl_min h (Nat.le_refl n))

theorem Attains.waitUntil (h : Attains g g' sts) {t : Nat}
    (ht : ∀ c, .waiting c ∈ sts → t ≤ c.wake) : Attains g (g'.waitUntil t) sts := by
  obtain ⟨s, hr, hu, rfl, hs⟩ := h
  -- No call under way wakes before `t`, so nothing stops the session short of it.
  have hwakes : ∀ w ∈ s.wakes, s.gate.now + (t - s.gate.now) ≤ w := by
    intro w hw
    have hnow := hr.punctual w hw
    obtain ⟨v, hv, hvw⟩ := List.mem_filterMap.mp hw
    have htw : t ≤ w := by
      cases hst : v.status with
      | waiting c =>
        rw [hst] at hvw
        obtain rfl := Option.some.inj hvw
        exact ht c (hs.symm.subset (hst ▸ List.mem_map_of_mem hv))
      | _ r => rw [hst] at hvw; cases hvw
    omega
  have hstep := hr.step (.wait (t - s.gate.now))
  simp only [GateSession.step, foldl_min_eq hwakes] at hstep
  refine ⟨_, hstep, ⟨hu.gate, hu.met⟩, ?_, hs⟩
  simp only [Gate.waitUntil]
  congr 1
  omega

end GateSession

def Task.status? : Task → Option CallStatus
  | .planned .. => none
  | .running c _ _ => some (.waiting c)
  | .done r _ => some (.over r)

theorem Timer.time_le_of_before {a b : Timer} (h : a.before b = true) : a.time ≤ b.time := by
  simp only [before, Bool.or_eq_true, Bool.and_eq_true, decide_eq_true_eq] at h
  omega

theorem Timer.time_le_of_not_before {a b : Timer} (h : ¬ a.before b = true) :
    b.time ≤ a.time := by
  simp only [before, Bool.or_eq_true, Bool.and_eq_true, decide_eq_true_eq] at h
  omega

theorem Timer.time_first_le {a : Timer} {b : Option Timer} : (a.first b).time ≤ a.time := by
  unfold first
  split
  · exact Nat.le_refl _
  · split
    · next hb => exact time_le_of_before hb
    · exact Nat.le_refl _

namespace Clockwork

open GateSession

variable {g : Gate} {k : Clockwork} {sts : List CallStatus} {ts l r : List Task} {t u : Task}
  {timer other : Timer}

theorem timer?_eq_none_of_earliest (h : earliest ts = none) (hu : u ∈ ts) : u.timer? = none := by
  induction ts with
  | nil => cases hu
  | cons t ts ih =>
    simp only [earliest] at h
    split at h
    · next ht he =>
      rcases List.mem_cons.mp hu with rfl | hu
      · exact ht
      · exact ih he hu
    · cases h
    · cases h
    · split at h <;> cases h

theorem time_le_of_earliest (h : earliest ts = some (l, t, timer, r)) (hu : u ∈ ts)
    (ho : u.timer? = some other) : timer.time ≤ other.time := by
  induction ts generalizing l t timer r with
  | nil => cases hu
  | cons v ts ih =>
    simp only [earliest] at h
    split at h
    · cases h
    · next first ht he =>
      obtain ⟨rfl, rfl, rfl, rfl⟩ := by simpa using h
      rcases List.mem_cons.mp hu with rfl | hu
      · obtain rfl := Option.some.inj (ht.symm.trans ho)
        exact Nat.le_refl _
      · rw [timer?_eq_none_of_earliest he hu] at ho
        cases ho
    · next ht he =>
      obtain ⟨rfl, rfl, rfl, rfl⟩ := by simpa using h
      rcases List.mem_cons.mp hu with rfl | hu
      · cases ht.symm.trans ho
      · exact ih he hu
    · next first l' u' second r' ht he =>
      split at h
      · next hb =>
        obtain ⟨rfl, rfl, rfl, rfl⟩ := by simpa using h
        rcases List.mem_cons.mp hu with rfl | hu
        · obtain rfl := Option.some.inj (ht.symm.trans ho)
          exact Timer.time_le_of_before hb
        · exact ih he hu
      · next hb =>
        obtain ⟨rfl, rfl, rfl, rfl⟩ := by simpa using h
        rcases List.mem_cons.mp hu with rfl | hu
        · obtain rfl := Option.some.inj (ht.symm.trans ho)
          exact Nat.le_refl _
        · exact Nat.le_trans (Timer.time_le_of_not_before hb) (ih he hu)

theorem attains_advance {c : Call} (h : Attains g k.gate (.waiting c :: sts))
    (cancel : Option Timer) :
    Attains g (k.advance c cancel).1.gate ((k.advance c cancel).2.status?.toList ++ sts) := by
  have hr := h.resume
  unfold advance
  generalize k.gate.resume c = x at hr ⊢
  obtain ⟨g', status⟩ := x
  cases status with
  | waiting c' =>
    simp only
    split
    · exact hr.cancel
    · exact hr
  | _ r => exact hr

theorem attains_start (h : Attains g k.gate sts) (p : Plan) :
    Attains g (k.start p).1.gate ((k.start p).2.status?.toList ++ sts) :=
  attains_advance (h.arrive p.request p.draws) _

theorem attains_plan (h : Attains g k.gate sts) (p : Plan) :
    Attains g (k.plan p).1.gate ((k.plan p).2.status?.toList ++ sts) := by
  unfold plan
  split
  · exact attains_start h p
  · exact h

theorem statuses_perm (l : List Task) (t : Task) (r : List Task) :
    ((l ++ t :: r).filterMap Task.status?).Perm
      (t.status?.toList ++ (l ++ r).filterMap Task.status?) := by
  have hmiddle : (l ++ t :: r).Perm (t :: (l ++ r)) := List.perm_middle
  have hp := hmiddle.filterMap Task.status?
  rw [List.filterMap_cons] at hp
  cases ht : t.status? with
  | none => rwa [ht] at hp
  | some st => rwa [ht] at hp

theorem attains_planAll (h : Attains g k.gate sts) (ps : List Plan) :
    Attains g (k.planAll ps).1.gate ((k.planAll ps).2.filterMap Task.status? ++ sts) := by
  induction ps generalizing k sts with
  | nil => exact h
  | cons p ps ih =>
    apply (ih (attains_plan h p)).perm
    have hp := (statuses_perm [] (k.plan p).2 ((k.plan p).1.planAll ps).2).append_right sts
    refine hp.trans ?_
    rw [List.nil_append, List.append_assoc]
    exact List.perm_append_comm_assoc _ _ _

theorem time_le_wake {c : Call} (h : earliest ts = some (l, t, timer, r))
    (hc : .waiting c ∈ ts.filterMap Task.status?) : timer.time ≤ c.wake := by
  obtain ⟨u, hu, hs⟩ := List.mem_filterMap.mp hc
  cases u with
  | planned => cases hs
  | running c' order cancel =>
    obtain rfl := CallStatus.waiting.inj (Option.some.inj hs)
    exact Nat.le_trans (time_le_of_earliest h hu rfl) Timer.time_first_le
  | done => cases hs

theorem attains_fire (h : Attains g k.gate ((l ++ t :: r).filterMap Task.status?))
    (ht : earliest (l ++ t :: r) = some (l, t, timer, r)) :
    Attains g (k.fire t timer.time).1.gate
      ((l ++ (k.fire t timer.time).2 :: r).filterMap Task.status?) := by
  have hw := (h.waitUntil fun c hc => time_le_wake ht hc).perm (statuses_perm l t r).symm
  apply Attains.perm _ (statuses_perm l _ r)
  cases t with
  | planned p start => exact attains_start hw p
  | running c order cancel => exact attains_advance hw cancel
  | done res time => exact hw

theorem attains_run (h : Attains g k.gate (ts.filterMap Task.status?)) :
    Attains g (k.run ts).1.gate ((k.run ts).2.filterMap Task.status?) := by
  fun_induction run k ts with
  | case1 => exact h
  | case2 k ts l t timer r he next ih =>
    obtain ⟨rfl, -⟩ := eq_of_earliest he
    exact ih (attains_fire h he)

theorem earliest_run (k : Clockwork) (ts : List Task) : earliest (k.run ts).2 = none := by
  fun_induction run k ts with
  | case1 k ts he => exact he
  | case2 k ts l t timer r he next ih => exact ih

theorem statuses_of_earliest (h : earliest ts = none) :
    ts.filterMap Task.status? = (ts.filterMap Task.result?).map fun x => .over x.1 := by
  rw [List.map_filterMap]
  apply List.filterMap_congr
  intro t ht
  have hnone := timer?_eq_none_of_earliest h ht
  cases t with
  | planned => cases hnone
  | running => cases hnone
  | done => rfl

/-- What the clockwork makes of its calls is a session of the gate, in which every call is over. -/
theorem attains_callAll (g : Gate) (plans : List Plan) :
    Attains g (g.callAll plans).1 ((g.callAll plans).2.map fun x => .over x.1) := by
  have hplan := attains_planAll (k := { gate := g }) (GateSession.attains_start g) plans
  rw [List.append_nil] at hplan
  have hrun := attains_run hplan
  rwa [statuses_of_earliest (earliest_run _ _)] at hrun

end Clockwork

end StockGate
