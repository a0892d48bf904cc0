import StockGate.Proofs.Gate.Chronicle

namespace StockGate

theorem LookupStage.After.wake_le {x : Validation} {deadline : Nat} {ls : List LookupMade}
    (h : x.stage.After deadline ls) : x.wake ≤ deadline := by
  unfold Validation.wake
  generalize x.stage = stage at h
  cases h with
  | @asked l hl ht =>
    have hle := (Awaited.start l.time l.reply deadline).ends_le_limit
    exact Nat.le_trans hle (Nat.max_le.mpr ⟨ht, Nat.le_refl _⟩)
  | pausing ht => exact ht

namespace GateSession

variable {s s' : GateSession} {g g' : Gate} {i : Nat} {a : Arrival} {v : Visit} {c : Call}
  {permit : Permit}

theorem Sound.probe_unique (h : s.Sound) {j : Nat} {u : Visit} {d : Call} {q : Permit}
    (hc : s.call? i = some (v, c)) (hheld : c.permit? = some permit) (hp : permit.probe = true)
    (hd : s.call? j = some (u, d)) (hheld' : d.permit? = some q) (hq : q.probe = true) : j = i := by
  by_contra hne
  have hle := probesHeld_le_probesBeside hd hne
  have hone := (h.beside hc).probes_le_one
  rw [hheld', probesHeld, hq] at hle
  rw [hheld, probesHeld, hp] at hone
  simp only [Bool.toNat_true] at hle hone
  omega

/-- Who holds a permit got it no longer ago than its own policy gives it for the lookup. -/
theorem Reached.admitted (h : Reached g s) (hc : s.call? i = some (v, c))
    (hheld : c.permit? = some permit) :
    ∃ time, s.toldOf i = [(time, .granted permit)] ∧
      s.gate.now ≤ time + v.met.policy.timeout := by
  obtain ⟨hv, hw⟩ := call?_eq_some_iff.mp hc
  have hnow := h.punctual _ (mem_wakes_of_call? hc)
  have ha := h.accounted i v hv
  rw [hw] at ha
  cases ha with
  | asking _ hs =>
    rw [Call.permit?_of_asking hs] at hheld
    cases hheld
  | validating _ hs ha hr hd hx =>
    rw [Call.permit?_of_validating hs] at hheld
    obtain rfl := Option.some.inj hheld
    rw [Call.wake, hs] at hnow
    exact ⟨_, ha.told, Nat.le_trans hnow hx.wake_le⟩

/-- The time at which the circuit opened for the last time. -/
def lastOpening? (s : GateSession) : Option Nat :=
  (s.turns.filterMap Turn.openedAt?).getLast?

theorem lastOpening?_of_not_opened {t : Turn} (h : t.openedAt? = none) :
    ((s.turns ++ [t]).filterMap Turn.openedAt?).getLast? = s.lastOpening? := by
  rw [filterMap_concat, h]
  exact congrArg _ (List.append_nil _)

theorem Reached.openedAt_eq (h : Reached g s) (hg : g.breaker = {}) :
    s.gate.breaker.state = .opened → s.gate.breaker.openedAt = s.lastOpening? := by
  apply h.induct_moves hg
  case start =>
    intro hs
    change g.breaker.state = _ at hs
    rw [hg] at hs
    cases hs
  case moves =>
    intro s step s' _ _ ih hm hs
    cases hm with
    | arrive r draws =>
      have ht : (⟨s.visits.length, s.gate, (s.gate.begin r draws).1, none⟩ : Turn).openedAt? =
          none := by
        rw [Turn.openedAt?, Turn.move?_of_eq rfl]
      exact (ih hs).trans (lastOpening?_of_not_opened ht).symm
    | @turn _ i v c g' status told hc hd =>
      rcases hd.usage.opened hs with heq | ⟨hne, hx, -⟩
      · have ht : (⟨i, s.gate, g', told⟩ : Turn).openedAt? = none := by
          rw [Turn.openedAt?, Turn.move?_of_eq heq]
        have heq : g'.breaker = s.gate.breaker := heq
        change g'.breaker.openedAt = _
        rw [heq]
        exact (ih (heq ▸ hs)).trans (lastOpening?_of_not_opened ht).symm
      · refine Eq.trans hx ?_
        rw [lastOpening?, turn, filterMap_concat, Turn.openedAt?_of_opened hne hs]
        exact List.getLast?_concat.symm
    | @rest _ g' hb _ =>
      change g'.breaker.openedAt = _
      change g'.breaker.state = _ at hs
      rw [hb] at hs ⊢
      exact ih hs

def go (s : GateSession) (steps : List GateStep) : GateSession :=
  steps.foldl step s

theorem go_concat (s : GateSession) (steps : List GateStep) (step : GateStep) :
    s.go (steps ++ [step]) = (s.go steps).step step := by
  rw [go, List.foldl_append]
  rfl

theorem Reached.go (h : Reached g s) (steps : List GateStep) : Reached g (s.go steps) := by
  obtain ⟨before, rfl⟩ := h
  exact ⟨before ++ steps, List.foldl_append⟩

def Vacant (s : GateSession) : Prop :=
  ∀ i, s.call? i = none

/-- Since the call with this number came, no other call has been under way. -/
structure Alone (i : Nat) (a : Arrival) (s : GateSession) : Prop where
  others : ∀ j v c, s.call? j = some (v, c) → j = i ∧ v.toArrival = a
  since : a.met.now ≤ s.gate.now
  /-- Until the call has its permit, the breaker is as the call met it. -/
  breaker : ∀ v c, s.call? i = some (v, c) → c.permit? = none → s.gate.breaker = a.met.breaker
  /-- That breaker has answered the call. -/
  told : ∀ t ∈ s.turnsOf i, ∀ admission, t.told = some admission →
    (∃ b m, a.met.breaker.Entry t.before.now a.met.policy b admission m) ∧
      ∀ permit, admission = .granted permit → t.lookups ≠ []

namespace Alone

theorem arrive (hv : s.Vacant) (hn : s.Numbered) (r : Request) (draws : Nat → Nat) :
    Alone s.visits.length ⟨s.gate, r⟩ (s.step (.arrive r draws)) where
  others := by
    intro j v c hc
    rcases call?_arrive hc with ⟨hj, ha, -⟩ | hold
    · exact ⟨hj, ha⟩
    · cases (hv j).symm.trans hold
  since := Nat.le_refl _
  breaker := fun _ _ _ _ => rfl
  told := by
    intro t ht admission htold
    rw [turnsOf_arrive_self hn] at ht
    rw [List.mem_singleton.mp ht] at htold
    cases htold

theorem turn (h : Alone i a s) {status : CallStatus} {told : Option Admission}
    (hc : s.call? i = some (v, c)) (hfrom : c.From v.toArrival)
    (hd : Deed c ⟨i, s.gate, g', told⟩ status) : Alone i a (s.turn i v g' status told) where
  others := by
    intro j u d hj
    rcases call?_turn hj with ⟨rfl, rfl, -⟩ | ⟨-, hj⟩
    · exact ⟨rfl, (h.others j v c hc).2⟩
    · exact h.others j u d hj
  since := by
    have hnow : g'.now = s.gate.now := hd.now_eq
    change a.met.now ≤ g'.now
    rw [hnow]
    exact h.since
  breaker := by
    intro u d hu hheld
    rcases call?_turn hu with ⟨-, -, rfl⟩ | ⟨hne, -⟩
    · have hnone := hd.keeps d rfl hheld
      exact (hd.usage.unchanged hnone hheld).trans (h.breaker v c hc hnone)
    · exact absurd rfl hne
  told := by
    intro t ht admission htold
    rw [turnsOf_turn_self] at ht
    rcases List.mem_append.mp ht with ht | ht
    · exact h.told t ht admission htold
    · obtain rfl := List.mem_singleton.mp ht
      refine ⟨?_, fun permit hp => hd.looks permit (hp ▸ htold)⟩
      have husage := hd.usage
      rw [htold] at husage
      obtain ⟨hnone, m, he⟩ := husage.entry
      rw [hfrom.policy, (h.others i v c hc).2] at he
      have hb := h.breaker v c hc hnone
      exact ⟨_, m, hb ▸ he⟩

theorem moves (h : Alone i a s) (hr : Reached g s) {step : GateStep} (hm : s.Moves step s')
    (hstep : ∀ r draws, step ≠ .arrive r draws) : Alone i a s' := by
  cases hm with
  | arrive r draws => exact absurd rfl (hstep r draws)
  | turn hc hd =>
    obtain ⟨rfl, -⟩ := h.others _ _ _ hc
    exact h.turn hc (hr.call_from hc) hd
  | rest hb hnow =>
    exact ⟨h.others, Nat.le_trans h.since hnow, fun v c hc hp => hb.trans (h.breaker v c hc hp),
      h.told⟩

theorem go (h : Alone i a s) (hr : Reached g s) (hg : g.breaker = {}) {steps : List GateStep}
    (hsteps : ∀ r draws, .arrive r draws ∉ steps) : Alone i a (s.go steps) := by
  induction steps using List.reverseRecOn with
  | nil => exact h
  | append_singleton steps step ih =>
    have ih := ih fun r draws hm => hsteps r draws (List.mem_append_left _ hm)
    have hr := hr.go steps
    rw [go_concat]
    apply ih.moves hr ((hr.sound hg).moves step)
    rintro r draws rfl
    exact hsteps r draws (List.mem_append_right _ (List.mem_singleton_self _))

end Alone

theorem toldOf_turn_self {status : CallStatus} {told : Option Admission} :
    (s.turn i v g' status told).toldOf i =
      s.toldOf i ++ (told.map (s.gate.now, ·)).toList := by
  rw [toldOf, turnsOf_turn_self, filterMap_concat]
  rfl

theorem toldOf_advance_ne_nil (h : s.toldOf i ≠ []) (j : Nat) :
    (s.step (.advance j)).toldOf i ≠ [] := by
  cases hc : s.call? j with
  | none => simpa only [GateSession.step, hc] using h
  | some x =>
    simp only [GateSession.step, hc]
    by_cases hij : i = j
    · subst hij
      rw [toldOf_turn_self]
      exact List.append_ne_nil_of_left_ne_nil h _
    · rw [toldOf, turnsOf_turn_of_ne hij]
      exact h

theorem toldOf_advance_of_on {w : Awaited FlagAnswer} (hc : s.call? i = some (v, c))
    (hs : c.stage = .asking w) (hnow : w.ends ≤ s.gate.now)
    (hon : FlagGate.enabled w.answer? = true) : (s.step (.advance i)).toldOf i ≠ [] := by
  simp only [GateSession.step, hc]
  rw [toldOf_turn_self, Gate.told?_of_on hs hnow hon]
  exact List.append_ne_nil_of_right_ne_nil _ (List.cons_ne_nil _ _)

theorem exists_call?_of_mem_wakes {t : Nat} (h : t ∈ s.wakes) :
    ∃ i v c, s.call? i = some (v, c) ∧ c.wake = t := by
  obtain ⟨v, hv, ht⟩ := List.mem_filterMap.mp h
  cases hst : v.status with
  | waiting c =>
    obtain ⟨i, hc⟩ := exists_call?_of_mem hv hst
    rw [hst] at ht
    exact ⟨i, v, c, hc, Option.some.inj ht⟩
  | _ r =>
    rw [hst] at ht
    cases ht

/-- The call has come to the breaker or waits for the flag. -/
def Reaching (i : Nat) (a : Arrival) (s : GateSession) : Prop :=
  s.toldOf i ≠ [] ∨ ∃ v c, s.call? i = some (v, c) ∧ c.stage = .asking a.flagWait

theorem Reaching.advance (h : Reaching i a s) (hon : a.FlagOn) :
    Reaching i a (s.step (.advance i)) := by
  rcases h with htold | ⟨v, c, hc, hs⟩
  · exact .inl (toldOf_advance_ne_nil htold i)
  · by_cases hnow : s.gate.now < a.flagWait.ends
    · have hstep : s.gate.step c = (s.gate, .waiting) := by
        simp only [Gate.step, hs, if_pos hnow]
      refine .inr ⟨{ v with status := .waiting c }, c, ?_, hs⟩
      simp only [GateSession.step, hc, hstep, CallAdvance.status]
      exact call?_eq_some_iff.mpr ⟨List.getElem?_set_self (lt_of_call? hc), rfl⟩
    · exact .inl (toldOf_advance_of_on hc hs (Nat.le_of_not_lt hnow) (a.enabled_iff.mpr hon))

namespace Alone

theorem reaching_step (h : Alone i a s) (hw : Reaching i a s) (hon : a.FlagOn) {step : GateStep}
    (harrive : ∀ r draws, step ≠ .arrive r draws) (hcancel : step ≠ .cancel i) :
    Reaching i a (s.step step) := by
  cases step with
  | arrive r draws => exact absurd rfl (harrive r draws)
  | advance j =>
    cases hc : s.call? j with
    | none => simpa only [GateSession.step, hc] using hw
    | some x =>
      obtain ⟨rfl, -⟩ := h.others j _ _ hc
      exact hw.advance hon
  | cancel j =>
    cases hc : s.call? j with
    | none => simpa only [GateSession.step, hc] using hw
    | some x =>
      obtain ⟨rfl, -⟩ := h.others j _ _ hc
      exact absurd rfl hcancel
  | wait ms => exact hw
  | replace p => exact hw

theorem reaching_go (h : Alone i a s) (hw : Reaching i a s) (hon : a.FlagOn) (hr : Reached g s)
    (hg : g.breaker = {}) {steps : List GateStep} (harrive : ∀ r draws, .arrive r draws ∉ steps)
    (hcancel : .cancel i ∉ steps) : Reaching i a (s.go steps) := by
  induction steps using List.reverseRecOn with
  | nil => exact hw
  | append_singleton steps step ih =>
    have hlater : ∀ r draws, .arrive r draws ∉ steps := fun r draws hm =>
      harrive r draws (List.mem_append_left _ hm)
    have ih := ih hlater fun hm => hcancel (List.mem_append_left _ hm)
    have hlast : step ∈ steps ++ [step] := List.mem_append_right _ (List.mem_singleton_self _)
    rw [go_concat]
    refine (h.go hr hg hlater).reaching_step ih hon ?_ ?_
    · rintro r draws rfl
      exact harrive r draws hlast
    · rintro rfl
      exact hcancel hlast

/-- However the call has been delayed, it takes no more than one wait to get to the breaker. -/
theorem reaches (h : Alone i a s) (hw : Reaching i a s) (hon : a.FlagOn) :
    ((s.step (.wait a.met.flag.timeout)).step (.advance i)).toldOf i ≠ [] := by
  rcases hw with htold | ⟨v, c, hc, hs⟩
  · have hwait : (s.step (.wait a.met.flag.timeout)).toldOf i ≠ [] := htold
    exact toldOf_advance_ne_nil hwait i
  · have hwait : (s.step (.wait a.met.flag.timeout)).call? i = some (v, c) := hc
    have hlimit : a.flagWait.ends ≤ s.gate.now + a.met.flag.timeout := by
      have hends : a.flagWait.ends ≤ max a.met.now (a.met.now + a.met.flag.timeout) :=
        a.flagWait.ends_le_limit
      have hsince := h.since
      omega
    -- No other call can stop the clock before the wait for the flag is over.
    have hwakes : ∀ t ∈ s.wakes, a.flagWait.ends ≤ t := by
      intro t ht
      obtain ⟨j, u, d, hd, rfl⟩ := exists_call?_of_mem_wakes ht
      obtain ⟨rfl, -⟩ := h.others j u d hd
      obtain ⟨-, rfl⟩ := Prod.mk.inj (Option.some.inj (hc.symm.trans hd))
      have hwake : c.wake = a.flagWait.ends := by rw [Call.wake, hs]
      exact Nat.le_of_eq hwake.symm
    apply toldOf_advance_of_on hwait hs _ (a.enabled_iff.mpr hon)
    exact Nat.le_trans (le_foldl_min hwakes hlimit) (Nat.le_max_right _ _)

theorem granted (h : Alone i a s) (hstate : a.met.breaker.state ≠ .halfOpen) {time : Nat}
    {admission : Admission} (htold : (time, admission) ∈ s.toldOf i)
    (hover : ∀ t, a.met.breaker.state = .opened → a.met.breaker.openedAt = some t →
      t + a.met.policy.breakDuration ≤ time) :
    (∃ permit, admission = .granted permit) ∧ s.lookupsOf i ≠ [] := by
  obtain ⟨t, ht, hanswer⟩ := List.mem_filterMap.mp htold
  obtain ⟨admission', htold', hpair⟩ := Option.map_eq_some_iff.mp hanswer
  obtain ⟨rfl, rfl⟩ := Prod.mk.inj hpair
  obtain ⟨⟨b, m, he⟩, hlook⟩ := h.told t ht admission' htold'
  have hgranted : ∃ permit, admission' = .granted permit := by
    cases he with
    | pass | probe => exact ⟨_, rfl⟩
    | early hs hx hearly =>
      have hle := hover _ hs hx
      omega
    | busy hs => exact absurd hs hstate
  refine ⟨hgranted, fun hnil => ?_⟩
  obtain ⟨permit, hp⟩ := hgranted
  exact hlook permit hp (List.flatMap_eq_nil_iff.mp hnil t ht)

end Alone

theorem Sound.exists_holder (h : s.Sound) (hs : s.gate.breaker.state = .halfOpen) :
    ∃ i v c permit, s.call? i = some (v, c) ∧ c.permit? = some permit ∧ permit.probe = true := by
  apply exists_probe
  rw [(Breaker.Coherent.halfOpen h hs).2.2]
  exact Nat.one_pos

theorem Sound.settled (h : s.Sound) (hv : s.Vacant) : s.gate.breaker.state ≠ .halfOpen := by
  intro hs
  obtain ⟨i, v, c, permit, hc, -⟩ := h.exists_holder hs
  cases (hv i).symm.trans hc

theorem reaching_arrive (s : GateSession) (r : Request) (draws : Nat → Nat) :
    Reaching s.visits.length ⟨s.gate, r⟩ (s.step (.arrive r draws)) := by
  refine .inr ⟨⟨⟨s.gate, r⟩, .waiting (s.gate.begin r draws).2⟩, _,
    call?_eq_some_iff.mpr ⟨?_, rfl⟩, rfl⟩
  exact List.getElem?_concat_length

/-- The circuit is half-open only while one call holds the probe, which that call has had for no
longer than its own policy gives it; so it is closed or open when no call is under way. A call that
comes then, with the flag on, gets to the breaker unless it is cancelled, however time goes on and
whatever policies come. If it gets there a whole break after the last opening, the breaker lets it
through and the call asks the catalog. -/
theorem never_wedged (h : Reached g s) (hg : g.breaker = {}) :
    (s.gate.breaker.state = .halfOpen →
      ∃ i v c permit time, s.call? i = some (v, c) ∧ c.permit? = some permit ∧
        permit.probe = true ∧ s.toldOf i = [(time, .granted permit)] ∧
        s.gate.now ≤ time + v.met.policy.timeout ∧
        ∀ j u d q, s.call? j = some (u, d) → d.permit? = some q → q.probe = true → j = i) ∧
    (s.Vacant → s.gate.breaker.state = .closed ∨ s.gate.breaker.state = .opened) ∧
    ∀ r draws more, s.Vacant → (⟨s.gate, r⟩ : Arrival).FlagOn →
      (∀ r' draws', .arrive r' draws' ∉ more) →
      (∀ time admission,
        (time, admission) ∈ (s.go (.arrive r draws :: more)).toldOf s.visits.length →
        (∀ t, s.lastOpening? = some t → t + s.gate.policy.breakDuration ≤ time) →
        (∃ permit, admission = .granted permit) ∧
          (s.go (.arrive r draws :: more)).lookupsOf s.visits.length ≠ []) ∧
      (.cancel s.visits.length ∉ more →
        (((s.go (.arrive r draws :: more)).step (.wait s.gate.flag.timeout)).step
          (.advance s.visits.length)).toldOf s.visits.length ≠ []) := by
  have hsound := h.sound hg
  refine ⟨fun hs => ?_, fun hv => ?_, fun r draws more hv hon hmore => ?_⟩
  · obtain ⟨i, v, c, permit, hc, hheld, hp⟩ := hsound.exists_holder hs
    obtain ⟨time, htold, hnow⟩ := h.admitted hc hheld
    exact ⟨i, v, c, permit, time, hc, hheld, hp, htold, hnow,
      fun j u d q => hsound.probe_unique hc hheld hp⟩
  · cases hs : s.gate.breaker.state with
    | closed => exact .inl rfl
    | opened => exact .inr rfl
    | halfOpen => exact absurd hs (hsound.settled hv)
  · have hr : Reached g (s.step (.arrive r draws)) := h.go [.arrive r draws]
    have halone := Alone.arrive hv h.numbered r draws
    have hlater := halone.go hr hg hmore
    refine ⟨fun time admission htold hover => ?_, fun hcancel => ?_⟩
    · apply hlater.granted (hsound.settled hv) htold
      intro t hs hx
      exact hover t ((h.openedAt_eq hg hs).symm.trans hx)
    · exact hlater.reaches
        (halone.reaching_go (s.reaching_arrive r draws) hon hr hg hmore hcancel) hon

/-- A gate that opens at the first failure, over a catalog that is down. -/
def brittle : Gate where
  policy := { failureThreshold := 1, minimumThroughput := 1, breakDurationMs := 10 }
  catalog := { answer := fun _ _ => .after 1 (.error (.status 500)) }
  flags := .fixed true
  emitter := .disabled

/-- One call opens the circuit, and the next is the probe. -/
def trial : List GateStep :=
  [.arrive fiveOfOne fun _ => 0, .advance 0, .wait 1, .advance 0, .wait 10,
    .arrive fiveOfOne fun _ => 0, .advance 1]

/-- The trial, after which the probe is cancelled and the break goes by. -/
def cutShort : GateSession :=
  run brittle (trial ++ [.cancel 1, .wait 10])

theorem never_wedged_by_cancelled_probe :
    (run brittle trial).gate.breaker.state = .halfOpen ∧
    (∃ i v c, (run brittle trial).call? i = some (v, c) ∧
      ∃ time permit, (run brittle trial).toldOf i = [(time, .granted permit)] ∧
        (run brittle trial).gate.now ≤ time + v.met.policy.timeout) ∧
    cutShort.Vacant ∧ cutShort.gate.breaker.state = .opened ∧
    (cutShort.go [.arrive fiveOfOne fun _ => 0, .advance 2]).lookupsOf 2 ≠ [] := by
  obtain ⟨hholder, -, -⟩ := never_wedged (reached_run brittle trial) rfl
  obtain ⟨i, v, c, permit, time, hc, -, -, htold, hnow, -⟩ := hholder rfl
  have hvacant : cutShort.Vacant := by
    rintro (_ | _ | i) <;> rfl
  refine ⟨rfl, ⟨i, v, c, hc, time, permit, htold, hnow⟩, hvacant, rfl, ?_⟩
  obtain ⟨-, -, hlone⟩ := never_wedged (reached_run brittle (trial ++ [.cancel 1, .wait 10])) rfl
  have hon : (⟨cutShort.gate, fiveOfOne⟩ : Arrival).FlagOn :=
    ⟨0, { value := true }, rfl, Nat.zero_le _, rfl⟩
  obtain ⟨hgranted, -⟩ := hlone fiveOfOne (fun _ => 0) [.advance 2] hvacant hon (by simp)
  have hanswer : (cutShort.go [.arrive fiveOfOne fun _ => 0, .advance 2]).toldOf
      cutShort.visits.length = [(21, .granted ⟨brittle.policy, true⟩)] := rfl
  refine (hgranted 21 (.granted ⟨brittle.policy, true⟩) ?_ ?_).2
  · exact hanswer ▸ List.mem_singleton_self _
  · intro t ht
    obtain rfl : 11 = t := Option.some.inj ht
    exact Nat.le_refl _

end GateSession

end StockGate
