import Mathlib.Data.List.Chain
import StockGate.Proofs.Gate.Chronicle

namespace StockGate

/-- What can come of a turn that finds the circuit away from closed and leaves it so. -/
inductive Breaker.Aside (b : Breaker) (now : Nat) (p : Policy) : Option Admission → Breaker → Prop
  | stay {told : Option Admission} (hno : ∀ permit, told ≠ some (.granted permit)) :
      Aside b now p told b
  | probe {b' : Breaker} {x : Nat} (hs : b.state = .opened) (hx : b.openedAt = some x)
      (hover : x + p.breakDuration ≤ now) (hs' : b'.state = .halfOpen) :
      Aside b now p (some (.granted ⟨p, true⟩)) b'
  | reopen {b' : Breaker} (hs : b.state = .halfOpen) (hs' : b'.state = .opened)
      (hx : b'.openedAt = some now) : Aside b now p none b'

theorem Breaker.Usage.aside {b b' : Breaker} {now : Nat} {p : Policy} {held held' : Option Permit}
    {told : Option Admission} (h : b.Usage now p held held' told b') (hs : b.state ≠ .closed)
    (hs' : b'.state ≠ .closed) : b.Aside now p told b' := by
  cases h with
  | leave | giveUp => exact .stay nofun
  | ask _ he =>
    cases he with
    | pass hc => exact absurd hc hs
    | probe ho ht hover => exact .probe ho ht hover rfl
    | early | busy => exact .stay nofun
  | record _ hr =>
    cases hr with
    | close => exact absurd rfl hs'
    | reopen _ hh => exact .reopen hh rfl rfl
    | trip _ hc | count _ hc => exact absurd hc hs
    | late => exact .stay nofun

/-- The time at which the breaker lets the call through, if it does. -/
def Turn.admittedAt? (t : Turn) : Option Nat :=
  match t.told with
  | some (.granted _) => some t.before.now
  | _ => none

theorem Turn.admittedAt?_of_not_granted {t : Turn}
    (h : ∀ permit, t.told ≠ some (.granted permit)) : t.admittedAt? = none := by
  unfold admittedAt?
  split
  · next permit ht => exact absurd ht (h permit)
  · rfl

/-- What the circuit lets through in these turns, which it begins open since `start` and ends with
this breaker at this time, without closing in between. -/
structure Shed (p : Policy) (start : Nat) (period : List Turn) (b : Breaker) (now : Nat) :
    Prop where
  away : b.state ≠ .closed
  probes : ∀ t ∈ period, ∀ permit, t.told = some (.granted permit) → permit.probe = true
  spaced : (start :: period.filterMap Turn.admittedAt?).IsChain (· + p.breakDuration ≤ ·)
  counted : (period.filterMap Turn.admittedAt?).length =
    (period.filterMap Turn.move?).count ⟨.opened, .halfOpen⟩
  /-- The circuit has not opened again before the last admission. -/
  latest : ∀ a ∈ (start :: period.filterMap Turn.admittedAt?).getLast?,
    a ≤ now ∧ (b.state = .opened → ∃ x, b.openedAt = some x ∧ a ≤ x)

namespace Shed

variable {p : Policy} {start now : Nat} {period : List Turn} {b : Breaker} {t : Turn}

theorem open_start (hs : b.state = .opened) (hx : b.openedAt = some now) :
    Shed p now [] b now where
  away := by
    rw [hs]
    nofun
  probes := fun _ h => absurd h List.not_mem_nil
  spaced := .singleton _
  counted := rfl
  latest := by
    intro a ha
    obtain rfl := Option.some.inj ha
    exact ⟨Nat.le_refl _, fun _ => ⟨_, hx, Nat.le_refl _⟩⟩

theorem quiet (h : Shed p start period b now) (ht : ∀ permit, t.told ≠ some (.granted permit))
    (hmove : t.move? ≠ some ⟨.opened, .halfOpen⟩) {b' : Breaker} {now' : Nat}
    (haway : b'.state ≠ .closed) (hnow : now ≤ now')
    (hopen : b'.state = .opened → b' = b ∨ b'.openedAt = some now') :
    Shed p start (period ++ [t]) b' now' := by
  have hadmitted : (period ++ [t]).filterMap Turn.admittedAt? =
      period.filterMap Turn.admittedAt? := by
    rw [filterMap_concat, Turn.admittedAt?_of_not_granted ht]
    exact List.append_nil _
  have hcount : (t.move?.toList).count ⟨.opened, .halfOpen⟩ = 0 := by
    rw [List.count_eq_zero]
    intro hm
    exact hmove (Option.mem_toList.mp hm)
  refine ⟨haway, fun u hu permit hg => ?_, ?_, ?_, ?_⟩
  · rcases List.mem_append.mp hu with hu | hu
    · exact h.probes u hu permit hg
    · rw [List.mem_singleton.mp hu] at hg
      exact absurd hg (ht permit)
  · rw [hadmitted]
    exact h.spaced
  · rw [hadmitted, filterMap_concat, List.count_append, hcount]
    exact h.counted
  · rw [hadmitted]
    intro a ha
    obtain ⟨hle, hopened⟩ := h.latest a ha
    refine ⟨Nat.le_trans hle hnow, fun hs => ?_⟩
    rcases hopen hs with rfl | hx
    · exact hopened hs
    · exact ⟨now', hx, Nat.le_trans hle hnow⟩

theorem probe (h : Shed p start period b now) (hs : b.state = .opened) {x now' : Nat}
    (hx : b.openedAt = some x) (hover : x + p.breakDuration ≤ now')
    (ht : t.told = some (.granted ⟨p, true⟩)) (hnow : t.before.now = now')
    (hmove : t.move? = some ⟨.opened, .halfOpen⟩) {b' : Breaker} (hs' : b'.state = .halfOpen) :
    Shed p start (period ++ [t]) b' now' := by
  have hadmitted : (period ++ [t]).filterMap Turn.admittedAt? =
      period.filterMap Turn.admittedAt? ++ [now'] := by
    rw [filterMap_concat, Turn.admittedAt?, ht, hnow]
    rfl
  refine ⟨by rw [hs']; nofun, fun u hu permit hg => ?_, ?_, ?_, ?_⟩
  · rcases List.mem_append.mp hu with hu | hu
    · exact h.probes u hu permit hg
    · rw [List.mem_singleton.mp hu, ht] at hg
      cases hg
      rfl
  · rw [hadmitted, ← List.cons_append, List.isChain_append]
    refine ⟨h.spaced, .singleton _, fun a ha c hc => ?_⟩
    obtain rfl := Option.some.inj hc
    obtain ⟨y, hy, hle⟩ := (h.latest a ha).2 hs
    obtain rfl := Option.some.inj (hx.symm.trans hy)
    omega
  · rw [hadmitted, filterMap_concat, hmove, List.length_append, h.counted, List.count_append]
    rfl
  · rw [hadmitted, ← List.cons_append, List.getLast?_concat]
    intro a ha
    obtain rfl := Option.some.inj ha
    refine ⟨Nat.le_refl _, fun ho => ?_⟩
    cases hs'.symm.trans ho

theorem follow (h : Shed p start period b now) {held held' : Option Permit}
    (hu : t.before.breaker.Usage t.before.now p held held' t.told t.after.breaker)
    (hb : t.before.breaker = b) (hnow : now ≤ t.before.now)
    (hopen : ∀ m, t.move? = some m → m.target ≠ .closed) :
    Shed p start (period ++ [t]) t.after.breaker t.before.now := by
  subst hb
  have haway : t.after.breaker.state ≠ .closed := by
    intro hc
    apply hopen ⟨t.before.breaker.state, .closed⟩ _ rfl
    exact Turn.move?_eq_some_iff.mpr ⟨h.away, rfl, hc⟩
  have ha := hu.aside h.away haway
  generalize htold : t.told = told at ha
  generalize hafter : t.after.breaker = b' at ha haway ⊢
  cases ha with
  | stay hno =>
    apply h.quiet (fun permit => htold ▸ hno permit) _ haway hnow fun _ => .inl rfl
    rw [Turn.move?_of_eq hafter]
    nofun
  | probe hs hx hover hs' =>
    apply h.probe hs hx hover htold rfl _ hs'
    exact Turn.move?_eq_some_iff.mpr ⟨nofun, hs, hafter ▸ hs'⟩
  | reopen hs hs' hx =>
    apply h.quiet (by simp [htold]) _ haway hnow fun _ => .inr hx
    intro hm
    cases hs.symm.trans (Turn.move?_eq_some_iff.mp hm).2.1

end Shed

namespace GateSession

variable {s : GateSession} {g : Gate} {p : Policy} {before period after : List Turn}
  {opening t : Turn}

theorem Chronicled.usage (h : s.Chronicled) (hp : ∀ a ∈ s.arrivals, a.met.policy = p)
    {l r : List Turn} (hturns : s.turns = l ++ t :: r) :
    ∃ held held', t.before.breaker.Usage t.before.now p held held' t.told t.after.breaker := by
  obtain ⟨a, ha, hf⟩ := h.follows l t r hturns
  rw [← hp a (List.mem_of_getElem? ha)]
  exact hf.usage

theorem Chronicled.after_opening (h : s.Chronicled) {l r : List Turn}
    (hturns : s.turns = l ++ opening :: r) (hopening : opening.move? = some ⟨.closed, .opened⟩) :
    opening.after.breaker.state = .opened ∧
      opening.after.breaker.openedAt = some opening.before.now ∧ opening.told = none := by
  obtain ⟨-, hs, hs'⟩ := Turn.move?_eq_some_iff.mp hopening
  obtain ⟨a, -, hf⟩ := h.follows l opening r hturns
  obtain ⟨held, held', hu⟩ := hf.usage
  rcases hu.opened hs' with heq | ⟨-, hx, htold⟩
  · rw [heq] at hs'
    cases hs.symm.trans hs'
  · exact ⟨hs', hx, htold⟩

/-- From the opening of the circuit on, turn by turn. -/
theorem Chronicled.shed (h : s.Chronicled) (hp : ∀ a ∈ s.arrivals, a.met.policy = p)
    (hturns : s.turns = before ++ opening :: (period ++ after))
    (hopening : opening.move? = some ⟨.closed, .opened⟩)
    (hperiod : ∀ t ∈ period, ∀ m, t.move? = some m → m.target ≠ .closed) {u : Turn}
    (hu : (opening :: period).getLast? = some u) :
    Shed p opening.before.now period u.after.breaker u.before.now := by
  induction period using List.reverseRecOn generalizing after u with
  | nil =>
    obtain rfl := Option.some.inj hu
    obtain ⟨hs, hx, -⟩ := h.after_opening hturns hopening
    exact .open_start hs hx
  | append_singleton l t ih =>
    rw [← List.cons_append, List.getLast?_concat] at hu
    obtain rfl := Option.some.inj hu
    have hsplit : s.turns = (before ++ opening :: l) ++ t :: after := by
      rw [hturns]
      simp
    obtain ⟨w, hw⟩ : ∃ w, (opening :: l).getLast? = some w :=
      ⟨_, List.getLast?_eq_some_getLast (List.cons_ne_nil _ _)⟩
    have hold : s.turns = before ++ opening :: (l ++ t :: after) := by
      rw [hturns]
      simp
    have hshed := ih hold (fun t' ht' => hperiod t' (List.mem_append_left _ ht')) hw
    obtain ⟨held, held', husage⟩ := h.usage hp hsplit
    obtain ⟨a, -, hf⟩ := h.follows _ _ _ hsplit
    have hlast : (before ++ opening :: l).getLast? = some w := by
      rw [List.getLast?_append, hw]
      rfl
    obtain ⟨hb, hnow⟩ := hf.leads w hlast
    exact hshed.follow husage hb hnow
      (hperiod t (List.mem_append_right _ (List.mem_singleton_self t)))

/-- A permit in hand after the circuit has opened is a probe's from the time since, or an ordinary
one from before. -/
theorem Chronicled.since_opening (h : s.Chronicled)
    (hturns : s.turns = before ++ opening :: (period ++ after))
    (hopening : opening.move? = some ⟨.closed, .opened⟩) {i : Nat} {permit : Permit}
    (hheld : HeldSince (before ++ opening :: period) i permit) :
    (∃ u ∈ period, u.number = i ∧ u.told = some (.granted permit)) ∨
      ∃ u ∈ before, u.number = i ∧ u.told = some (.granted permit) ∧
        u.before.breaker.state = .closed := by
  obtain ⟨l, u, r, hsplit, hi, htold, hr⟩ := hheld
  obtain ⟨-, -, hnone⟩ := h.after_opening hturns hopening
  -- The call was let through after the opening, at it or before it.
  rcases List.append_eq_append_iff.mp hsplit with ⟨m, hl, hm⟩ | ⟨m, hb, hm⟩
  · cases m with
    | nil =>
      obtain ⟨rfl, -⟩ := List.cons.inj hm
      cases hnone.symm.trans htold
    | cons o m =>
      obtain ⟨-, rfl⟩ := List.cons.inj hm
      exact .inl ⟨u, by simp, hi, htold⟩
  · cases m with
    | nil =>
      obtain ⟨rfl, -⟩ := List.cons.inj hm
      cases hnone.symm.trans htold
    | cons o m =>
      obtain ⟨rfl, rfl⟩ := List.cons.inj hm
      refine .inr ⟨u, by simp [hb], hi, htold, ?_⟩
      cases hprobe : permit.probe with
      | true =>
        have hs := hr hprobe opening (by simp)
        cases (Turn.move?_eq_some_iff.mp hopening).2.1.symm.trans hs
      | false =>
        obtain ⟨a, -, hf⟩ := h.follows l u (m ++ opening :: (period ++ after))
          (by simp [hturns, hb])
        obtain ⟨held, held', hu⟩ := hf.usage
        rw [htold] at hu
        exact hu.closed_of_ordinary hprobe

/-- Every policy of the session, in force or in use, is this one. -/
structure Uniform (s : GateSession) (p : Policy) : Prop where
  gate : s.gate.policy = p
  arrivals : ∀ a ∈ s.arrivals, a.met.policy = p

theorem Uniform.turn (h : s.Uniform p) {i : Nat} {v : Visit} {c : Call} {g' : Gate}
    {status : CallStatus} {told : Option Admission} (hc : s.call? i = some (v, c))
    (hg : g'.policy = s.gate.policy) : (s.turn i v g' status told).Uniform p where
  gate := hg.trans h.gate
  arrivals := by
    rw [arrivals_turn hc]
    exact h.arrivals

theorem Uniform.step (h : s.Uniform p) (step : GateStep) (hp : ∀ q, step = .replace q → q = p) :
    (s.step step).Uniform p := by
  cases step with
  | arrive r draws =>
    refine ⟨h.gate, fun a ha => ?_⟩
    rw [arrivals_arrive] at ha
    rcases List.mem_append.mp ha with ha | ha
    · exact h.arrivals a ha
    · rw [List.mem_singleton.mp ha]
      exact h.gate
  | advance i =>
    cases hc : s.call? i with
    | none => simpa only [GateSession.step, hc] using h
    | some x => simpa only [GateSession.step, hc] using h.turn hc (s.gate.stride x.2).policy_eq
  | cancel i =>
    cases hc : s.call? i with
    | none => simpa only [GateSession.step, hc] using h
    | some x => simpa only [GateSession.step, hc] using h.turn hc (s.gate.cancel_policy x.2)
  | wait ms => exact ⟨h.gate, h.arrivals⟩
  | replace q => exact ⟨hp q rfl, h.arrivals⟩

theorem uniform_run (g : Gate) (steps : List GateStep)
    (hp : ∀ q, .replace q ∈ steps → q = g.policy) : (run g steps).Uniform g.policy := by
  induction steps using List.reverseRecOn with
  | nil => exact ⟨rfl, fun _ h => absurd h List.not_mem_nil⟩
  | append_singleton steps step ih =>
    rw [run_append]
    apply (ih fun q hq => hp q (List.mem_append_left _ hq)).step
    rintro q rfl
    exact hp q (List.mem_append_right _ (List.mem_singleton_self _))

/-- Between the opening of the circuit and its next closing, calls are let through as probes only,
each of them a whole break after the one before and the first a whole break after the opening, as
many as there are moves to half-open. Whoever looks something up in that time is such a probe, or
was let through by the closed circuit before. -/
theorem open_circuit_sheds (g : Gate) (steps : List GateStep) {before period after : List Turn}
    {opening : Turn} (hg : g.breaker = {}) (hp : ∀ q, .replace q ∈ steps → q = g.policy)
    (hturns : (run g steps).turns = before ++ opening :: (period ++ after))
    (hopening : opening.move? = some ⟨.closed, .opened⟩)
    (hperiod : ∀ t ∈ period, ∀ m, t.move? = some m → m.target ≠ .closed) :
    (∀ t ∈ period, ∀ permit, t.told = some (.granted permit) → permit.probe = true) ∧
    (opening.before.now :: period.filterMap Turn.admittedAt?).IsChain
      (· + g.policy.breakDuration ≤ ·) ∧
    (period.filterMap Turn.admittedAt?).length =
      (period.filterMap Turn.move?).count ⟨.opened, .halfOpen⟩ ∧
    ∀ t ∈ period, t.lookups ≠ [] → ∃ permit,
      (permit.probe = true ∧ ∃ u ∈ period, u.number = t.number ∧
        u.told = some (.granted permit)) ∨
      ∃ u ∈ before, u.number = t.number ∧ u.told = some (.granted permit) ∧
        u.before.breaker.state = .closed := by
  have hchron := (reached_run g steps).chronicled hg
  obtain ⟨u, hu⟩ : ∃ u, (opening :: period).getLast? = some u :=
    ⟨_, List.getLast?_eq_some_getLast (List.cons_ne_nil _ _)⟩
  have hshed := hchron.shed (uniform_run g steps hp).arrivals hturns hopening hperiod hu
  refine ⟨hshed.probes, hshed.spaced, hshed.counted, fun t ht hlook => ?_⟩
  obtain ⟨l, r, rfl⟩ := List.append_of_mem ht
  obtain ⟨a, -, hf⟩ := hchron.follows (before ++ opening :: l) t (r ++ after) (by simp [hturns])
  rcases hf.permitted hlook with ⟨permit, htold⟩ | ⟨permit, hheld⟩
  · exact ⟨permit, .inl ⟨hshed.probes t ht permit htold, t, ht, rfl, htold⟩⟩
  · have hold : (run g steps).turns = before ++ opening :: (l ++ (t :: r ++ after)) := by
      simp [hturns]
    rcases hchron.since_opening hold hopening hheld with ⟨w, hw, hi, htold⟩ | hbefore
    · have hmem : w ∈ l ++ t :: r := List.mem_append_left _ hw
      exact ⟨permit, .inl ⟨hshed.probes w hmem permit htold, w, hmem, hi, htold⟩⟩
    · exact ⟨permit, .inr hbefore⟩

/-- A gate that opens at the first failure, over a catalog that has nothing but errors. -/
def frail : Gate where
  policy :=
    { failureThreshold := 1, minimumThroughput := 1, breakDurationMs := 10, retryBackoffMs := 2 }
  catalog :=
    { answer := fun i _ => .after 1 (.error (if i = 1 then .connect "reset" else .status 500)) }
  flags := .fixed true
  emitter := .disabled

/-- The first call opens the circuit, the second tries again after that, and the third is a probe
that fails. -/
def outage : List GateStep :=
  [.arrive fiveOfOne fun _ => 0, .arrive fiveOfOne fun _ => 0, .advance 0, .advance 1, .wait 1,
    .advance 0, .advance 1, .wait 2, .advance 1, .wait 1, .advance 1, .wait 7,
    .arrive fiveOfOne fun _ => 0, .advance 2, .wait 1, .advance 2]

/-- The turns of the outage, of which the fifth opens the circuit. -/
def outageTurns : List Turn :=
  (run frail outage).turns

theorem outage_moves :
    (outageTurns.drop 5).filterMap Turn.move? = [⟨.opened, .halfOpen⟩, ⟨.halfOpen, .opened⟩] :=
  rfl

theorem open_circuit_sheds_in_outage :
    ∃ opening,
      (run frail outage).turns = outageTurns.take 4 ++ opening :: (outageTurns.drop 5 ++ []) ∧
      opening.move? = some ⟨.closed, .opened⟩ ∧
      (1 :: (outageTurns.drop 5).filterMap Turn.admittedAt?).IsChain (· + 10 ≤ ·) ∧
      ((outageTurns.drop 5).filterMap Turn.admittedAt?).length = 1 ∧
      ∃ t ∈ outageTurns.drop 5, t.number = 1 ∧ t.lookups ≠ [] ∧
        ∃ u ∈ outageTurns.take 4, u.number = 1 ∧ u.before.breaker.state = .closed := by
  have hperiod : ∀ t ∈ outageTurns.drop 5, ∀ m, t.move? = some m → m.target ≠ .closed := by
    intro t ht m hm
    have hmem := List.mem_filterMap.mpr ⟨t, ht, hm⟩
    rw [outage_moves] at hmem
    rcases List.mem_pair.mp hmem with rfl | rfl <;> nofun
  have hturns : (run frail outage).turns =
      outageTurns.take 4 ++ outageTurns[4] :: (outageTurns.drop 5 ++ []) := rfl
  obtain ⟨-, hspaced, hcount, hlook⟩ :=
    open_circuit_sheds frail outage rfl (by simp [outage]) hturns rfl hperiod
  rw [outage_moves] at hcount
  have hm : (outageTurns.drop 5)[1] ∈ outageTurns.drop 5 := List.getElem_mem _
  have hl : (outageTurns.drop 5)[1].lookups ≠ [] := List.cons_ne_nil _ _
  refine ⟨_, hturns, rfl, hspaced, hcount, _, hm, rfl, hl, ?_⟩
  obtain ⟨permit, ⟨-, u, hu, hi, htold⟩ | ⟨u, hu, hi, -, hs⟩⟩ := hlook _ hm hl
  · -- The second call asks the breaker before the opening, and never again.
    have hnone : ((outageTurns.drop 5).filter (·.number = 1)).filterMap Turn.told = [] := rfl
    have hmem : .granted permit ∈
        ((outageTurns.drop 5).filter (·.number = 1)).filterMap Turn.told :=
      List.mem_filterMap.mpr ⟨u, List.mem_filter.mpr ⟨hu, decide_eq_true hi⟩, htold⟩
    rw [hnone] at hmem
    cases hmem
  · exact ⟨u, hu, hi, hs⟩

end GateSession

end StockGate
