import StockGate.Proofs.Gate.Permits

namespace StockGate

namespace Turn

def move? (t : Turn) : Option Transition :=
  if t.before.breaker.state = t.after.breaker.state then none
  else some ⟨t.before.breaker.state, t.after.breaker.state⟩

def openedAt? (t : Turn) : Option Nat :=
  match t.move? with
  | some ⟨_, .opened⟩ => some t.before.now
  | _ => none

theorem move?_of_eq {t : Turn} (h : t.after.breaker = t.before.breaker) : t.move? = none := by
  rw [move?, h, if_pos rfl]

theorem move?_eq_some_iff {t : Turn} {m : Transition} :
    t.move? = some m ↔
      m.source ≠ m.target ∧ t.before.breaker.state = m.source ∧
        t.after.breaker.state = m.target := by
  unfold move?
  split
  · next h =>
    constructor
    · nofun
    · rintro ⟨hne, hs, ht⟩
      exact absurd (hs.symm.trans (h.trans ht)) hne
  · next h =>
    constructor
    · intro hm
      obtain rfl := Option.some.inj hm
      exact ⟨h, rfl, rfl⟩
    · rintro ⟨-, hs, ht⟩
      rw [hs, ht]

theorem openedAt?_of_opened {t : Turn} (hs : t.before.breaker.state ≠ .opened)
    (hs' : t.after.breaker.state = .opened) : t.openedAt? = some t.before.now := by
  rw [openedAt?, move?, hs', if_neg hs]

end Turn

/-- The call has been let through with this permit, and if that is a probe, then every turn since
has met a half-open circuit. -/
def HeldSince (past : List Turn) (i : Nat) (permit : Permit) : Prop :=
  ∃ l u r, past = l ++ u :: r ∧ u.number = i ∧ u.told = some (.granted permit) ∧
    (permit.probe = true → ∀ t ∈ r, t.before.breaker.state = .halfOpen)

/-- A turn of a call with this policy, which comes right after these turns. -/
structure Turn.Follows (t : Turn) (p : Policy) (past : List Turn) : Prop where
  usage : ∃ held held',
    t.before.breaker.Usage t.before.now p held held' t.told t.after.breaker
  leads : ∀ u, past.getLast? = some u →
    t.before.breaker = u.after.breaker ∧ u.before.now ≤ t.before.now
  permitted : t.lookups ≠ [] →
    (∃ permit, t.told = some (.granted permit)) ∨ ∃ permit, HeldSince past t.number permit

section

variable {past : List Turn} {t : Turn} {i : Nat} {permit : Permit}

theorem heldSince_new (past : List Turn) (ht : t.told = some (.granted permit)) :
    HeldSince (past ++ [t]) t.number permit :=
  ⟨past, t, [], rfl, rfl, ht, fun _ _ h => absurd h List.not_mem_nil⟩

theorem HeldSince.append (h : HeldSince past i permit)
    (ht : permit.probe = true → t.before.breaker.state = .halfOpen) :
    HeldSince (past ++ [t]) i permit := by
  obtain ⟨l, u, r, rfl, hi, htold, hr⟩ := h
  refine ⟨l, u, r ++ [t], by simp, hi, htold, fun hp w hw => ?_⟩
  rcases List.mem_append.mp hw with hw | hw
  · exact hr hp w hw
  · rw [List.mem_singleton.mp hw]
    exact ht hp

theorem split_snoc {l r : List Turn} {u : Turn} (h : past ++ [t] = l ++ u :: r) :
    (l = past ∧ u = t) ∨ ∃ r', past = l ++ u :: r' := by
  rcases List.eq_nil_or_concat r with rfl | ⟨r', w, rfl⟩
  · obtain ⟨rfl, hu⟩ := List.append_inj' h rfl
    exact .inl ⟨rfl, (List.singleton_inj.mp hu).symm⟩
  · rw [List.concat_eq_append, ← List.cons_append, ← List.append_assoc] at h
    exact .inr ⟨r', (List.append_inj' h rfl).1⟩

end

namespace GateSession

variable {s : GateSession} {g g' : Gate} {i : Nat} {v : Visit} {c : Call} {status : CallStatus}
  {told : Option Admission} {permit : Permit}

def arrivals (s : GateSession) : List Arrival :=
  s.visits.map (·.toArrival)

theorem arrivals_arrive (s : GateSession) (r : Request) (draws : Nat → Nat) :
    (s.step (.arrive r draws)).arrivals = s.arrivals ++ [⟨s.gate, r⟩] := by
  simp [arrivals, step]

theorem arrivals_of_call? (hc : s.call? i = some (v, c)) :
    s.arrivals[i]? = some v.toArrival := by
  rw [arrivals, List.getElem?_map, (call?_eq_some_iff.mp hc).1]
  rfl

theorem arrivals_turn (hc : s.call? i = some (v, c)) :
    (s.turn i v g' status told).arrivals = s.arrivals := by
  obtain ⟨hi, ha⟩ := List.getElem?_eq_some_iff.mp (arrivals_of_call? hc)
  rw [arrivals, turn, List.map_set]
  change s.arrivals.set i v.toArrival = s.arrivals
  rw [← ha, List.set_getElem_self]

theorem call?_turn {j : Nat} {u : Visit} {d : Call}
    (h : (s.turn i v g' status told).call? j = some (u, d)) :
    (j = i ∧ u = { v with status } ∧ status = .waiting d) ∨ (j ≠ i ∧ s.call? j = some (u, d)) := by
  obtain ⟨hu, hw⟩ := call?_eq_some_iff.mp h
  rcases visit_turn hu with ⟨rfl, rfl⟩ | ⟨hne, hu⟩
  · exact .inl ⟨rfl, rfl, hw⟩
  · exact .inr ⟨hne, call?_eq_some_iff.mpr ⟨hu, hw⟩⟩

theorem call?_arrive {j : Nat} {u : Visit} {d : Call} {r : Request} {draws : Nat → Nat}
    (h : (s.step (.arrive r draws)).call? j = some (u, d)) :
    (j = s.visits.length ∧ u.toArrival = ⟨s.gate, r⟩ ∧ d = (s.gate.begin r draws).2) ∨
      s.call? j = some (u, d) := by
  obtain ⟨hu, hw⟩ := call?_eq_some_iff.mp h
  rcases visit_arrive hu with ⟨rfl, rfl⟩ | ⟨-, hu⟩
  · exact .inl ⟨rfl, rfl, (CallStatus.waiting.inj hw).symm⟩
  · exact .inr (call?_eq_some_iff.mpr ⟨hu, hw⟩)

theorem Reached.call_from (h : Reached g s) (hc : s.call? i = some (v, c)) : c.From v.toArrival := by
  obtain ⟨hv, hw⟩ := call?_eq_some_iff.mp hc
  have ha := h.accounted i v hv
  rw [hw] at ha
  cases ha with
  | asking hc => exact hc
  | validating hc => exact hc

/-- What holds of a call at its arrival and outlives each step of its own holds as long as it is
under way. -/
theorem Reached.induct_call {P : Arrival → Call → Prop}
    (begin : ∀ g r draws, P ⟨g, r⟩ (g.begin r draws).2)
    (moved : ∀ {v c c'} {g g' : Gate}, P v c → g.now ≤ c.wake → g.Stride c g' (.moved c') → P v c')
    (h : Reached g s) : ∀ i v c, s.call? i = some (v, c) → P v.toArrival c := by
  apply h.induct
  case start => exact fun i v c hc => absurd hc nofun
  case arrive =>
    intro s r draws _ ih i v c hc
    rcases call?_arrive hc with ⟨-, ha, rfl⟩ | hc
    · exact ha ▸ begin s.gate r draws
    · exact ih i v c hc
  case advance =>
    intro s i v c hr ih hc j u d hd
    rcases call?_turn hd with ⟨rfl, rfl, hstatus⟩ | ⟨-, hd⟩
    · have hst := s.gate.stride c
      generalize (s.gate.step c).2 = a at hst hstatus
      cases a with
      | waiting =>
        obtain rfl := CallStatus.waiting.inj hstatus
        exact ih j v c hc
      | moved c' =>
        obtain rfl := CallStatus.waiting.inj hstatus
        exact moved (ih j v c hc) (hr.punctual _ (mem_wakes_of_call? hc)) hst
      | _ r => cases hstatus
    · exact ih j u d hd
  case cancel =>
    intro s i v c _ ih hc j u d hd
    rcases call?_turn hd with ⟨-, -, hstatus⟩ | ⟨-, hd⟩
    · cases hstatus
    · exact ih j u d hd
  case wait => exact fun s ms _ ih => ih
  case replace => exact fun s p _ ih => ih

theorem Sound.halfOpen (h : s.Sound) (hc : s.call? i = some (v, c))
    (hheld : c.permit? = some permit) (hp : permit.probe = true) :
    s.gate.breaker.state = .halfOpen := by
  apply (h.beside hc).halfOpen_of_probes
  rw [hheld, probesHeld, hp]
  exact Nat.succ_pos _

/-- The turns tell how the session has come to where it is. -/
structure Chronicled (s : GateSession) : Prop where
  follows : ∀ l t r, s.turns = l ++ t :: r →
    ∃ a, s.arrivals[t.number]? = some a ∧ t.Follows a.met.policy l
  leads : ∀ u, s.turns.getLast? = some u →
    s.gate.breaker = u.after.breaker ∧ u.before.now ≤ s.gate.now
  held : ∀ i v c permit, s.call? i = some (v, c) → c.permit? = some permit →
    HeldSince s.turns i permit

namespace Chronicled

theorem arrive (h : s.Chronicled) (hs : s.Sound) (r : Request) (draws : Nat → Nat) :
    (s.step (.arrive r draws)).Chronicled where
  follows := by
    intro l t r' hsplit
    rw [arrivals_arrive]
    rcases split_snoc hsplit with ⟨rfl, rfl⟩ | ⟨r'', hold⟩
    · have hlen : s.visits.length = s.arrivals.length := by rw [arrivals, List.length_map]
      refine ⟨⟨s.gate, r⟩, by simp [hlen], ⟨none, none, .leave⟩, h.leads, fun hl => ?_⟩
      exact absurd (Turn.lookups_eq_nil rfl) hl
    · obtain ⟨a, ha, hf⟩ := h.follows l t r'' hold
      exact ⟨a, List.getElem?_append_left (List.getElem?_eq_some_iff.mp ha).1 ▸ ha, hf⟩
  leads := by
    intro u hu
    obtain rfl := Option.some.inj (List.getLast?_concat.symm.trans hu)
    exact ⟨rfl, Nat.le_refl _⟩
  held := by
    intro i v c permit hc hheld
    rcases call?_arrive hc with ⟨-, -, rfl⟩ | hc
    · cases hheld
    · exact (h.held i v c permit hc hheld).append fun hp => hs.halfOpen hc hheld hp

theorem turn (h : s.Chronicled) (hs : s.Sound) (hc : s.call? i = some (v, c))
    (hfrom : c.From v.toArrival) (hd : Deed c ⟨i, s.gate, g', told⟩ status) :
    (s.turn i v g' status told).Chronicled where
  follows := by
    intro l t r hsplit
    rw [arrivals_turn hc]
    rcases split_snoc hsplit with ⟨rfl, rfl⟩ | ⟨r', hold⟩
    · refine ⟨v.toArrival, arrivals_of_call? hc, ⟨_, _, hfrom.policy ▸ hd.usage⟩, h.leads, ?_⟩
      intro hl
      refine (hd.permitted hl).imp_right ?_
      rintro ⟨permit, hheld⟩
      exact ⟨permit, h.held i v c permit hc hheld⟩
    · exact h.follows l t r' hold
  leads := by
    intro u hu
    obtain rfl := Option.some.inj (List.getLast?_concat.symm.trans hu)
    exact ⟨rfl, Nat.le_of_eq hd.now_eq.symm⟩
  held := by
    intro j u d permit hj hheld
    -- A probe in hand kept the circuit half-open until this turn, whosever turn it is.
    rcases call?_turn hj with ⟨rfl, -, rfl⟩ | ⟨-, hj⟩
    · have hu := hd.usage
      rw [CallStatus.permit?, hheld] at hu
      rcases hu.holds with ⟨hbefore, -⟩ | hgranted
      · exact (h.held j v c permit hc hbefore).append fun hp => hs.halfOpen hc hbefore hp
      · exact heldSince_new _ hgranted
    · exact (h.held j u d permit hj hheld).append fun hp => hs.halfOpen hj hheld hp

end Chronicled

theorem Reached.chronicled (h : Reached g s) (hg : g.breaker = {}) : s.Chronicled := by
  apply h.induct_moves hg
  case start =>
    refine ⟨fun l t r h => ?_, fun u h => ?_, fun i v c permit h => ?_⟩
    · simp at h
    · simp at h
    · simp [call?] at h
  case moves =>
    intro s step s' hr hs ih hm
    cases hm with
    | arrive r draws => exact ih.arrive hs r draws
    | turn hc hd => exact ih.turn hs hc (hr.call_from hc) hd
    | rest hb hnow =>
      refine ⟨ih.follows, fun u hu => ?_, ih.held⟩
      obtain ⟨hbreaker, hle⟩ := ih.leads u hu
      exact ⟨hb.trans hbreaker, Nat.le_trans hle hnow⟩

end GateSession

end StockGate
