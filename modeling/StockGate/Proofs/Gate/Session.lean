import Mathlib.Data.List.Induction
import StockGate.Proofs.Gate.Step

namespace StockGate

inductive GateStep where
  | arrive (r : Request) (draws : Nat → Nat)
  | advance (i : Nat)
  | cancel (i : Nat)
  | wait (ms : Nat)
  | replace (p : Policy)

/-- A request and the gate that it met. -/
structure Arrival where
  met : Gate
  request : Request

structure Visit extends Arrival where
  status : CallStatus

/-- What the call with this number did to the gate at once. -/
structure Turn where
  number : Nat
  before : Gate
  after : Gate
  /-- The answer of the breaker, if the call asked it. -/
  told : Option Admission := none

structure GateSession where
  gate : Gate
  visits : List Visit := []
  turns : List Turn := []

/-- The time at which a call has something to do again. -/
def CallStatus.wake? : CallStatus → Option Nat
  | .waiting c => some c.wake
  | .over _ => none

/-- What the breaker answers a call in its next step, if the call asks it then. -/
def Gate.told? (g : Gate) (c : Call) : Option Admission :=
  match c.stage with
  | .asking w =>
    if w.ends ≤ g.now ∧ FlagGate.enabled w.answer? = true then some (g.enter c.policy).2 else none
  | .validating .. => none

namespace Turn

def lookups (t : Turn) : List LookupMade :=
  lookupsSince t.before.now t.before.catalog t.after.catalog

/-- The answer of the breaker, with its time. -/
def answer? (t : Turn) : Option (Nat × Admission) :=
  t.told.map (t.before.now, ·)

end Turn

namespace GateSession

/-- The call with this number did something, and got somewhere. -/
def turn (s : GateSession) (i : Nat) (v : Visit) (g : Gate) (status : CallStatus)
    (told : Option Admission) : GateSession where
  gate := g
  visits := s.visits.set i { v with status }
  turns := s.turns ++ [⟨i, s.gate, g, told⟩]

def call? (s : GateSession) (i : Nat) : Option (Visit × Call) :=
  match s.visits[i]? with
  | some v =>
    match v.status with
    | .waiting c => some (v, c)
    | .over _ => none
  | none => none

def wakes (s : GateSession) : List Nat :=
  s.visits.filterMap (·.status.wake?)

def step (s : GateSession) : GateStep → GateSession
  | .arrive r draws =>
    let (g, c) := s.gate.begin r draws
    { gate := g
      visits := s.visits ++ [⟨⟨s.gate, r⟩, .waiting c⟩]
      turns := s.turns ++ [⟨s.visits.length, s.gate, g, none⟩] }
  | .advance i =>
    match s.call? i with
    | some (v, c) =>
      let (g, a) := s.gate.step c
      s.turn i v g (a.status c) (s.gate.told? c)
    | none => s
  | .cancel i =>
    match s.call? i with
    | some (v, c) => s.turn i v (s.gate.cancel c) (.over .cancelled) none
    | none => s
  -- Time stops at the first wake, which some call has to use before time goes on.
  | .wait ms => { s with gate := s.gate.waitUntil (s.wakes.foldl min (s.gate.now + ms)) }
  | .replace p => { s with gate := { s.gate with policy := p } }

def run (g : Gate) (steps : List GateStep) : GateSession :=
  steps.foldl step { gate := g }

/-- The session can come about with this gate. -/
def Reached (g : Gate) (s : GateSession) : Prop :=
  ∃ steps, run g steps = s

/-- What the call with this number did, in order. -/
def turnsOf (s : GateSession) (i : Nat) : List Turn :=
  s.turns.filter (·.number = i)

def lookupsOf (s : GateSession) (i : Nat) : List LookupMade :=
  (s.turnsOf i).flatMap Turn.lookups

/-- What the breaker answered the call with this number, and when. -/
def toldOf (s : GateSession) (i : Nat) : List (Nat × Admission) :=
  (s.turnsOf i).filterMap Turn.answer?

/-- No call under way has missed its wake. -/
def Punctual (s : GateSession) : Prop :=
  ∀ t ∈ s.wakes, s.gate.now ≤ t

/-- The turns belong to calls of the session. -/
def Numbered (s : GateSession) : Prop :=
  ∀ t ∈ s.turns, t.number < s.visits.length

variable {s : GateSession} {i : Nat} {v : Visit} {c : Call}

theorem run_append (g : Gate) (steps : List GateStep) (step : GateStep) :
    run g (steps ++ [step]) = (run g steps).step step := by
  rw [run, List.foldl_append]
  rfl

theorem call?_eq_some_iff :
    s.call? i = some (v, c) ↔ s.visits[i]? = some v ∧ v.status = .waiting c := by
  unfold call?
  cases hv : s.visits[i]? with
  | none => simp
  | some u =>
    cases hu : u.status with
    | waiting d => simp only [hu]; grind
    | _ r => simp only [hu]; grind

theorem mem_wakes_of_call? (h : s.call? i = some (v, c)) : c.wake ∈ s.wakes := by
  obtain ⟨hv, hc⟩ := call?_eq_some_iff.mp h
  rw [wakes, List.mem_filterMap]
  exact ⟨v, List.mem_of_getElem? hv, by rw [hc]; rfl⟩

theorem exists_call?_of_mem (hv : v ∈ s.visits) (hw : v.status = .waiting c) :
    ∃ i, s.call? i = some (v, c) := by
  obtain ⟨i, hi⟩ := List.getElem?_of_mem hv
  exact ⟨i, call?_eq_some_iff.mpr ⟨hi, hw⟩⟩

theorem lt_of_call? (h : s.call? i = some (v, c)) : i < s.visits.length := by
  obtain ⟨hv, -⟩ := call?_eq_some_iff.mp h
  exact (List.getElem?_eq_some_iff.mp hv).1

theorem reached_run (g : Gate) (steps : List GateStep) : Reached g (run g steps) :=
  ⟨steps, rfl⟩

/-- What holds at first and outlives every step holds whatever the session comes to. -/
theorem Reached.induct {P : GateSession → Prop} {g : Gate} (start : P { gate := g })
    (arrive : ∀ s r draws, Reached g s → P s → P (s.step (.arrive r draws)))
    (advance : ∀ s i v c, Reached g s → P s → s.call? i = some (v, c) →
      P (s.turn i v (s.gate.step c).1 ((s.gate.step c).2.status c) (s.gate.told? c)))
    (cancel : ∀ s i v c, Reached g s → P s → s.call? i = some (v, c) →
      P (s.turn i v (s.gate.cancel c) (.over .cancelled) none))
    (wait : ∀ s ms, Reached g s → P s → P (s.step (.wait ms)))
    (replace : ∀ s p, Reached g s → P s → P (s.step (.replace p))) (h : Reached g s) : P s := by
  obtain ⟨steps, rfl⟩ := h
  induction steps using List.reverseRecOn with
  | nil => exact start
  | append_singleton steps step ih =>
    have hr := reached_run g steps
    rw [run_append]
    cases step with
    | arrive r draws => exact arrive _ r draws hr ih
    | advance i =>
      cases hc : (run g steps).call? i with
      | none => simpa only [GateSession.step, hc] using ih
      | some x => simpa only [GateSession.step, hc] using advance _ i x.1 x.2 hr ih hc
    | cancel i =>
      cases hc : (run g steps).call? i with
      | none => simpa only [GateSession.step, hc] using ih
      | some x => simpa only [GateSession.step, hc] using cancel _ i x.1 x.2 hr ih hc
    | wait ms => exact wait _ ms hr ih
    | replace p => exact replace _ p hr ih

theorem foldl_min_le_start (n : Nat) (l : List Nat) : l.foldl min n ≤ n := by
  induction l generalizing n with
  | nil => exact Nat.le_refl n
  | cons m l ih => exact Nat.le_trans (ih (min n m)) (Nat.min_le_left n m)

theorem foldl_min_le_of_mem {l : List Nat} {m : Nat} (n : Nat) (h : m ∈ l) :
    l.foldl min n ≤ m := by
  induction l generalizing n with
  | nil => cases h
  | cons k l ih =>
    rcases List.mem_cons.mp h with rfl | h
    · exact Nat.le_trans (foldl_min_le_start _ l) (Nat.min_le_right n m)
    · exact ih _ h

theorem le_foldl_min {l : List Nat} {n k : Nat} (hl : ∀ m ∈ l, k ≤ m) (hn : k ≤ n) :
    k ≤ l.foldl min n := by
  induction l generalizing n with
  | nil => exact hn
  | cons m l ih =>
    apply ih fun j hj => hl j (List.mem_cons_of_mem m hj)
    exact Nat.le_min.mpr ⟨hn, hl m List.mem_cons_self⟩

theorem Punctual.turn (h : s.Punctual) {g : Gate} {status : CallStatus} {told : Option Admission}
    (hnow : g.now = s.gate.now) (hw : ∀ t, status.wake? = some t → s.gate.now ≤ t) :
    (s.turn i v g status told).Punctual := by
  intro t ht
  change g.now ≤ t
  rw [hnow]
  obtain ⟨u, hu, hut⟩ := List.mem_filterMap.mp ht
  rcases List.mem_or_eq_of_mem_set hu with hu | rfl
  · exact h t (List.mem_filterMap.mpr ⟨u, hu, hut⟩)
  · exact hw t hut

theorem wake_status (h : s.Punctual) (hc : s.call? i = some (v, c)) {t : Nat}
    (ht : ((s.gate.step c).2.status c).wake? = some t) : s.gate.now ≤ t := by
  have hs := s.gate.stride c
  generalize (s.gate.step c).2 = a at hs ht
  cases a with
  | waiting =>
    obtain rfl := Option.some.inj ht
    exact h _ (mem_wakes_of_call? hc)
  | moved c' =>
    obtain rfl := Option.some.inj ht
    exact hs.le_wake
  | _ r => cases ht

theorem Reached.punctual {g : Gate} (h : Reached g s) : s.Punctual := by
  apply h.induct
  case start => exact fun t ht => absurd ht List.not_mem_nil
  case arrive =>
    intro s r draws _ ih t ht
    obtain ⟨v, hv, hvt⟩ := List.mem_filterMap.mp ht
    rcases List.mem_append.mp hv with hv | hv
    · exact ih t (List.mem_filterMap.mpr ⟨v, hv, hvt⟩)
    · obtain rfl := List.mem_singleton.mp hv
      obtain rfl := Option.some.inj hvt
      exact s.gate.le_wake_begin r draws
  case advance =>
    intro s i v c _ ih hc
    exact ih.turn (s.gate.stride c).now_eq fun t ht => wake_status ih hc ht
  case cancel =>
    intro s i v c _ ih hc
    exact ih.turn (s.gate.cancel_now c) nofun
  case wait =>
    intro s ms _ ih t ht
    exact Nat.max_le.mpr ⟨ih t ht, foldl_min_le_of_mem _ ht⟩
  case replace => exact fun s p _ ih => ih

theorem Numbered.turn (h : s.Numbered) (hi : i < s.visits.length) {g : Gate}
    {status : CallStatus} {told : Option Admission} : (s.turn i v g status told).Numbered := by
  intro t ht
  change t.number < (s.visits.set i _).length
  rw [List.length_set]
  rcases List.mem_append.mp ht with ht | ht
  · exact h t ht
  · rw [List.mem_singleton.mp ht]
    exact hi

theorem Reached.numbered {g : Gate} (h : Reached g s) : s.Numbered := by
  apply h.induct
  case start => exact fun t ht => absurd ht List.not_mem_nil
  case arrive =>
    intro s r draws _ ih t ht
    change t.number < (s.visits ++ [_]).length
    rw [List.length_append]
    rcases List.mem_append.mp ht with ht | ht
    · exact Nat.lt_succ_of_lt (ih t ht)
    · rw [List.mem_singleton.mp ht]
      exact Nat.lt_succ_self _
  case advance => exact fun s i v c _ ih hc => ih.turn (lt_of_call? hc)
  case cancel => exact fun s i v c _ ih hc => ih.turn (lt_of_call? hc)
  case wait => exact fun s ms _ ih => ih
  case replace => exact fun s p _ ih => ih

theorem visit_arrive {r : Request} {draws : Nat → Nat}
    (h : (s.step (.arrive r draws)).visits[i]? = some v) :
    (i = s.visits.length ∧ v = ⟨⟨s.gate, r⟩, .waiting (s.gate.begin r draws).2⟩) ∨
      (i < s.visits.length ∧ s.visits[i]? = some v) := by
  change (s.visits ++ [_])[i]? = some v at h
  rw [List.getElem?_append] at h
  split at h
  · next hlt => exact .inr ⟨hlt, h⟩
  · next hge =>
    obtain ⟨hi, rfl⟩ := List.getElem?_eq_some_iff.mp h
    rw [List.length_singleton] at hi
    exact .inl ⟨by omega, List.getElem_singleton _⟩

theorem visit_turn {j : Nat} {u : Visit} {g : Gate} {status : CallStatus}
    {told : Option Admission} (h : (s.turn i v g status told).visits[j]? = some u) :
    (j = i ∧ u = { v with status }) ∨ (j ≠ i ∧ s.visits[j]? = some u) := by
  rw [turn, List.getElem?_set] at h
  split at h
  · next hij =>
    split at h
    · exact .inl ⟨hij.symm, (Option.some.inj h).symm⟩
    · exact absurd h nofun
  · next hij => exact .inr ⟨Ne.symm hij, h⟩

theorem turnsOf_arrive_self (h : s.Numbered) (r : Request) (draws : Nat → Nat) :
    (s.step (.arrive r draws)).turnsOf s.visits.length =
      [⟨s.visits.length, s.gate, (s.gate.begin r draws).1, none⟩] := by
  have hnil : s.turnsOf s.visits.length = [] := by
    rw [turnsOf, List.filter_eq_nil_iff]
    intro t ht
    have hlt := h t ht
    simp only [decide_eq_true_eq]
    omega
  rw [turnsOf] at hnil
  simp [step, turnsOf, hnil]

theorem turnsOf_arrive_of_lt (h : i < s.visits.length) (r : Request) (draws : Nat → Nat) :
    (s.step (.arrive r draws)).turnsOf i = s.turnsOf i := by
  have hne := Nat.ne_of_gt h
  simp [step, turnsOf, hne]

theorem turnsOf_turn_self {g : Gate} {status : CallStatus} {told : Option Admission} :
    (s.turn i v g status told).turnsOf i = s.turnsOf i ++ [⟨i, s.gate, g, told⟩] := by
  simp [turn, turnsOf]

theorem turnsOf_turn_of_ne {j : Nat} (h : j ≠ i) {g : Gate} {status : CallStatus}
    {told : Option Admission} : (s.turn i v g status told).turnsOf j = s.turnsOf j := by
  simp [turn, turnsOf, Ne.symm h]

end GateSession

end StockGate
