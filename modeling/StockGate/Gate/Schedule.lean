import StockGate.Gate.Call

namespace StockGate

structure Timer where
  time : Nat
  /-- How many timers had been set before. -/
  order : Nat
  deriving DecidableEq

def Timer.before (a b : Timer) : Bool :=
  a.time < b.time || (a.time = b.time && a.order < b.order)

def Timer.first (a : Timer) : Option Timer → Timer
  | none => a
  | some b => if b.before a then b else a

theorem Timer.first_time_le {a : Timer} {b : Option Timer} :
    a.time = (a.first b).time ∨ b.any (·.time ≤ (a.first b).time) = true := by
  unfold Timer.first
  split
  · exact .inl rfl
  · split
    · exact .inr (by simp)
    · exact .inl rfl

/-- A call to be made. -/
structure Plan where
  request : Request
  /-- The pause before the call arrives. -/
  start : Nat := 0
  /-- How long after its arrival the call is given up. -/
  cancelAfter : Option Nat := none
  draws : Nat → Nat

inductive Task where
  | planned (p : Plan) (start : Timer)
  /-- The number is that of the timer set for the call's wake. -/
  | running (c : Call) (order : Nat) (cancel : Option Timer)
  | done (r : CallResult) (time : Nat)

namespace Task

/-- The next timer that concerns the task. -/
def timer? : Task → Option Timer
  | .planned _ start => some start
  | .running c order cancel => some (Timer.first ⟨c.wake, order⟩ cancel)
  | .done .. => none

def isPlanned : Task → Bool
  | .planned .. => true
  | _ => false

def weight : Task → Nat
  | .running c _ _ => c.rank + 1
  | _ => 0

def result? : Task → Option (CallResult × Nat)
  | .done r time => some (r, time)
  | _ => none

end Task

/-- Concurrent calls of a gate on one clock, which jumps from timer to timer. Of two
timers for the same moment the one set first goes first. -/
structure Clockwork where
  gate : Gate
  timers : Nat := 0

namespace Clockwork

/-- Goes on with a call; a call that has to wait although its cancellation is due is cancelled. -/
def advance (k : Clockwork) (c : Call) (cancel : Option Timer) : Clockwork × Task :=
  match k.gate.resume c with
  | (g, .over r) => ({ k with gate := g }, .done r k.gate.now)
  | (g, .waiting c) =>
    if cancel.any (·.time ≤ k.gate.now) then
      ({ k with gate := g.cancel c }, .done .cancelled k.gate.now)
    else ({ gate := g, timers := k.timers + 2 }, .running c k.timers cancel)

/-- The timer of the cancellation is set right after the first of the call itself. -/
def start (k : Clockwork) (p : Plan) : Clockwork × Task :=
  let (g, c) := k.gate.begin p.request p.draws
  advance { k with gate := g } c (p.cancelAfter.map fun d => ⟨g.now + d, k.timers + 1⟩)

/-- A call without a pause before it arrives at once. -/
def plan (k : Clockwork) (p : Plan) : Clockwork × Task :=
  if p.start = 0 then k.start p
  else ({ k with timers := k.timers + 1 }, .planned p ⟨k.gate.now + p.start, k.timers⟩)

def planAll (k : Clockwork) : List Plan → Clockwork × List Task
  | [] => (k, [])
  | p :: ps =>
    let (k, t) := k.plan p
    let (k, ts) := k.planAll ps
    (k, t :: ts)

def fire (k : Clockwork) (t : Task) (time : Nat) : Clockwork × Task :=
  let k := { k with gate := k.gate.waitUntil time }
  match t with
  | .planned p _ => k.start p
  | .running c _ cancel => k.advance c cancel
  | .done .. => (k, t)

/-- The task with the earliest timer, between those before it and those after it. -/
def earliest : List Task → Option (List Task × Task × Timer × List Task)
  | [] => none
  | t :: ts =>
    match t.timer?, earliest ts with
    | none, none => none
    | some timer, none => some ([], t, timer, ts)
    | none, some (l, u, timer, r) => some (t :: l, u, timer, r)
    | some timer, some (l, u, other, r) =>
      if other.before timer then some (t :: l, u, other, r) else some ([], t, timer, ts)

theorem eq_of_earliest {ts l r : List Task} {t : Task} {timer : Timer}
    (h : earliest ts = some (l, t, timer, r)) : ts = l ++ t :: r ∧ t.timer? = some timer := by
  induction ts generalizing l t timer r with
  | nil => simp [earliest] at h
  | cons u ts ih =>
    simp only [earliest] at h
    split at h
    · simp at h
    · simp_all
    · next he =>
      obtain ⟨rfl, rfl, rfl, rfl⟩ := by simpa using h
      have := ih he
      simp [this.1, this.2]
    · next hu he =>
      split at h
      · obtain ⟨rfl, rfl, rfl, rfl⟩ := by simpa using h
        have := ih he
        simp [this.1, this.2]
      · simp_all

def weights : List Task → Nat
  | [] => 0
  | t :: ts => t.weight + weights ts

theorem weights_append (l : List Task) (t : Task) (r : List Task) :
    weights (l ++ t :: r) = weights l + t.weight + weights r := by
  induction l with
  | nil => simp [weights]
  | cons u l ih =>
    simp only [List.cons_append, weights, ih]
    omega

/-- Calls still to arrive, and wakes still to come. -/
def measure (ts : List Task) : Nat × Nat :=
  (ts.countP Task.isPlanned, weights ts)

@[simp]
theorem isPlanned_planned {p : Plan} {start : Timer} :
    (Task.planned p start).isPlanned = true := rfl

@[simp]
theorem isPlanned_running {c : Call} {order : Nat} {cancel : Option Timer} :
    (Task.running c order cancel).isPlanned = false := rfl

@[simp]
theorem isPlanned_advance {k : Clockwork} {c : Call} {cancel : Option Timer} :
    (k.advance c cancel).2.isPlanned = false := by
  unfold advance
  split
  · rfl
  · split <;> rfl

theorem weight_advance_lt {k : Clockwork} {c : Call} {cancel : Option Timer} (order : Nat)
    (h : c.wake ≤ k.gate.now ∨ cancel.any (·.time ≤ k.gate.now) = true) :
    (k.advance c cancel).2.weight < (Task.running c order cancel).weight := by
  unfold advance
  split
  · simp [Task.weight]
  · next g c' hr =>
    split
    · simp [Task.weight]
    · next hc =>
      have := Gate.rank_lt_of_resume (g := k.gate) (c := c) (by rw [hr]) (by simp_all)
      simpa [Task.weight] using this

theorem measure_fire_lt {k : Clockwork} {l r : List Task} {t : Task} {timer : Timer}
    (h : t.timer? = some timer) :
    Prod.Lex (· < ·) (· < ·) (measure (l ++ (k.fire t timer.time).2 :: r))
      (measure (l ++ t :: r)) := by
  cases t with
  | planned p start =>
    apply Prod.Lex.left
    simp [fire, Clockwork.start, List.countP_cons]
  | running c order cancel =>
    obtain rfl := by simpa [Task.timer?] using h
    have hw := @weight_advance_lt
      { k with gate := k.gate.waitUntil (Timer.first ⟨c.wake, order⟩ cancel).time } c cancel order
      (by
        simp only [Gate.waitUntil]
        rcases Timer.first_time_le (a := ⟨c.wake, order⟩) (b := cancel) with h | h
        · left; simp only at h; omega
        · right
          simp only [Option.any_eq_true, decide_eq_true_eq] at h ⊢
          obtain ⟨b, hb, hle⟩ := h
          exact ⟨b, hb, decide_eq_true (Nat.le_trans hle (Nat.le_max_right _ _))⟩)
    have hp : List.countP Task.isPlanned
        (l ++ (k.fire (.running c order cancel) (Timer.first ⟨c.wake, order⟩ cancel).time).2 :: r) =
        List.countP Task.isPlanned (l ++ Task.running c order cancel :: r) := by
      simp [fire]
    unfold measure
    rw [hp]
    apply Prod.Lex.right
    simp only [fire, weights_append] at hw ⊢
    omega
  | done => simp [Task.timer?] at h

/-- Lets timers go off until none is left. -/
def run (k : Clockwork) (ts : List Task) : Clockwork × List Task :=
  match _h : earliest ts with
  | none => (k, ts)
  | some (l, t, timer, r) =>
    let next := k.fire t timer.time
    run next.1 (l ++ next.2 :: r)
termination_by measure ts
decreasing_by
  obtain ⟨rfl, ht⟩ := eq_of_earliest _h
  exact measure_fire_lt ht

end Clockwork

/-- Makes all the calls, started in the order of the list, and tells how and when each one ended. -/
def Gate.callAll (g : Gate) (plans : List Plan) : Gate × List (CallResult × Nat) :=
  let (k, ts) := Clockwork.planAll { gate := g } plans
  let (k, ts) := k.run ts
  (k.gate, ts.filterMap Task.result?)

end StockGate
