import StockGate.Proofs.Breaker.Session

namespace StockGate

namespace Transition

def legal : List Transition :=
  [⟨.closed, .opened⟩, ⟨.opened, .halfOpen⟩, ⟨.halfOpen, .closed⟩, ⟨.halfOpen, .opened⟩]

/-- Moves that lead from one state to another, each from where the one before it ended. -/
def Path : CircuitState → List Transition → CircuitState → Prop
  | a, [], c => a = c
  | a, t :: ts, c => t.source = a ∧ Path t.target ts c

theorem path_append {a b c : CircuitState} {ts us : List Transition} (h : Path a ts b)
    (h' : Path b us c) : Path a (ts ++ us) c := by
  induction ts generalizing a with
  | nil => exact h ▸ h'
  | cons t ts ih => exact ⟨h.1, ih h.2⟩

theorem Path.end_eq {a c : CircuitState} {ts : List Transition} (h : Path a ts c) :
    ts = [] ∧ c = a ∨ ∃ t, ts.getLast? = some t ∧ t.target = c := by
  induction ts generalizing a with
  | nil => exact .inl ⟨rfl, h.symm⟩
  | cons t ts ih =>
    right
    rcases ih h.2 with ⟨rfl, hc⟩ | ⟨u, hu, hc⟩
    · exact ⟨t, rfl, hc.symm⟩
    · exact ⟨u, by rw [List.getLast?_cons, hu]; rfl, hc⟩

end Transition

/-- The move that an event of the log tells of. -/
def Event.move? : Event → Option Transition
  | .circuitMoved t => some t
  | _ => none

namespace Breaker

variable {b b' : Breaker} {now : Nat} {t : Option Transition}

/-- What a use of the breaker does to the circuit: nothing, or the move that it announces. -/
inductive Shift (b : Breaker) (now : Nat) (b' : Breaker) : Option Transition → Prop
  | stay (hs : b'.state = b.state) (ho : b'.openedAt = b.openedAt) : Shift b now b' none
  | move {t : Transition} (hsource : t.source = b.state) (htarget : t.target = b'.state)
      (hlegal : t ∈ Transition.legal) (ho : b'.state = .opened → b'.openedAt = some now) :
      Shift b now b' (some t)

theorem Entry.shift {p : Policy} {a : Admission} (h : b.Entry now p b' a t) :
    b.Shift now b' t := by
  cases h with
  | pass => exact .stay rfl rfl
  | probe hs => exact .move hs.symm rfl (by decide) nofun
  | early => exact .stay rfl rfl
  | busy => exact .stay rfl rfl

theorem Recording.shift {permit : Permit} {success : Bool}
    (h : b.Recording now permit success b' t) : b.Shift now b' t := by
  cases h with
  | close _ hs => exact .move hs.symm rfl (by decide) nofun
  | reopen _ hs => exact .move hs.symm rfl (by decide) (fun _ => rfl)
  | trip _ hs => exact .move hs.symm rfl (by decide) (fun _ => rfl)
  | count => exact .stay rfl rfl
  | late => exact .stay rfl rfl

end Breaker

namespace BreakerSession

open Transition (Path)

variable {s : BreakerSession}

/-- The last move, at `time`, was to `target`. -/
def EndsIn (s : BreakerSession) (target : CircuitState) (time : Nat) : Prop :=
  ∃ source, s.moves.getLast? = some (time, ⟨source, target⟩)

/-- The moves tell how the circuit came to its state, and when it opened. -/
structure Told (s : BreakerSession) : Prop where
  path : Path .closed (s.moves.map Prod.snd) s.breaker.state
  legal : ∀ m ∈ s.moves, m.2 ∈ Transition.legal
  past : ∀ m ∈ s.moves, m.1 ≤ s.now
  opening : s.breaker.state = .opened → ∃ time, s.breaker.openedAt = some time ∧
    s.EndsIn .opened time
  logged : s.log.filterMap Event.move? = s.moves.map Prod.snd

theorem told_new : Told {} where
  path := rfl
  legal := nofun
  past := nofun
  opening := nofun
  logged := rfl

theorem Told.update {b : Breaker} {t : Option Transition} (h : s.Told)
    (hshift : s.breaker.Shift s.now b t) : (s.update b t).Told := by
  cases hshift with
  | stay hs ho =>
    have hmoves : (s.update b none).moves = s.moves := by simp [BreakerSession.update]
    have hlog : (s.update b none).log = s.log := by simp [BreakerSession.update]
    refine ⟨?_, ?_, ?_, ?_, ?_⟩
    · rw [hmoves]
      exact hs ▸ h.path
    · rw [hmoves]
      exact h.legal
    · rw [hmoves]
      exact h.past
    · intro hopened
      obtain ⟨time, htime, hlast⟩ := h.opening (hs.symm.trans hopened)
      exact ⟨time, ho.trans htime, by rw [EndsIn, hmoves]; exact hlast⟩
    · rw [hmoves, hlog]
      exact h.logged
  | @move t hsource htarget hlegal ho =>
    have hmoves : (s.update b (some t)).moves = s.moves ++ [(s.now, t)] := rfl
    refine ⟨?_, ?_, ?_, ?_, ?_⟩
    · rw [hmoves, List.map_append]
      exact Transition.path_append h.path ⟨hsource, htarget⟩
    · intro m hm
      rw [hmoves, List.mem_append, List.mem_singleton] at hm
      rcases hm with hm | rfl
      · exact h.legal m hm
      · exact hlegal
    · intro m hm
      rw [hmoves, List.mem_append, List.mem_singleton] at hm
      rcases hm with hm | rfl
      · exact h.past m hm
      · exact Nat.le_refl s.now
    -- A circuit that is open after a move has been opened by it, just now.
    · intro hopened
      refine ⟨s.now, ho hopened, t.source, ?_⟩
      rw [hmoves, List.getLast?_concat, ← show t.target = .opened from htarget.trans hopened]
    · rw [hmoves, List.map_append, ← h.logged]
      exact List.filterMap_append

theorem Told.step (hsound : s.Sound) (h : s.Told) (step : BreakerStep) : (s.step step).Told := by
  have hstride := hsound.stride step
  generalize s.step step = s' at hstride ⊢
  cases hstride with
  | refuse => exact h
  | grant he =>
    have hu := h.update he.shift
    exact ⟨hu.path, hu.legal, hu.past, hu.opening, hu.logged⟩
  | @record holder success permit b t hh hr =>
    have hw : (s.without holder).Told := ⟨h.path, h.legal, h.past, h.opening, h.logged⟩
    exact hw.update hr.shift
  | giveUp => exact ⟨h.path, h.legal, h.past, h.opening, h.logged⟩
  | @abandon holder permit b t hh _ hr =>
    have hlog : (s.log ++ [Event.probeDropped]).filterMap Event.move? = s.moves.map Prod.snd := by
      rw [List.filterMap_append, h.logged]
      exact List.append_nil _
    -- The log has one event more, which tells of no move.
    have hw : Told { s.without holder with log := s.log ++ [Event.probeDropped] } :=
      ⟨h.path, h.legal, h.past, h.opening, hlog⟩
    exact hw.update hr.shift
  | reportNone => exact h
  | dropNone => exact h
  | wait ms =>
    exact ⟨h.path, h.legal, fun m hm => Nat.le_trans (h.past m hm) (Nat.le_add_right s.now ms),
      h.opening, h.logged⟩

theorem told_run (steps : List BreakerStep) : (run steps).Told := by
  induction steps using List.reverseRecOn with
  | nil => exact told_new
  | append_singleton steps step ih => exact run_append steps step ▸ ih.step (sound_run steps) step

theorem Told.end_eq (h : s.Told) :
    s.moves = [] ∧ s.breaker.state = .closed ∨ ∃ time, s.EndsIn s.breaker.state time := by
  rcases h.path.end_eq with ⟨hnil, hs⟩ | ⟨t, ht, hs⟩
  · exact .inl ⟨List.map_eq_nil_iff.mp hnil, hs⟩
  · right
    rw [List.getLast?_map, Option.map_eq_some_iff] at ht
    obtain ⟨⟨time, _⟩, hlast, rfl⟩ := ht
    exact ⟨time, _, by rw [hlast, ← hs]⟩

theorem EndsIn.unique {a c : CircuitState} {t u : Nat} (h : s.EndsIn a t) (h' : s.EndsIn c u) :
    a = c ∧ t = u := by
  obtain ⟨source, hlast⟩ := h
  obtain ⟨source', hlast'⟩ := h'
  rw [hlast] at hlast'
  simp only [Option.some.injEq, Prod.mk.injEq, Transition.mk.injEq] at hlast'
  exact ⟨hlast'.2.2, hlast'.1⟩

theorem Told.state_eq {target : CircuitState} {time : Nat} (h : s.Told)
    (he : s.EndsIn target time) : s.breaker.state = target := by
  rcases h.end_eq with ⟨hnil, -⟩ | ⟨time', he'⟩
  · obtain ⟨source, hlast⟩ := he
    rw [hnil] at hlast
    cases hlast
  · exact (he'.unique he).1

theorem Told.closed_iff (h : s.Told) :
    s.breaker.state = .closed ↔ s.moves = [] ∨ ∃ time, s.EndsIn .closed time := by
  constructor
  · intro hs
    rcases h.end_eq with ⟨hnil, -⟩ | ⟨time, he⟩
    · exact .inl hnil
    · exact .inr ⟨time, hs ▸ he⟩
  · rintro (hnil | ⟨time, he⟩)
    · rcases h.end_eq with ⟨-, hs⟩ | ⟨time, source, hlast⟩
      · exact hs
      · rw [hnil] at hlast
        cases hlast
    · exact h.state_eq he

theorem Told.halfOpen_iff (h : s.Told) :
    s.breaker.state = .halfOpen ↔ ∃ time, s.EndsIn .halfOpen time := by
  constructor
  · intro hs
    rcases h.end_eq with ⟨-, hc⟩ | ⟨time, he⟩
    · rw [hs] at hc
      cases hc
    · exact ⟨time, hs ▸ he⟩
  · rintro ⟨time, he⟩
    exact h.state_eq he

theorem Told.opened_iff {time : Nat} (h : s.Told) :
    s.breaker.state = .opened ∧ s.breaker.openedAt = some time ↔ s.EndsIn .opened time := by
  constructor
  · rintro ⟨hs, ht⟩
    obtain ⟨time', ht', he⟩ := h.opening hs
    obtain rfl : time = time' := Option.some.inj (ht.symm.trans ht')
    exact he
  · intro he
    have hs := h.state_eq he
    obtain ⟨time', ht', he'⟩ := h.opening hs
    exact ⟨hs, (he.unique he').2 ▸ ht'⟩

theorem Sound.admission (h : s.Sound) (holder : String) (p : Policy) :
    ∃ b t, s.breaker.Entry s.now p b (s.ask holder p).2 t :=
  ⟨_, _, ask_snd s holder p ▸ h.coherent.entry p⟩

variable {holder : String} {p : Policy}

theorem Sound.granted_ordinary_iff (h : s.Sound) :
    (s.ask holder p).2 = .granted ⟨p, false⟩ ↔ s.breaker.state = .closed := by
  obtain ⟨b, t, he⟩ := h.admission holder p
  generalize (s.ask holder p).2 = a at he ⊢
  cases he with
  | pass hs => simp [hs]
  | probe hs => simp [hs]
  | early hs => simp [hs]
  | busy hs => simp [hs]

theorem Sound.granted_probe_iff (h : s.Sound) :
    (s.ask holder p).2 = .granted ⟨p, true⟩ ↔ ∃ time,
      (s.breaker.state = .opened ∧ s.breaker.openedAt = some time) ∧
      time + p.breakDuration ≤ s.now := by
  obtain ⟨b, t, he⟩ := h.admission holder p
  generalize (s.ask holder p).2 = a at he ⊢
  cases he with
  | pass hs => simp [hs]
  | probe hs ht hover => simp [hs, ht, hover]
  | early hs ht hover => simpa [hs, ht] using hover
  | busy hs => simp [hs]

theorem Sound.refused_opened_iff (h : s.Sound) :
    (s.ask holder p).2 = .refused .opened ↔ ∃ time,
      (s.breaker.state = .opened ∧ s.breaker.openedAt = some time) ∧
      s.now < time + p.breakDuration := by
  obtain ⟨b, t, he⟩ := h.admission holder p
  generalize (s.ask holder p).2 = a at he ⊢
  cases he with
  | pass hs => simp [hs]
  | probe hs ht hover => simpa [hs, ht] using hover
  | early hs ht hover => simp [hs, ht, hover]
  | busy hs => simp [hs]

theorem Sound.refused_halfOpen_iff (h : s.Sound) :
    (s.ask holder p).2 = .refused .halfOpen ↔ s.breaker.state = .halfOpen := by
  obtain ⟨b, t, he⟩ := h.admission holder p
  generalize (s.ask holder p).2 = a at he ⊢
  cases he with
  | pass hs => simp [hs]
  | probe hs => simp [hs]
  | early hs => simp [hs]
  | busy hs => simp [hs]

/-- The moves announced in any use of a breaker are one path of legal moves from the closed circuit
to the present one, and the last of them, with its time, decides what the next caller is told. -/
theorem moves_decide_admission (steps : List BreakerStep) :
    Path .closed ((run steps).moves.map Prod.snd) (run steps).breaker.state ∧
    (∀ m ∈ (run steps).moves, m.2 ∈ Transition.legal ∧ m.1 ≤ (run steps).now) ∧
    (run steps).log.filterMap Event.move? = (run steps).moves.map Prod.snd ∧
    ∀ holder p,
      (((run steps).ask holder p).2 = .granted ⟨p, false⟩ ↔
        (run steps).moves = [] ∨ ∃ time, (run steps).EndsIn .closed time) ∧
      (((run steps).ask holder p).2 = .granted ⟨p, true⟩ ↔
        ∃ time, (run steps).EndsIn .opened time ∧ time + p.breakDuration ≤ (run steps).now) ∧
      (((run steps).ask holder p).2 = .refused .opened ↔
        ∃ time, (run steps).EndsIn .opened time ∧ (run steps).now < time + p.breakDuration) ∧
      (((run steps).ask holder p).2 = .refused .halfOpen ↔
        ∃ time, (run steps).EndsIn .halfOpen time) := by
  have hsound := sound_run steps
  have htold := told_run steps
  refine ⟨htold.path, fun m hm => ⟨htold.legal m hm, htold.past m hm⟩, htold.logged, ?_⟩
  intro holder p
  refine ⟨?_, ?_, ?_, ?_⟩
  · rw [hsound.granted_ordinary_iff, htold.closed_iff]
  · rw [hsound.granted_probe_iff]
    simp only [htold.opened_iff]
  · rw [hsound.refused_opened_iff]
    simp only [htold.opened_iff]
  · rw [hsound.refused_halfOpen_iff, htold.halfOpen_iff]

end BreakerSession

end StockGate
