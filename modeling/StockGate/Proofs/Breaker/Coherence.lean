import StockGate.Breaker.Basic

namespace StockGate

def Admission.probes : Admission → Nat
  | .granted permit => permit.probe.toNat
  | .refused _ => 0

namespace Breaker

variable {b : Breaker} {now probes : Nat}

/-- The fields agree with the state, when `probes` probes are out. -/
structure Coherent (b : Breaker) (now probes : Nat) : Prop where
  closed : b.state = .closed → b.openedAt = none ∧ b.probing = false ∧ probes = 0
  opened : b.state = .opened → (∃ t ≤ now, b.openedAt = some t) ∧ b.probing = false ∧ probes = 0
  halfOpen : b.state = .halfOpen → b.openedAt.isSome = true ∧ b.probing = true ∧ probes = 1

/-- What can come of asking a coherent breaker. -/
inductive Entry (b : Breaker) (now : Nat) (p : Policy) :
    Breaker → Admission → Option Transition → Prop
  | pass (hs : b.state = .closed) : Entry b now p b (.granted ⟨p, false⟩) none
  | probe {t : Nat} (hs : b.state = .opened) (ht : b.openedAt = some t)
      (hover : t + p.breakDuration ≤ now) :
      Entry b now p { b with state := .halfOpen, probing := true } (.granted ⟨p, true⟩)
        (some ⟨.opened, .halfOpen⟩)
  | early {t : Nat} (hs : b.state = .opened) (ht : b.openedAt = some t)
      (hover : now < t + p.breakDuration) : Entry b now p b (.refused .opened) none
  | busy (hs : b.state = .halfOpen) : Entry b now p b (.refused .halfOpen) none

def windowAfter (b : Breaker) (now : Nat) (p : Policy) (success : Bool) : Window :=
  (b.window.prune now p.samplingWindow).push ⟨now, !success⟩

/-- What can come of an outcome that is handed to a coherent breaker. -/
inductive Recording (b : Breaker) (now : Nat) (permit : Permit) (success : Bool) :
    Breaker → Option Transition → Prop
  | close (hp : permit.probe = true) (hs : b.state = .halfOpen) (hok : success = true) :
      Recording b now permit success {} (some ⟨.halfOpen, .closed⟩)
  | reopen (hp : permit.probe = true) (hs : b.state = .halfOpen) (hok : success = false) :
      Recording b now permit success
        { b with state := .opened, openedAt := some now, probing := false }
        (some ⟨.halfOpen, .opened⟩)
  | trip (hp : permit.probe = false) (hs : b.state = .closed)
      (ht : trips (b.windowAfter now permit.policy success) success permit.policy = true) :
      Recording b now permit success
        { state := .opened, window := b.windowAfter now permit.policy success,
          openedAt := some now, probing := false }
        (some ⟨.closed, .opened⟩)
  | count (hp : permit.probe = false) (hs : b.state = .closed)
      (ht : trips (b.windowAfter now permit.policy success) success permit.policy = false) :
      Recording b now permit success { b with window := b.windowAfter now permit.policy success }
        none
  | late (hp : permit.probe = false) (hs : b.state ≠ .closed) :
      Recording b now permit success b none

theorem Entry.refused {b' : Breaker} {p : Policy} {state : CircuitState} {t : Option Transition}
    (h : b.Entry now p b' (.refused state) t) : b' = b ∧ t = none := by
  cases h with
  | early => exact ⟨rfl, rfl⟩
  | busy => exact ⟨rfl, rfl⟩

theorem Entry.admission_eq {b₁ b₂ : Breaker} {p : Policy} {a₁ a₂ : Admission}
    {t₁ t₂ : Option Transition} (h₁ : b.Entry now p b₁ a₁ t₁) (h₂ : b.Entry now p b₂ a₂ t₂) :
    a₁ = a₂ := by
  cases h₁ with
  | pass hs =>
    cases h₂ with
    | pass => rfl
    | probe hs' | early hs' | busy hs' => cases hs.symm.trans hs'
  | probe hs ht hover =>
    cases h₂ with
    | probe => rfl
    | early _ ht' hover' =>
      obtain rfl := Option.some.inj (ht.symm.trans ht')
      omega
    | pass hs' | busy hs' => cases hs.symm.trans hs'
  | early hs ht hover =>
    cases h₂ with
    | early => rfl
    | probe _ ht' hover' =>
      obtain rfl := Option.some.inj (ht.symm.trans ht')
      omega
    | pass hs' | busy hs' => cases hs.symm.trans hs'
  | busy hs =>
    cases h₂ with
    | busy => rfl
    | pass hs' | probe hs' | early hs' => cases hs.symm.trans hs'

theorem coherent_new (now : Nat) : Coherent {} now 0 := by
  exact ⟨fun _ => ⟨rfl, rfl, rfl⟩, nofun, nofun⟩

namespace Coherent

theorem later {now' : Nat} (h : b.Coherent now probes) (hle : now ≤ now') :
    b.Coherent now' probes := by
  refine ⟨h.closed, ?_, h.halfOpen⟩
  intro hs
  obtain ⟨⟨t, ht, hopened⟩, hfree⟩ := h.opened hs
  exact ⟨⟨t, Nat.le_trans ht hle, hopened⟩, hfree⟩

theorem probes_le_one (h : b.Coherent now probes) : probes ≤ 1 := by
  cases hs : b.state with
  | closed => have := (h.closed hs).2.2; omega
  | opened => have := (h.opened hs).2.2; omega
  | halfOpen => have := (h.halfOpen hs).2.2; omega

theorem halfOpen_of_probes (h : b.Coherent now probes) (hn : 0 < probes) :
    b.state = .halfOpen := by
  cases hs : b.state with
  | closed => have := (h.closed hs).2.2; omega
  | opened => have := (h.opened hs).2.2; omega
  | halfOpen => rfl

theorem entry (h : b.Coherent now probes) (p : Policy) :
    b.Entry now p (b.enter now p).1 (b.enter now p).2.1 (b.enter now p).2.2 := by
  cases hs : b.state with
  | closed =>
    simp only [enter, hs]
    exact .pass hs
  | opened =>
    obtain ⟨⟨t, hle, ht⟩, -⟩ := h.opened hs
    by_cases hover : t + p.breakDuration ≤ now
    · have hb : b.breakOver now p = true := by
        simp only [breakOver, ht, decide_eq_true_eq]
        omega
      simp only [enter, hs, hb, if_true]
      exact .probe hs ht hover
    · have hb : b.breakOver now p = false := by
        simp only [breakOver, ht, decide_eq_false_iff_not]
        omega
      simp only [enter, hs, hb, Bool.false_eq_true, if_false]
      exact .early hs ht (by omega)
  | halfOpen =>
    simp only [enter, hs, (h.halfOpen hs).2.1, if_true]
    exact .busy hs

theorem recording {permit : Permit} (h : b.Coherent now (probes + permit.probe.toNat))
    (success : Bool) :
    b.Recording now permit success (b.record now permit success).1
      (b.record now permit success).2 := by
  -- Counted among the permits, a probe that is out pins the state down before its outcome comes.
  cases hp : permit.probe with
  | true =>
    have hs : b.state = .halfOpen := h.halfOpen_of_probes (by simp [hp])
    cases success with
    | true =>
      simp only [record, recordProbe, hp, hs, if_true]
      exact .close hp hs rfl
    | false =>
      simp only [record, recordProbe, hp, hs, if_true, Bool.false_eq_true, if_false]
      exact .reopen hp hs rfl
  | false =>
    by_cases hs : b.state = .closed
    · cases ht : trips (b.windowAfter now permit.policy success) success permit.policy with
      | true =>
        have hr : b.record now permit success =
            ({ state := .opened, window := b.windowAfter now permit.policy success,
               openedAt := some now, probing := false }, some ⟨.closed, .opened⟩) := by
          rw [windowAfter] at ht
          simp [record, recordOrdinary, moveTo, windowAfter, hp, hs, ht]
        rw [hr]
        exact .trip hp hs ht
      | false =>
        have hr : b.record now permit success =
            ({ b with window := b.windowAfter now permit.policy success }, none) := by
          rw [windowAfter] at ht
          simp [record, recordOrdinary, windowAfter, hp, hs, ht]
        rw [hr]
        exact .count hp hs ht
    · simp only [record, recordOrdinary, hp, hs, Bool.false_eq_true, if_false]
      exact .late hp hs

theorem of_entry {b' : Breaker} {p : Policy} {a : Admission} {t : Option Transition}
    (h : b.Coherent now probes) (he : b.Entry now p b' a t) :
    b'.Coherent now (probes + a.probes) := by
  cases he with
  | pass => exact h
  | early => exact h
  | busy => exact h
  | probe hs ht =>
    obtain ⟨-, -, hn⟩ := h.opened hs
    refine ⟨nofun, nofun, ?_⟩
    intro _
    simp [ht, hn, Admission.probes]

theorem of_recording {b' : Breaker} {permit : Permit} {success : Bool} {t : Option Transition}
    (h : b.Coherent now (probes + permit.probe.toNat))
    (hr : b.Recording now permit success b' t) : b'.Coherent now probes := by
  cases hr with
  | close hp hs =>
    have hn := (h.halfOpen hs).2.2
    rw [hp, Bool.toNat_true] at hn
    -- The permit was the one probe that was out.
    obtain rfl : probes = 0 := by omega
    exact coherent_new now
  | reopen hp hs =>
    have hn := (h.halfOpen hs).2.2
    rw [hp, Bool.toNat_true] at hn
    refine ⟨nofun, ?_, nofun⟩
    intro _
    exact ⟨⟨now, Nat.le_refl now, rfl⟩, rfl, by omega⟩
  | trip hp hs =>
    obtain ⟨-, -, hn⟩ := h.closed hs
    refine ⟨nofun, ?_, nofun⟩
    intro _
    exact ⟨⟨now, Nat.le_refl now, rfl⟩, rfl, by omega⟩
  | count hp hs =>
    rw [hp, Bool.toNat_false] at h
    exact ⟨h.closed, h.opened, h.halfOpen⟩
  | late hp hs =>
    rw [hp, Bool.toNat_false] at h
    exact h

end Coherent

end Breaker

end StockGate
