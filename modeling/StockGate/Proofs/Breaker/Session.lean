import Mathlib.Data.List.Induction
import Mathlib.Data.List.Nodup
import StockGate.Breaker.Session
import StockGate.Proofs.Breaker.Coherence

namespace StockGate
namespace BreakerSession

variable {s : BreakerSession} {holder : String} {permit : Permit}

def probesOut (s : BreakerSession) : Nat :=
  s.held.countP (·.2.probe)

/-- The holders have different names, and the breaker is coherent with what they hold. -/
structure Sound (s : BreakerSession) : Prop where
  names : (s.held.map Prod.fst).Nodup
  coherent : s.breaker.Coherent s.now s.probesOut

/-- What a step of a sound session can do. -/
inductive Stride (s : BreakerSession) : BreakerStep → BreakerSession → Prop
  | refuse {holder : String} {p : Policy} {state : CircuitState}
      (he : s.breaker.Entry s.now p s.breaker (.refused state) none) : Stride s (.ask holder p) s
  | grant {holder : String} {p : Policy} {permit : Permit} {b : Breaker} {t : Option Transition}
      (he : s.breaker.Entry s.now p b (.granted permit) t)
      (hold : ∀ old, s.holding? holder = some old → old.probe = false) :
      Stride s (.ask holder p)
        { s.update b t with held := (holder, permit) :: (s.without holder).held }
  | record {holder : String} {success : Bool} {permit : Permit} {b : Breaker}
      {t : Option Transition} (hh : s.holding? holder = some permit)
      (hr : s.breaker.Recording s.now permit success b t) :
      Stride s (.report holder success) ((s.without holder).update b t)
  | giveUp {holder : String} {permit : Permit} (hh : s.holding? holder = some permit)
      (hp : permit.probe = false) : Stride s (.drop holder) (s.without holder)
  | abandon {holder : String} {permit : Permit} {b : Breaker} {t : Option Transition}
      (hh : s.holding? holder = some permit) (hp : permit.probe = true)
      (hr : s.breaker.Recording s.now permit false b t) :
      Stride s (.drop holder)
        ({ s.without holder with log := s.log ++ [Event.probeDropped] }.update b t)
  | reportNone {holder : String} {success : Bool} (hh : s.holding? holder = none) :
      Stride s (.report holder success) s
  | dropNone {holder : String} (hh : s.holding? holder = none) : Stride s (.drop holder) s
  | wait (ms : Nat) : Stride s (.wait ms) (s.wait ms)

theorem filter_eq_self_of_lookup {l : List (String × Permit)} (h : l.lookup holder = none) :
    l.filter (·.1 ≠ holder) = l := by
  rw [List.filter_eq_self]
  intro x hx
  have hne := List.lookup_eq_none_iff.mp h x hx
  simpa using Ne.symm (by simpa using hne)

theorem countP_eq_of_lookup {l : List (String × Permit)} (hn : (l.map Prod.fst).Nodup)
    (h : l.lookup holder = some permit) :
    l.countP (·.2.probe) =
      (l.filter (·.1 ≠ holder)).countP (·.2.probe) + permit.probe.toNat := by
  obtain ⟨l₁, l₂, rfl, -⟩ := List.lookup_eq_some_iff.mp h
  have hother : ∀ x ∈ l₁ ++ l₂, x.1 ≠ holder := by
    rw [List.map_append, List.map_cons, List.nodup_middle, List.nodup_cons,
      ← List.map_append] at hn
    intro x hx he
    exact hn.1 (List.mem_map.mpr ⟨x, hx, he⟩)
  -- Nobody else has the holder's name, so the filter drops this permit alone.
  have hrest : (l₁ ++ (holder, permit) :: l₂).filter (·.1 ≠ holder) = l₁ ++ l₂ := by
    rw [List.filter_append, List.filter_cons_of_neg (by simp), ← List.filter_append,
      List.filter_eq_self]
    simpa using hother
  rw [hrest, List.countP_append, List.countP_append, List.countP_cons]
  cases permit.probe <;> simp +arith

theorem probesOut_of_holding (h : s.Sound) (hh : s.holding? holder = some permit) :
    s.probesOut = (s.without holder).probesOut + permit.probe.toNat :=
  countP_eq_of_lookup h.names hh

theorem names_without (h : s.Sound) : ((s.without holder).held.map Prod.fst).Nodup :=
  h.names.sublist (List.filter_sublist.map Prod.fst)

theorem holder_notMem_without : holder ∉ (s.without holder).held.map Prod.fst := by
  simp [without]

theorem coherent_of_holding (h : s.Sound) (hh : s.holding? holder = some permit) :
    s.breaker.Coherent s.now ((s.without holder).probesOut + permit.probe.toNat) :=
  probesOut_of_holding h hh ▸ h.coherent

theorem halfOpen_of_holding (h : s.Sound) (hh : s.holding? holder = some permit)
    (hp : permit.probe = true) : s.breaker.state = .halfOpen :=
  (coherent_of_holding h hh).halfOpen_of_probes (by simp [hp])

theorem holder_eq_of_probe {other : String} {permit' : Permit} (h : s.Sound)
    (hh : s.holding? holder = some permit) (hp : permit.probe = true)
    (hh' : s.holding? other = some permit') (hp' : permit'.probe = true) : holder = other := by
  by_contra hne
  -- One probe is all there can be, so none is left among the other holders.
  have hout := probesOut_of_holding h hh
  have hone := h.coherent.probes_le_one
  have hzero : (s.without holder).probesOut = 0 := by
    rw [hp, Bool.toNat_true] at hout
    omega
  have hmem : (other, permit') ∈ (s.without holder).held := by
    obtain ⟨l₁, l₂, hl, -⟩ := List.lookup_eq_some_iff.mp hh'
    simp [without, hl, Ne.symm hne]
  have := List.countP_eq_zero.mp hzero (other, permit') hmem
  exact this hp'

theorem enter_eq (s : BreakerSession) (p : Policy) :
    s.enter p = (s.update (s.breaker.enter s.now p).1 (s.breaker.enter s.now p).2.2,
      (s.breaker.enter s.now p).2.1) := rfl

theorem update_self (s : BreakerSession) : s.update s.breaker none = s := by
  simp [update]

theorem release_of_ordinary (s : BreakerSession) (hp : permit.probe = false) :
    s.release permit = s := by
  simp [release, Breaker.release, Permit.dropEvents, update, hp]

theorem release_of_probe (s : BreakerSession) (hp : permit.probe = true) :
    s.release permit = { s with log := s.log ++ [Event.probeDropped] }.update
      (s.breaker.record s.now permit false).1 (s.breaker.record s.now permit false).2 := by
  simp [release, Breaker.release, Permit.dropEvents, hp]

theorem ordinary_of_granted {p : Policy} {b : Breaker} {t : Option Transition} {old : Permit}
    (h : s.Sound) (he : s.breaker.Entry s.now p b (.granted permit) t)
    (hh : s.holding? holder = some old) : old.probe = false := by
  -- A holder of the probe that asks again is refused.
  by_contra hp
  have hs := halfOpen_of_holding h hh (by simpa using hp)
  cases he with
  | pass hc => rw [hs] at hc; cases hc
  | probe ho => rw [hs] at ho; cases ho

theorem ask_eq_of_granted {p : Policy} (he : (s.breaker.enter s.now p).2.1 = .granted permit)
    (hold : ∀ old, s.holding? holder = some old → old.probe = false) :
    s.ask holder p =
      ({ s.update (s.breaker.enter s.now p).1 (s.breaker.enter s.now p).2.2 with
          held := (holder, permit) :: (s.without holder).held }, .granted permit) := by
  have hsame : ∀ b t, (s.update b t).holding? holder = s.holding? holder := fun _ _ => rfl
  unfold ask
  simp only [enter_eq, he, hsame]
  cases hh : s.holding? holder with
  | none => rfl
  | some old =>
    simp only [release_of_ordinary _ (hold old hh)]
    rfl

theorem Sound.stride (h : s.Sound) (step : BreakerStep) : s.Stride step (s.step step) := by
  cases step with
  | ask holder p =>
    have he := h.coherent.entry p
    cases ha : (s.breaker.enter s.now p).2.1 with
    | refused state =>
      rw [ha] at he
      have hs : s.step (.ask holder p) = s.update (s.breaker.enter s.now p).1
          (s.breaker.enter s.now p).2.2 := by
        simp [BreakerSession.step, ask, enter_eq, ha]
      obtain ⟨hb, ht⟩ : (s.breaker.enter s.now p).1 = s.breaker ∧
          (s.breaker.enter s.now p).2.2 = none := he.refused
      rw [hs, hb, ht, update_self]
      rw [hb, ht] at he
      exact .refuse he
    | granted permit =>
      rw [ha] at he
      have hold : ∀ old, s.holding? holder = some old → old.probe = false :=
        fun old => ordinary_of_granted h he
      rw [BreakerSession.step, ask_eq_of_granted ha hold]
      exact .grant he hold
  | report holder success =>
    cases hh : s.holding? holder with
    | none =>
      have hs : s.report holder success = s := by simp [report, hh]
      rw [BreakerSession.step, hs]
      exact .reportNone hh
    | some permit =>
      have hs : s.report holder success = (s.without holder).record permit success := by
        simp [report, hh]
      rw [BreakerSession.step, hs]
      exact .record hh ((coherent_of_holding h hh).recording success)
  | drop holder =>
    cases hh : s.holding? holder with
    | none =>
      have hs : s.drop holder = s := by simp [drop, hh]
      rw [BreakerSession.step, hs]
      exact .dropNone hh
    | some permit =>
      have hs : s.drop holder = (s.without holder).release permit := by simp [drop, hh]
      rw [BreakerSession.step, hs]
      cases hp : permit.probe with
      | false =>
        rw [release_of_ordinary _ hp]
        exact .giveUp hh hp
      | true =>
        rw [release_of_probe _ hp]
        exact .abandon hh hp ((coherent_of_holding h hh).recording false)
  | wait ms => exact .wait ms

theorem probesOut_without_of_ordinary (h : s.Sound)
    (hold : ∀ old, s.holding? holder = some old → old.probe = false) :
    (s.without holder).probesOut = s.probesOut := by
  cases hh : s.holding? holder with
  | none => rw [probesOut, without, filter_eq_self_of_lookup hh, probesOut]
  | some old => rw [probesOut_of_holding h hh, hold old hh, Bool.toNat_false, Nat.add_zero]

theorem sound_new : Sound {} :=
  ⟨List.nodup_nil, Breaker.coherent_new 0⟩

theorem Sound.step (h : s.Sound) (step : BreakerStep) : (s.step step).Sound := by
  have hstride := h.stride step
  generalize s.step step = s' at hstride ⊢
  cases hstride with
  | refuse => exact h
  | @grant holder p permit b t he hold =>
    refine ⟨List.nodup_cons.mpr ⟨holder_notMem_without, names_without h⟩, ?_⟩
    -- The permit that makes way is no probe, so the count changes by the new one only.
    have hb := h.coherent.of_entry he
    rw [← probesOut_without_of_ordinary h hold] at hb
    have hout : probesOut { s.update b t with held := (holder, permit) :: (s.without holder).held } =
        (s.without holder).probesOut + permit.probe.toNat := by
      simp only [probesOut, List.countP_cons]
      cases permit.probe <;> rfl
    rw [hout]
    exact hb
  | record hh hr => exact ⟨names_without h, (coherent_of_holding h hh).of_recording hr⟩
  | giveUp hh hp =>
    have hb := coherent_of_holding h hh
    rw [hp] at hb
    exact ⟨names_without h, hb⟩
  | abandon hh _ hr => exact ⟨names_without h, (coherent_of_holding h hh).of_recording hr⟩
  | reportNone => exact h
  | dropNone => exact h
  | wait ms => exact ⟨h.names, h.coherent.later (Nat.le_add_right s.now ms)⟩

theorem run_append (steps : List BreakerStep) (step : BreakerStep) :
    run (steps ++ [step]) = (run steps).step step := by
  simp [run]

theorem fst_foldl {α : Type} (f : BreakerSession × α → BreakerStep → α)
    (steps : List BreakerStep) (x : BreakerSession × α) :
    (steps.foldl (fun x step => (x.1.step step, f x step)) x).1 = steps.foldl step x.1 := by
  induction steps generalizing x with
  | nil => rfl
  | cons step steps ih => exact ih _

theorem sound_run (steps : List BreakerStep) : (run steps).Sound := by
  induction steps using List.reverseRecOn with
  | nil => exact sound_new
  | append_singleton steps step ih => exact run_append steps step ▸ ih.step step

/-- The steps on which a breaker would have to do without something that it expects. -/
inductive Stray (s : BreakerSession) : BreakerStep → Prop
  /-- Asking a half-open circuit whose probe is not under way. -/
  | noProbe {holder : String} {p : Policy} (hs : s.breaker.state = .halfOpen)
      (hp : s.breaker.probing = false) : Stray s (.ask holder p)
  /-- Asking an open circuit that does not know since when it is open. -/
  | noTime {holder : String} {p : Policy} (hs : s.breaker.state = .opened)
      (ht : s.breaker.openedAt = none) : Stray s (.ask holder p)
  /-- The permit of a probe making way for a newer one. -/
  | replaced {holder : String} {p : Policy} {old new : Permit}
      (hh : s.holding? holder = some old) (hp : old.probe = true)
      (ha : (s.ask holder p).2 = .granted new) : Stray s (.ask holder p)
  /-- The outcome of a probe that comes when the circuit is not half-open. -/
  | reported {holder : String} {success : Bool} {permit : Permit}
      (hh : s.holding? holder = some permit) (hp : permit.probe = true)
      (hs : s.breaker.state ≠ .halfOpen) : Stray s (.report holder success)
  | dropped {holder : String} {permit : Permit} (hh : s.holding? holder = some permit)
      (hp : permit.probe = true) (hs : s.breaker.state ≠ .halfOpen) : Stray s (.drop holder)

theorem ask_snd (s : BreakerSession) (holder : String) (p : Policy) :
    (s.ask holder p).2 = (s.breaker.enter s.now p).2.1 := by
  unfold ask
  rw [enter_eq]
  cases (s.breaker.enter s.now p).2.1 with
  | refused state => rfl
  | granted permit =>
    dsimp only
    split <;> rfl

theorem Sound.not_stray (h : s.Sound) (step : BreakerStep) : ¬ s.Stray step := by
  intro hstray
  cases hstray with
  | noProbe hs hp => rw [(h.coherent.halfOpen hs).2.1] at hp; cases hp
  | noTime hs ht =>
    obtain ⟨⟨t, -, hopened⟩, -⟩ := h.coherent.opened hs
    rw [hopened] at ht
    cases ht
  | @replaced holder p old new hh hp ha =>
    have he := h.coherent.entry p
    rw [← ask_snd s holder p, ha] at he
    rw [ordinary_of_granted h he hh] at hp
    cases hp
  | reported hh hp hs => exact hs (halfOpen_of_holding h hh hp)
  | dropped hh hp hs => exact hs (halfOpen_of_holding h hh hp)

/-- In every state that a breaker in use can reach its fields agree with the permits that are out,
two callers never both hold the probe, and no step is a stray one. -/
theorem one_probe_at_a_time (steps : List BreakerStep) :
    (run steps).breaker.Coherent (run steps).now (run steps).probesOut ∧
    (∀ holder other permit permit', (run steps).holding? holder = some permit →
      (run steps).holding? other = some permit' → permit.probe = true → permit'.probe = true →
      holder = other) ∧
    ∀ step, ¬ (run steps).Stray step := by
  have h := sound_run steps
  refine ⟨h.coherent, ?_, h.not_stray⟩
  intro holder other permit permit' hh hh' hp hp'
  exact holder_eq_of_probe h hh hp hh' hp'

end BreakerSession
end StockGate
