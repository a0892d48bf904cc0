import Mathlib.Data.List.Perm.Basic
import StockGate.Proofs.Breaker.Coherence
import StockGate.Proofs.Gate.Verdict

namespace StockGate

def Admission.permit? : Admission → Option Permit
  | .granted permit => some permit
  | .refused _ => none

/-- The permit that the call holds. -/
def Call.permit? (c : Call) : Option Permit :=
  match c.stage with
  | .asking _ => none
  | .validating permit _ => some permit

def CallStatus.permit? : CallStatus → Option Permit
  | .waiting c => c.permit?
  | .over _ => none

/-- How many probes one has with this permit in hand, or with none. -/
def probesHeld : Option Permit → Nat
  | some permit => permit.probe.toNat
  | none => 0

theorem Admission.probesHeld_permit? (a : Admission) : probesHeld a.permit? = a.probes := by
  cases a <;> rfl

namespace Breaker

/-- What a caller does to a coherent breaker, by the permit that it holds before and the one that
it holds after. -/
inductive Usage (b : Breaker) (now : Nat) (p : Policy) (held : Option Permit) :
    Option Permit → Option Admission → Breaker → Prop
  | leave : Usage b now p held held none b
  | ask {b' : Breaker} {a : Admission} {t : Option Transition} (hheld : held = none)
      (he : b.Entry now p b' a t) : Usage b now p held a.permit? (some a) b'
  | record {permit : Permit} {success : Bool} {b' : Breaker} {t : Option Transition}
      (hheld : held = some permit) (hr : b.Recording now permit success b' t) :
      Usage b now p held none none b'
  | giveUp {permit : Permit} (hheld : held = some permit) (hp : permit.probe = false) :
      Usage b now p held none none b

variable {b b' : Breaker} {now n : Nat} {p : Policy} {held held' : Option Permit}
  {told : Option Admission}

theorem Coherent.usage (h : b.Coherent now (n + probesHeld held))
    (hu : b.Usage now p held held' told b') : b'.Coherent now (n + probesHeld held') := by
  cases hu with
  | leave => exact h
  | @ask b' a t hheld he =>
    subst hheld
    rw [Admission.probesHeld_permit?]
    exact h.of_entry he
  | record hheld hr =>
    subst hheld
    exact h.of_recording hr
  | giveUp hheld hp =>
    subst hheld
    rw [probesHeld, hp] at h
    exact h

theorem Coherent.usage_enter (h : b.Coherent now n) :
    b.Usage now p none (b.enter now p).2.1.permit? (some (b.enter now p).2.1) (b.enter now p).1 :=
  .ask rfl (h.entry p)

theorem Coherent.usage_release {permit : Permit} (h : b.Coherent now (n + permit.probe.toNat)) :
    b.Usage now p (some permit) none none (b.release now permit).1 := by
  unfold Breaker.release
  cases hp : permit.probe with
  | true => exact .record rfl (h.recording false)
  | false => exact .giveUp rfl hp

namespace Usage

theorem holds {permit : Permit} (h : b.Usage now p held (some permit) told b') :
    (held = some permit ∧ told = none ∧ b' = b) ∨ told = some (.granted permit) := by
  generalize hh : some permit = held' at h
  cases h with
  | leave => exact .inl ⟨rfl, rfl, rfl⟩
  | @ask _ a =>
    cases a with
    | granted permit' =>
      obtain rfl := Option.some.inj hh
      exact .inr rfl
    | refused => cases hh
  | record | giveUp => cases hh

theorem unchanged (h : b.Usage now p held held' told b') (hheld : held = none)
    (hheld' : held' = none) : b' = b := by
  cases h with
  | leave | giveUp => rfl
  | @ask _ a _ _ he =>
    cases a with
    | granted => cases hheld'
    | refused => exact he.refused.1
  | record hsome => cases hheld.symm.trans hsome

theorem entry {a : Admission} (h : b.Usage now p held held' (some a) b') :
    held = none ∧ ∃ t, b.Entry now p b' a t := by
  cases h with
  | ask hheld he => exact ⟨hheld, _, he⟩

theorem opened (h : b.Usage now p held held' told b') (hs : b'.state = .opened) :
    b' = b ∨ (b.state ≠ .opened ∧ b'.openedAt = some now ∧ told = none) := by
  cases h with
  | leave | giveUp => exact .inl rfl
  | ask _ he =>
    cases he with
    | pass | early | busy => exact .inl rfl
    | probe => cases hs
  | record _ hr =>
    cases hr with
    | close => cases hs
    | reopen _ hs' | trip _ hs' =>
      refine .inr ⟨?_, rfl, rfl⟩
      rw [hs']
      nofun
    | count _ hs' => cases hs'.symm.trans hs
    | late => exact .inl rfl

theorem closed_of_ordinary {permit : Permit}
    (h : b.Usage now p held held' (some (.granted permit)) b') (hp : permit.probe = false) :
    b.state = .closed := by
  obtain ⟨-, t, he⟩ := h.entry
  cases he with
  | pass hs => exact hs
  | probe => cases hp

end Usage

end Breaker

theorem Call.permit?_of_asking {c : Call} {w : Awaited FlagAnswer} (hs : c.stage = .asking w) :
    c.permit? = none := by
  rw [permit?, hs]

theorem Call.permit?_of_validating {c : Call} {permit : Permit} {x : Validation}
    (hs : c.stage = .validating permit x) : c.permit? = some permit := by
  rw [permit?, hs]

/-- What a call does in one turn, which leaves it with this status. -/
structure Deed (c : Call) (t : Turn) (status : CallStatus) : Prop where
  now_eq : t.after.now = t.before.now
  usage : t.before.breaker.Usage t.before.now c.policy c.permit? status.permit? t.told
    t.after.breaker
  /-- Who looks something up has just been let through or holds a permit. -/
  permitted : t.lookups ≠ [] →
    (∃ permit, t.told = some (.granted permit)) ∨ ∃ permit, c.permit? = some permit
  /-- Who is let through looks something up at once. -/
  looks : ∀ permit, t.told = some (.granted permit) → t.lookups ≠ []
  /-- A permit is not given back before the end of the call. -/
  keeps : ∀ c', status = .waiting c' → c'.permit? = none → c.permit? = none

namespace Gate

variable {g g' : Gate} {c : Call} {a : CallAdvance} {n i : Nat}

/-- A call that waits for the flag looks something up if and only if the breaker lets it through. -/
theorem Stride.lookups_iff_granted {w : Awaited FlagAnswer} (hst : g.Stride c g' a)
    (hs : c.stage = .asking w) :
    Turn.lookups ⟨i, g, g', g.told? c⟩ ≠ [] ↔ ∃ permit, g.told? c = some (.granted permit) := by
  cases hst with
  | await hs' hnow => simp [Turn.lookups_eq_nil, told?_of_early hs' hnow]
  | skip hs' hnow hoff hg =>
    simp [Turn.lookups_eq_nil, catalog_eq_of_quiet hg, told?_of_off hs' hoff]
  | shed hs' hnow hon ha hg =>
    have hcat : g'.catalog = g.catalog := (catalog_eq_of_quiet hg :)
    simp [Turn.lookups_eq_nil, hcat, told?_of_on hs' hnow hon, ha]
  | enter hs' hnow hon ha hg =>
    have hcat : g'.catalog = (g.catalog.ask c.request.product).1 := (catalog_eq_of_quiet hg :)
    simp [Turn.lookups, hcat, lookupsSince_ask, told?_of_on hs' hnow hon, ha]
  | rest hs' | go hs' | finish hs' | overflow hs' => cases hs.symm.trans hs'

theorem Stride.keeps {c' : Call} (hst : g.Stride c g' a) (hc' : a.status c = .waiting c')
    (hnone : c'.permit? = none) : c.permit? = none := by
  cases hst with
  | await | rest =>
    obtain rfl := CallStatus.waiting.inj hc'
    exact hnone
  | enter | go =>
    obtain rfl := CallStatus.waiting.inj hc'
    cases hnone
  | skip | shed | finish | overflow => cases hc'

theorem Stride.deed_asking {w : Awaited FlagAnswer} (hst : g.Stride c g' a)
    (hs : c.stage = .asking w) (hco : g.breaker.Coherent g.now n) :
    Deed c ⟨i, g, g', g.told? c⟩ (a.status c) := by
  have hnone := Call.permit?_of_asking hs
  have hlook := hst.lookups_iff_granted (i := i) hs
  refine ⟨hst.now_eq, ?_, fun h => .inl (hlook.mp h), fun permit h => hlook.mpr ⟨permit, h⟩,
    fun _ => hst.keeps⟩
  rw [hnone]
  cases hst with
  | await hs' hnow =>
    rw [told?_of_early hs' hnow, CallAdvance.status, CallStatus.permit?, hnone]
    exact .leave
  | skip hs' hnow hoff hg =>
    rw [told?_of_off hs' hoff, breaker_eq_of_quiet hg]
    exact .leave
  | shed hs' hnow hon ha hg =>
    have hu := hco.usage_enter (p := c.policy)
    rw [told?_of_on hs' hnow hon, (breaker_eq_of_quiet hg :)]
    rw [ha] at hu ⊢
    exact hu
  | enter hs' hnow hon ha hg =>
    have hu := hco.usage_enter (p := c.policy)
    rw [told?_of_on hs' hnow hon, (breaker_eq_of_quiet hg :)]
    rw [ha] at hu ⊢
    exact hu
  | rest hs' | go hs' | finish hs' | overflow hs' => cases hs.symm.trans hs'

theorem Stride.deed_validating {permit : Permit} {x : Validation} (hst : g.Stride c g' a)
    (hs : c.stage = .validating permit x)
    (hco : g.breaker.Coherent g.now (n + permit.probe.toNat)) :
    Deed c ⟨i, g, g', g.told? c⟩ (a.status c) := by
  have hsome := Call.permit?_of_validating hs
  have ht := told?_of_validating (g := g) hs
  refine ⟨hst.now_eq, ?_, fun _ => .inr ⟨permit, hsome⟩, fun _ h => ?_,
    fun _ => hst.keeps⟩
  · rw [hsome, ht]
    cases hst with
    | await hs' | skip hs' | shed hs' | enter hs' => cases hs.symm.trans hs'
    | rest hs' hv hg =>
      rw [(breaker_eq_of_quiet hg :), CallAdvance.status, CallStatus.permit?, hsome]
      exact .leave
    | go hs' hv hg =>
      obtain ⟨rfl, rfl⟩ := CallStage.validating.inj (hs.symm.trans hs')
      rw [(breaker_eq_of_quiet hg :)]
      exact .leave
    | finish hs' hv hg =>
      obtain ⟨rfl, rfl⟩ := CallStage.validating.inj (hs.symm.trans hs')
      rw [(breaker_eq_of_quiet hg :)]
      exact .record rfl (hco.recording _)
    | overflow hs' hv hg =>
      obtain ⟨rfl, rfl⟩ := CallStage.validating.inj (hs.symm.trans hs')
      rw [(breaker_eq_of_quiet hg :)]
      exact hco.usage_release
  · cases ht.symm.trans h

theorem Stride.deed (hst : g.Stride c g' a)
    (hco : g.breaker.Coherent g.now (n + probesHeld c.permit?)) :
    Deed c ⟨i, g, g', g.told? c⟩ (a.status c) := by
  cases hs : c.stage with
  | asking => exact hst.deed_asking hs hco
  | validating permit x =>
    rw [Call.permit?_of_validating hs] at hco
    exact hst.deed_validating hs hco

theorem usage_cancel (hco : g.breaker.Coherent g.now (n + probesHeld c.permit?)) :
    g.breaker.Usage g.now c.policy c.permit? none none (g.cancel c).breaker := by
  cases hs : c.stage with
  | asking =>
    have hb : (g.cancel c).breaker = g.breaker := by
      rw [cancel, hs]
      rfl
    rw [Call.permit?_of_asking hs, hb]
    exact .leave
  | validating permit x =>
    rw [Call.permit?_of_validating hs] at hco ⊢
    have hb : (g.cancel c).breaker = (g.breaker.release g.now permit).1 := by
      rw [cancel, hs]
      exact update_breaker _ _ _
    rw [hb]
    exact hco.usage_release

theorem deed_cancel (hco : g.breaker.Coherent g.now (n + probesHeld c.permit?)) :
    Deed c ⟨i, g, g.cancel c, none⟩ (.over .cancelled) where
  now_eq := g.cancel_now c
  usage := usage_cancel hco
  permitted := fun h => absurd (Turn.lookups_eq_nil (g.cancel_catalog c)) h
  looks := fun _ h => by cases h
  keeps := fun _ h => by cases h

end Gate

namespace GateSession

variable {s : GateSession} {g g' : Gate} {i : Nat} {v : Visit} {c : Call} {status : CallStatus}
  {told : Option Admission}

def probesAmong (vs : List Visit) : Nat :=
  (vs.filterMap (·.status.permit?)).countP (·.probe)

theorem probesAmong_cons (v : Visit) (vs : List Visit) :
    probesAmong (v :: vs) = probesAmong vs + probesHeld v.status.permit? := by
  unfold probesAmong
  cases hp : v.status.permit? with
  | none => simp [hp, probesHeld]
  | some permit => cases hq : permit.probe <;> simp [hp, hq, probesHeld]

theorem probesAmong_perm {vs ws : List Visit} (h : vs.Perm ws) : probesAmong vs = probesAmong ws :=
  (h.filterMap _).countP_eq _

def probesOut (s : GateSession) : Nat :=
  probesAmong s.visits

/-- How many probes the calls hold that have another number. -/
def probesBeside (s : GateSession) (i : Nat) : Nat :=
  probesAmong (s.visits.eraseIdx i)

theorem probesOut_of_call? (hc : s.call? i = some (v, c)) :
    s.probesOut = s.probesBeside i + probesHeld c.permit? := by
  obtain ⟨hv, hw⟩ := call?_eq_some_iff.mp hc
  obtain ⟨hi, rfl⟩ := List.getElem?_eq_some_iff.mp hv
  rw [probesOut, ← probesAmong_perm (List.getElem_cons_eraseIdx_perm hi), probesAmong_cons, hw]
  rfl

theorem probesOut_turn (hc : s.call? i = some (v, c)) :
    (s.turn i v g' status told).probesOut = s.probesBeside i + probesHeld status.permit? := by
  have hperm := List.set_perm_cons_eraseIdx (lt_of_call? hc) { v with status }
  rw [probesOut, turn, probesAmong_perm hperm, probesAmong_cons]
  rfl

theorem probesHeld_le_probesBeside {j : Nat} {u : Visit} {d : Call}
    (hd : s.call? j = some (u, d)) (hne : j ≠ i) : probesHeld d.permit? ≤ s.probesBeside i := by
  obtain ⟨hu, hw⟩ := call?_eq_some_iff.mp hd
  have hmem : u ∈ s.visits.eraseIdx i := List.mem_eraseIdx_iff_getElem?.mpr ⟨j, hne, hu⟩
  obtain ⟨l, r, hsplit⟩ := List.append_of_mem hmem
  rw [probesBeside, hsplit, probesAmong_perm List.perm_middle, probesAmong_cons, hw]
  exact Nat.le_add_left _ _

theorem exists_probe (h : 0 < s.probesOut) :
    ∃ i v c permit, s.call? i = some (v, c) ∧ c.permit? = some permit ∧ permit.probe = true := by
  obtain ⟨permit, hmem, hp⟩ := List.countP_pos_iff.mp h
  obtain ⟨v, hv, hheld⟩ := List.mem_filterMap.mp hmem
  cases hst : v.status with
  | waiting c =>
    obtain ⟨i, hc⟩ := exists_call?_of_mem hv hst
    rw [hst] at hheld
    exact ⟨i, v, c, permit, hc, hheld, hp⟩
  | _ r =>
    rw [hst] at hheld
    cases hheld

/-- The breaker is coherent with the probes that the calls hold. -/
def Sound (s : GateSession) : Prop :=
  s.gate.breaker.Coherent s.gate.now s.probesOut

theorem Sound.beside (h : s.Sound) (hc : s.call? i = some (v, c)) :
    s.gate.breaker.Coherent s.gate.now (s.probesBeside i + probesHeld c.permit?) := by
  rw [← probesOut_of_call? hc]
  exact h

/-- What a step can make of a session whose breaker is coherent. -/
inductive Moves (s : GateSession) : GateStep → GateSession → Prop
  | arrive (r : Request) (draws : Nat → Nat) :
      Moves s (.arrive r draws) (s.step (.arrive r draws))
  | turn {step : GateStep} {i : Nat} {v : Visit} {c : Call} {g' : Gate} {status : CallStatus}
      {told : Option Admission} (hc : s.call? i = some (v, c))
      (hd : Deed c ⟨i, s.gate, g', told⟩ status) : Moves s step (s.turn i v g' status told)
  | rest {step : GateStep} {g' : Gate} (hb : g'.breaker = s.gate.breaker)
      (hnow : s.gate.now ≤ g'.now) : Moves s step { s with gate := g' }

theorem Sound.moves (h : s.Sound) (step : GateStep) : s.Moves step (s.step step) := by
  cases step with
  | arrive r draws => exact .arrive r draws
  | advance i =>
    cases hc : s.call? i with
    | none =>
      simp only [GateSession.step, hc]
      exact .rest rfl (Nat.le_refl _)
    | some x =>
      simp only [GateSession.step, hc]
      exact .turn hc ((s.gate.stride x.2).deed (h.beside hc))
  | cancel i =>
    cases hc : s.call? i with
    | none =>
      simp only [GateSession.step, hc]
      exact .rest rfl (Nat.le_refl _)
    | some x =>
      simp only [GateSession.step, hc]
      exact .turn hc (Gate.deed_cancel (h.beside hc))
  | wait ms => exact .rest rfl (Nat.le_max_left _ _)
  | replace p => exact .rest rfl (Nat.le_refl _)

theorem Moves.sound {s' : GateSession} {step : GateStep} (hm : s.Moves step s') (h : s.Sound) :
    s'.Sound := by
  cases hm with
  | arrive r draws =>
    have hout : (s.step (.arrive r draws)).probesOut = s.probesOut := by
      simp [probesOut, probesAmong, GateSession.step, Gate.begin, CallStatus.permit?, Call.permit?]
    rw [Sound, hout]
    exact h
  | @turn _ i v c g' status told hc hd =>
    have hnow : g'.now = s.gate.now := hd.now_eq
    change g'.breaker.Coherent g'.now _
    rw [probesOut_turn hc, hnow]
    exact (h.beside hc).usage hd.usage
  | @rest _ g' hb hnow =>
    change g'.breaker.Coherent g'.now _
    rw [hb]
    exact h.later hnow

theorem Reached.sound (h : Reached g s) (hg : g.breaker = {}) : s.Sound := by
  obtain ⟨steps, rfl⟩ := h
  induction steps using List.reverseRecOn with
  | nil =>
    change g.breaker.Coherent g.now 0
    rw [hg]
    exact Breaker.coherent_new g.now
  | append_singleton steps step ih =>
    rw [run_append]
    exact (ih.moves step).sound ih

/-- What holds at first and outlives every move holds whatever the session of a new breaker comes
to. -/
theorem Reached.induct_moves {P : GateSession → Prop} (hg : g.breaker = {})
    (start : P { gate := g })
    (moves : ∀ s step s', Reached g s → s.Sound → P s → s.Moves step s' → P s')
    (h : Reached g s) : P s := by
  obtain ⟨steps, rfl⟩ := h
  induction steps using List.reverseRecOn with
  | nil => exact start
  | append_singleton steps step ih =>
    have hr := reached_run g steps
    have hs := hr.sound hg
    rw [run_append]
    exact moves _ step _ hr hs ih (hs.moves step)

end GateSession

end StockGate
