import StockGate.Proofs.Gate.Chronicle
import StockGate.Settings.Reload

namespace StockGate

theorem Settings.ofToml_errors {text : String} {x : Settings} (h : ofToml text = .ok x) :
    x.errors = [] := by
  unfold ofToml at h
  split at h
  · cases h
  · split at h
    · next hx => exact Except.ok.inj h ▸ hx
    · cases h

theorem Settings.load_errors {contents : Option Text.Bytes} {x : Settings}
    (h : load contents = .ok x) : x.errors = [] := by
  unfold load at h
  split at h
  · cases h
  · exact ofToml_errors h

theorem Settings.policy_errors {x : Settings} (h : x.errors = []) : x.policy.errors = [] := by
  simp only [errors, List.append_eq_nil_iff] at h
  exact h.1.1.1

namespace GateSession

variable {s : GateSession} {step : GateStep}

theorem step_policy (s : GateSession) (h : ∀ p, step ≠ .replace p) :
    (s.step step).gate.policy = s.gate.policy := by
  cases step with
  | arrive r draws => rfl
  | advance i =>
    simp only [GateSession.step]
    split
    · next v c _ => exact (s.gate.stride c).policy_eq
    · rfl
  | cancel i =>
    simp only [GateSession.step]
    split
    · next v c _ => exact s.gate.cancel_policy c
    · rfl
  | wait ms => rfl
  | replace p => exact absurd rfl (h p)

theorem mem_arrivals_step {a : Arrival} (s : GateSession) (h : a ∈ (s.step step).arrivals) :
    a ∈ s.arrivals ∨ a.met = s.gate := by
  cases step with
  | arrive r draws =>
    rw [arrivals_arrive] at h
    rcases List.mem_append.mp h with h | h
    · exact .inl h
    · exact .inr (congrArg _ (List.mem_singleton.mp h))
  | advance i =>
    simp only [GateSession.step] at h
    split at h
    · next hc => exact .inl (arrivals_turn hc ▸ h)
    · exact .inl h
  | cancel i =>
    simp only [GateSession.step] at h
    split at h
    · next hc => exact .inl (arrivals_turn hc ▸ h)
    · exact .inl h
  | wait ms => exact .inl h
  | replace p => exact .inl h

end GateSession

/-- What can happen to a settings file, to the policy that calls share, and to the calls. -/
inductive ReloadStep where
  | write (bytes : Text.Bytes)
  | remove
  | reload
  | snapshot
  | call (step : GateStep)

/-- A settings file and a gate in use, with the answers of the reloads and the snapshots taken. -/
structure ReloadSession where
  file : PolicyFile
  answers : List Bool := []
  held : List Policy := []
  calls : GateSession

namespace ReloadSession

def step (s : ReloadSession) : ReloadStep → ReloadSession
  | .write bytes => { s with file := s.file.step (.write bytes) }
  | .remove => { s with file := s.file.step .remove }
  | .reload =>
    let file := s.file.step .reload
    { s with
      file
      answers := s.answers ++ [s.file.loads]
      calls := s.calls.step (.replace file.policy) }
  | .snapshot => { s with held := s.held ++ [s.file.policy] }
  | .call step => { s with calls := s.calls.step step }

def go (s : ReloadSession) (steps : List ReloadStep) : ReloadSession :=
  steps.foldl step s

/-- The calls share the policy of the file, whatever policy the gate was made with. -/
def run (f : PolicyFile) (g : Gate) (steps : List ReloadStep) : ReloadSession :=
  go { file := f, calls := { gate := { g with policy := f.policy } } } steps

/-- What each reload finds in the file, which starts with these contents. -/
def finds (contents : Option Text.Bytes) : List ReloadStep → List (Except LoadError Settings)
  | [] => []
  | .write bytes :: steps => finds (some bytes) steps
  | .remove :: steps => finds none steps
  | .reload :: steps => Settings.load contents :: finds contents steps
  | .snapshot :: steps => finds contents steps
  | .call _ :: steps => finds contents steps

/-- The policy of the last of these settings that could be loaded, or else this one. -/
def lastPolicy (p : Policy) (found : List (Except LoadError Settings)) : Policy :=
  ((found.filterMap Except.toOption).getLast?.map (·.policy)).getD p

/-- Nothing but a reload replaces the policy. -/
def ReloadsOnly (steps : List ReloadStep) : Prop :=
  ∀ p, .call (.replace p) ∉ steps

variable {s : ReloadSession} {x : Settings} {e : LoadError} {step : ReloadStep}
  {steps : List ReloadStep}

theorem run_append (f : PolicyFile) (g : Gate) (steps more : List ReloadStep) :
    run f g (steps ++ more) = (run f g steps).go more :=
  List.foldl_append

theorem run_concat (f : PolicyFile) (g : Gate) (steps : List ReloadStep) (step : ReloadStep) :
    run f g (steps ++ [step]) = (run f g steps).step step :=
  run_append f g steps [step]

theorem step_reload_of_ok (h : Settings.load s.file.contents = .ok x) :
    s.step .reload =
      { file := { s.file with policy := x.policy }
        answers := s.answers ++ [true]
        held := s.held
        calls := s.calls.step (.replace x.policy) } := by
  simp [ReloadSession.step, PolicyFile.step, PolicyFile.reload, PolicyFile.loads, PolicyFile.load,
    h]

theorem step_reload_of_error (h : Settings.load s.file.contents = .error e) :
    s.step .reload =
      { s with
        answers := s.answers ++ [false]
        calls := s.calls.step (.replace s.file.policy) } := by
  simp [ReloadSession.step, PolicyFile.step, PolicyFile.reload, PolicyFile.loads, PolicyFile.load,
    h]

theorem step_reload_answers (s : ReloadSession) :
    (s.step .reload).answers = s.answers ++ [(Settings.load s.file.contents).isOk] := by
  cases h : Settings.load s.file.contents with
  | ok x => rw [step_reload_of_ok h]; rfl
  | error e => rw [step_reload_of_error h]; rfl

theorem step_reload_policy (s : ReloadSession) :
    (s.step .reload).file.policy = lastPolicy s.file.policy [Settings.load s.file.contents] := by
  cases h : Settings.load s.file.contents with
  | ok x => rw [step_reload_of_ok h]; rfl
  | error e => rw [step_reload_of_error h]; rfl

theorem step_reload_contents (s : ReloadSession) :
    (s.step .reload).file.contents = s.file.contents := by
  cases h : Settings.load s.file.contents with
  | ok x => rw [step_reload_of_ok h]
  | error e => rw [step_reload_of_error h]

theorem lastPolicy_cons (p : Policy) (r : Except LoadError Settings)
    (found : List (Except LoadError Settings)) :
    lastPolicy p (r :: found) = lastPolicy (lastPolicy p [r]) found := by
  unfold lastPolicy
  cases r with
  | error e => rfl
  | ok x =>
    simp only [List.filterMap_cons, Except.toOption, List.getLast?_cons, List.filterMap_nil]
    cases (found.filterMap Except.toOption).getLast? <;> rfl

theorem go_answers (s : ReloadSession) (steps : List ReloadStep) :
    (s.go steps).answers = s.answers ++ (finds s.file.contents steps).map (·.isOk) := by
  induction steps generalizing s with
  | nil => simp [go, finds]
  | cons step steps ih =>
    refine (ih (s.step step)).trans ?_
    cases step with
    | reload => simp [step_reload_answers, step_reload_contents, finds]
    | _ => rfl

theorem go_policy (s : ReloadSession) (steps : List ReloadStep) :
    (s.go steps).file.policy = lastPolicy s.file.policy (finds s.file.contents steps) := by
  induction steps generalizing s with
  | nil => rfl
  | cons step steps ih =>
    refine (ih (s.step step)).trans ?_
    cases step with
    | reload => rw [step_reload_policy, step_reload_contents, finds, ← lastPolicy_cons]
    | _ => rfl

theorem held_prefix_step (s : ReloadSession) (step : ReloadStep) :
    s.held <+: (s.step step).held := by
  cases step with
  | snapshot => exact List.prefix_append _ _
  | _ => exact List.prefix_refl _

theorem held_prefix_go (s : ReloadSession) (steps : List ReloadStep) :
    s.held <+: (s.go steps).held := by
  induction steps generalizing s with
  | nil => exact List.prefix_refl _
  | cons step steps ih => exact (held_prefix_step s step).trans (ih (s.step step))

theorem held_go_snapshot (s : ReloadSession) (steps : List ReloadStep) :
    (s.go (.snapshot :: steps)).held[s.held.length]? = some s.file.policy := by
  obtain ⟨more, hm⟩ := held_prefix_go (s.step .snapshot) steps
  change ((s.step .snapshot).go steps).held[s.held.length]? = _
  rw [← hm]
  simp [ReloadSession.step]

theorem reached_calls (f : PolicyFile) (g : Gate) (steps : List ReloadStep) :
    GateSession.Reached { g with policy := f.policy } (run f g steps).calls := by
  induction steps using List.reverseRecOn with
  | nil => exact ⟨[], rfl⟩
  | append_singleton steps step ih =>
    rw [run_concat]
    obtain ⟨made, hm⟩ := ih
    cases step with
    | reload =>
      refine ⟨made ++ [.replace ((run f g steps).file.step .reload).policy], ?_⟩
      rw [GateSession.run_append, hm]
      rfl
    | call step =>
      refine ⟨made ++ [step], ?_⟩
      rw [GateSession.run_append, hm]
      rfl
    | _ => exact ⟨made, hm⟩

theorem ReloadsOnly.of_concat (h : ReloadsOnly (steps ++ [step])) :
    ReloadsOnly steps ∧ ∀ p, step ≠ .call (.replace p) :=
  ⟨fun p hp => h p (List.mem_append_left _ hp),
    fun p hp => h p (List.mem_append_right _ (hp ▸ List.mem_singleton_self _))⟩

theorem run_shares (f : PolicyFile) (g : Gate) (h : ReloadsOnly steps) :
    (run f g steps).calls.gate.policy = (run f g steps).file.policy := by
  induction steps using List.reverseRecOn with
  | nil => rfl
  | append_singleton steps step ih =>
    obtain ⟨hs, hstep⟩ := h.of_concat
    rw [run_concat]
    cases step with
    | reload => rfl
    | call step =>
      have hne : ∀ p, step ≠ .replace p := fun p hp => hstep p (congrArg _ hp)
      exact (GateSession.step_policy _ hne).trans (ih hs)
    | _ => exact ih hs

/-- The policies in force, held or met pass the checks. -/
structure Sound (s : ReloadSession) : Prop where
  policy : s.file.policy.errors = []
  held : ∀ p ∈ s.held, p.errors = []
  met : ∀ a ∈ s.calls.arrivals, a.met.policy.errors = []

theorem Sound.reload (h : s.Sound) : (s.step .reload).Sound := by
  cases hx : Settings.load s.file.contents with
  | error e =>
    rw [step_reload_of_error hx]
    exact ⟨h.policy, h.held, h.met⟩
  | ok x =>
    rw [step_reload_of_ok hx]
    exact ⟨Settings.policy_errors (Settings.load_errors hx), h.held, h.met⟩

theorem Sound.snapshot (h : s.Sound) : (s.step .snapshot).Sound where
  policy := h.policy
  held := by
    intro p hp
    rcases List.mem_append.mp hp with hp | hp
    · exact h.held p hp
    · rw [List.mem_singleton.mp hp]
      exact h.policy
  met := h.met

theorem Sound.call (h : s.Sound) (hshare : s.calls.gate.policy = s.file.policy)
    (step : GateStep) : (s.step (.call step)).Sound where
  policy := h.policy
  held := h.held
  met := by
    intro a ha
    change a ∈ (s.calls.step step).arrivals at ha
    rcases s.calls.mem_arrivals_step ha with ha | ha
    · exact h.met a ha
    · rw [ha, hshare]
      exact h.policy

theorem run_sound {f : PolicyFile} (hf : f.policy.errors = []) (g : Gate)
    (h : ReloadsOnly steps) : (run f g steps).Sound := by
  induction steps using List.reverseRecOn with
  | nil => exact ⟨hf, nofun, nofun⟩
  | append_singleton steps step ih =>
    obtain ⟨hs, -⟩ := h.of_concat
    rw [run_concat]
    cases step with
    | reload => exact (ih hs).reload
    | snapshot => exact (ih hs).snapshot
    | call step => exact (ih hs).call (run_shares f g hs) step
    | _ => exact ⟨(ih hs).policy, (ih hs).held, (ih hs).met⟩

/-- A reload of contents that can be loaded says so and puts the whole policy of the contents in
force; any other reload says so and leaves everything as it is. The policy in force is thus that of
the last contents that could be loaded, it is what a call meets, snapshots and calls under way keep
theirs, and if the first policy passes the checks then every policy that anything meets does. -/
theorem reload_is_atomic (f : PolicyFile) (g : Gate) (steps : List ReloadStep)
    (h : ReloadsOnly steps) :
    let s := run f g steps
    (∀ x, Settings.load s.file.contents = .ok x →
      s.step .reload =
        { file := { s.file with policy := x.policy }
          answers := s.answers ++ [true]
          held := s.held
          calls := s.calls.step (.replace x.policy) }) ∧
    (∀ e, Settings.load s.file.contents = .error e →
      s.step .reload = { s with answers := s.answers ++ [false] }) ∧
    s.answers = (finds f.contents steps).map (·.isOk) ∧
    s.file.policy = lastPolicy f.policy (finds f.contents steps) ∧
    s.calls.gate.policy = s.file.policy ∧
    (∀ l r, steps = l ++ .snapshot :: r →
      s.held[(run f g l).held.length]? = some (run f g l).file.policy) ∧
    (∀ v ∈ s.calls.visits, ∀ c, v.status = .waiting c → c.policy = v.met.policy) ∧
    (f.policy.errors = [] →
      s.file.policy.errors = [] ∧ (∀ p ∈ s.held, p.errors = []) ∧
        ∀ v ∈ s.calls.visits, v.met.policy.errors = []) := by
  intro s
  have hshare : s.calls.gate.policy = s.file.policy := run_shares f g h
  refine ⟨fun x hx => step_reload_of_ok hx, fun e he => ?_, go_answers _ steps, go_policy _ steps,
    hshare, fun l r hlr => ?_, fun v hv c hw => ?_, fun hf => ?_⟩
  · -- The policy that is put in place is the one that the calls share already.
    rw [step_reload_of_error he, ← hshare]
    rfl
  · have hsnap := held_go_snapshot (run f g l) r
    rwa [← run_append, ← hlr] at hsnap
  · obtain ⟨i, hi⟩ := GateSession.exists_call?_of_mem hv hw
    exact ((reached_calls f g steps).call_from hi).policy
  · have hsound := run_sound hf g h
    exact ⟨hsound.policy, hsound.held, fun v hv => hsound.met _ (List.mem_map_of_mem hv)⟩

/-- One good file, then bytes that are no text, a timeout of nothing and no file at all. -/
def turmoil : List ReloadStep :=
  [.snapshot, .write (Text.utf8 "[policy]\ntimeout_ms = 700"), .reload, .snapshot,
    .call (.arrive GateSession.fiveOfOne fun _ => 0), .write [0xFF], .reload,
    .write (Text.utf8 "[policy]\ntimeout_ms = 0"), .reload, .remove, .reload]

theorem reload_is_atomic_in_turmoil :
    let s := run {} GateSession.scarce turmoil
    ReloadsOnly turmoil ∧ s.answers = [true, false, false, false] ∧
      s.calls.gate.policy = { timeoutMs := 700 } ∧ s.held[0]? = some ({} : Policy) ∧
      s.calls.visits.length = 1 ∧ ∀ v ∈ s.calls.visits, v.met.policy.errors = [] := by
  have hs : ReloadsOnly turmoil := by simp [ReloadsOnly, turmoil]
  obtain ⟨-, -, hanswers, hpolicy, hshare, hheld, -, hsound⟩ :=
    reload_is_atomic {} GateSession.scarce turmoil hs
  refine ⟨hs, hanswers.trans (by decide +kernel), hshare.trans (hpolicy.trans (by decide +kernel)),
    hheld [] _ rfl, rfl, (hsound (by decide)).2.2⟩

end ReloadSession

end StockGate
