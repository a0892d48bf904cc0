import StockGate.Proofs.Url.Parser
import StockGate.Settings.Check

namespace StockGate

theorem require_eq_nil_iff {condition : Bool} {field : String} {problem : Problem} :
    require condition field problem = [] ↔ condition = true := by
  cases condition <;> simp [require]

theorem flatMap_require {α : Type} (l : List α) (c : α → Bool) (field : α → String)
    (problem : α → Problem) : (l.flatMap fun a => require (c a) (field a) (problem a)) =
      (l.filter fun a => !c a).map fun a => ⟨field a, problem a⟩ := by
  induction l with
  | nil => rfl
  | cons a l ih =>
    rw [List.flatMap_cons, ih, require]
    cases hc : c a <;> simp [hc]

theorem Settings.catalog_errors {s : Settings} (h : s.errors = []) : s.catalog.errors = [] := by
  simp only [errors, List.append_eq_nil_iff] at h
  exact h.1.1.2

theorem Settings.flag_errors {s : Settings} (h : s.errors = []) : s.flag.errors = [] := by
  simp only [errors, List.append_eq_nil_iff] at h
  exact h.1.2

namespace Policy

/-- Nothing that has to be positive is zero. -/
structure Positive (p : Policy) : Prop where
  timeout : p.timeoutMs ≠ 0
  failureThreshold : p.failureThreshold ≠ 0
  samplingWindow : p.samplingWindowMs ≠ 0
  minimumThroughput : p.minimumThroughput ≠ 0
  breakDuration : p.breakDurationMs ≠ 0

theorem errors_eq_nil_iff {p : Policy} : p.errors = [] ↔ p.Positive := by
  simp only [errors, List.append_eq_nil_iff, require_eq_nil_iff, decide_eq_true_eq]
  constructor
  · rintro ⟨⟨⟨⟨h₁, h₂⟩, h₃⟩, h₄⟩, h₅⟩
    exact ⟨h₁, h₂, h₃, h₄, h₅⟩
  · intro h
    exact ⟨⟨⟨⟨h.timeout, h.failureThreshold⟩, h.samplingWindow⟩, h.minimumThroughput⟩,
      h.breakDuration⟩

end Policy

theorem CatalogSettings.base_of_errors {c : CatalogSettings} (h : c.errors = []) :
    ∃ base, Url.parse c.baseUrl = .ok base ∧ Url.IsWeb base.scheme := by
  simp only [errors, List.append_eq_nil_iff, urlErrors] at h
  obtain ⟨hurl, -⟩ := h
  split at hurl
  · cases hurl
  · next base hbase =>
    rw [require_eq_nil_iff, decide_eq_true_eq] at hurl
    exact ⟨base, hbase, hurl⟩

theorem CatalogSettings.placeholder_of_errors {c : CatalogSettings} (h : c.errors = []) :
    Text.contains placeholder c.productPath.toList = true := by
  simp only [errors, List.append_eq_nil_iff, require_eq_nil_iff] at h
  exact h.2

theorem FlagSettings.base_of_errors {f : FlagSettings} (h : f.errors = [])
    (hs : f.source = .service) :
    ∃ url base, f.serviceUrl = some url ∧ Url.parse url = .ok base := by
  simp only [errors, List.append_eq_nil_iff, urlErrors, hs] at h
  cases hurl : f.serviceUrl with
  | none =>
    rw [hurl] at h
    exact absurd h.2 nofun
  | some url =>
    cases hbase : Url.parse url with
    | error fault => simp [hurl, hbase] at h
    | ok base => exact ⟨url, base, rfl, hbase⟩

theorem FlagSettings.serviceUrl_of_errors {f : FlagSettings} (h : f.errors = [])
    (hs : f.source = .service) : ∃ url, f.serviceUrl = some url := by
  obtain ⟨url, _, hurl, _⟩ := base_of_errors h hs
  exact ⟨url, hurl⟩

theorem ObservabilitySettings.address_of_errors {o : ObservabilitySettings} (h : o.errors = [])
    (hm : o.metricsEnabled = true) : ∃ a, Net.SocketAddress.parse? o.metricsAddress = some a := by
  rw [errors, require_eq_nil_iff, hm, Bool.not_true, Bool.false_or] at h
  exact Option.isSome_iff_exists.mp h

end StockGate
