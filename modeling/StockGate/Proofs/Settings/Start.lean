import StockGate.Command.Run
import StockGate.Proofs.Settings.Check
import StockGate.Proofs.Settings.Reload

namespace StockGate

/-- All that a start and the lookups after it ask of the settings is there. -/
structure Settings.Starts (s : Settings) : Prop where
  /-- There is a gate, and it has a URL for every product. -/
  wiring : ∃ base w, Url.parse s.catalog.baseUrl = .ok base ∧ Wiring.ofSettings s = .ok w ∧
    ∀ product, ∃ url, w.catalog.address.productUrl product = .ok url
  service : s.flag.source = .service → ∃ url, s.flag.serviceUrl = some url
  metrics : s.observability.metricsEnabled = true →
    ∃ a, Net.SocketAddress.parse? s.observability.metricsAddress = some a
  /-- No start complains of the metrics' address. -/
  quiet : ∀ (x : Command.Surroundings) text,
    .metricsAddressInvalid text ∉ Command.startEvents x s
  positive : s.policy.Positive

theorem CatalogAddress.productUrl_of_rooted {a : CatalogAddress} (h : a.base.Rooted)
    (product : String) : ∃ url, a.productUrl product = .ok url := by
  obtain ⟨url, hurl⟩ := h.push? (a.segments product)
  exact ⟨url, by rw [productUrl, hurl]⟩

theorem FlagWiring.ofSettings_of_service {f : FlagSettings}
    (h : f.source = .service → ∃ url, f.serviceUrl = some url) :
    ∃ w, FlagWiring.ofSettings f = .ok w := by
  unfold FlagWiring.ofSettings
  cases hs : f.source with
  | fixed => exact ⟨_, rfl⟩
  | service =>
    obtain ⟨url, hurl⟩ := h hs
    rw [hurl]
    exact ⟨_, rfl⟩

theorem Wiring.ofSettings_of_parts {s : Settings} {base : Url} {flags : FlagWiring}
    (hb : Url.parse s.catalog.baseUrl = .ok base) (hf : FlagWiring.ofSettings s.flag = .ok flags) :
    Wiring.ofSettings s =
      .ok ⟨⟨⟨base, s.catalog.productPath⟩, s.catalog.connectTimeoutMs ≠ 0⟩, flags,
        .ofSettings s.flag⟩ := by
  rw [Wiring.ofSettings, CatalogClient.ofSettings, CatalogAddress.ofSettings, hb, hf]
  rfl

theorem Command.metricsEvents_quiet {o : ObservabilitySettings} (x : Surroundings) (text : String)
    (h : o.metricsEnabled = true → ∃ a, Net.SocketAddress.parse? o.metricsAddress = some a) :
    .metricsAddressInvalid text ∉ metricsEvents x o := by
  unfold metricsEvents
  cases hm : o.metricsEnabled with
  | false => simp
  | true =>
    obtain ⟨a, ha⟩ := h hm
    rw [Bool.not_true, if_neg Bool.false_ne_true, ha]
    by_cases hl : x.canListen a = true
    · simp [hl]
    · simp [hl]

theorem Settings.starts_of_errors {s : Settings} (h : s.errors = []) : s.Starts := by
  simp only [errors, List.append_eq_nil_iff] at h
  obtain ⟨⟨⟨hpolicy, hcatalog⟩, hflag⟩, hobservability⟩ := h
  obtain ⟨base, hbase, hweb⟩ := CatalogSettings.base_of_errors hcatalog
  have hrooted := Url.rooted_of_parse hbase hweb.isSpecial
  have hservice := FlagSettings.serviceUrl_of_errors hflag
  obtain ⟨flags, hflags⟩ := FlagWiring.ofSettings_of_service hservice
  have hmetrics := ObservabilitySettings.address_of_errors hobservability
  refine ⟨⟨base, _, hbase, Wiring.ofSettings_of_parts hbase hflags, ?_⟩, hservice, hmetrics, ?_,
    Policy.errors_eq_nil_iff.mp hpolicy⟩
  · intro product
    exact CatalogAddress.productUrl_of_rooted hrooted product
  · intro x text
    have hquiet := Command.metricsEvents_quiet x text hmetrics
    simp [Command.startEvents, hquiet]

theorem Command.settings_errors {x : Surroundings} {config : Option String} {s : Settings}
    (h : settings x config = .ok s) : s.errors = [] := by
  unfold settings at h
  cases config with
  | none =>
    cases h
    decide +kernel
  | some path => exact Settings.load_errors h

theorem Command.validate_result_ne_build (x : Surroundings) (args : Arguments) (s : Settings)
    (w : Wiring) (e : BuildError) : (validate x args s w).result ≠ .error (.build e) := by
  unfold validate
  dsimp only
  split
  · nofun
  · split
    · nofun
    · nofun

/-- Whatever settings pass their checks, and so whatever document is accepted, the gate can be made
of them, looks every product up under a URL and exposes its metrics under an address that can be
read; no run of the command fails to make its gate. -/
theorem checked_settings_start :
    (∀ s : Settings, s.errors = [] → s.Starts) ∧
    (∀ text s, Settings.ofToml text = .ok s → s.Starts) ∧
    ∀ x args e, (Command.run x args).result ≠ .error (.build e) := by
  refine ⟨fun s h => s.starts_of_errors h, ?_, ?_⟩
  · intro text s h
    exact Settings.starts_of_errors (Settings.ofToml_errors h)
  · intro x args e
    unfold Command.run
    split
    · nofun
    · split
      · nofun
      · next args _ _ s hs =>
        obtain ⟨-, w, -, hw, -⟩ := (Settings.starts_of_errors (Command.settings_errors hs)).wiring
        rw [hw]
        exact Command.validate_result_ne_build x args s w e

/-- Settings that name servers of their own, with a path in the catalog's URL. -/
def remote : Settings where
  catalog := { baseUrl := " https://shop.example/store/?q#f", productPath := "a//\x7bid\x7d/stock" }
  flag := { source := .service, serviceUrl := some "http://flags.example:8013" }

theorem checked_settings_start_remote :
    remote.errors = [] ∧ ∃ w, Wiring.ofSettings remote = .ok w ∧
      ∃ url, w.catalog.address.productUrl "red lamp" = .ok url := by
  have h : remote.errors = [] := by decide +kernel
  obtain ⟨-, w, -, hw, hurl⟩ := (checked_settings_start.1 remote h).wiring
  exact ⟨h, w, hw, hurl "red lamp"⟩

end StockGate
