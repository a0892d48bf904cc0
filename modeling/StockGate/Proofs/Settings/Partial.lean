import StockGate.Proofs.Settings.Check
import StockGate.Proofs.Toml.Section
import StockGate.Settings.Load

namespace StockGate

open Document

namespace Policy

/-- The fields of a policy that are numbers. -/
inductive Field where
  | timeout
  | failureThreshold
  | samplingWindow
  | minimumThroughput
  | breakDuration
  | maxRetries
  | retryBackoff
  deriving DecidableEq

namespace Field

def name : Field → String
  | .timeout => "timeout_ms"
  | .failureThreshold => "failure_threshold"
  | .samplingWindow => "sampling_window_ms"
  | .minimumThroughput => "minimum_throughput"
  | .breakDuration => "break_duration_ms"
  | .maxRetries => "max_retries"
  | .retryBackoff => "retry_backoff_ms"

def size : Field → Nat
  | .failureThreshold | .minimumThroughput | .maxRetries => 2 ^ 32
  | .timeout | .samplingWindow | .breakDuration | .retryBackoff => 2 ^ 64

def get : Field → Policy → Nat
  | .timeout, p => p.timeoutMs.toNat
  | .failureThreshold, p => p.failureThreshold.toNat
  | .samplingWindow, p => p.samplingWindowMs.toNat
  | .minimumThroughput, p => p.minimumThroughput.toNat
  | .breakDuration, p => p.breakDurationMs.toNat
  | .maxRetries, p => p.maxRetries.toNat
  | .retryBackoff, p => p.retryBackoffMs.toNat

def set (p : Policy) (n : Nat) : Field → Policy
  | .timeout => { p with timeoutMs := .ofNat n }
  | .failureThreshold => { p with failureThreshold := .ofNat n }
  | .samplingWindow => { p with samplingWindowMs := .ofNat n }
  | .minimumThroughput => { p with minimumThroughput := .ofNat n }
  | .breakDuration => { p with breakDurationMs := .ofNat n }
  | .maxRetries => { p with maxRetries := .ofNat n }
  | .retryBackoff => { p with retryBackoffMs := .ofNat n }

variable {f g : Field} {p : Policy} {n : Nat}

theorem get_set_self (h : n < f.size) : f.get (f.set p n) = n := by
  cases f with
  | failureThreshold => exact UInt32.toNat_ofNat_of_lt h
  | minimumThroughput => exact UInt32.toNat_ofNat_of_lt h
  | maxRetries => exact UInt32.toNat_ofNat_of_lt h
  | timeout => exact UInt64.toNat_ofNat_of_lt h
  | samplingWindow => exact UInt64.toNat_ofNat_of_lt h
  | breakDuration => exact UInt64.toNat_ofNat_of_lt h
  | retryBackoff => exact UInt64.toNat_ofNat_of_lt h

theorem get_set_of_ne (h : f ≠ g) : f.get (g.set p n) = f.get p := by
  cases f <;> cases g <;> first | rfl | exact absurd rfl h

theorem name_injective : Function.Injective name := by
  intro f g h
  cases f <;> cases g <;> first | rfl | exact absurd h (by decide)

theorem name_mem (f : Field) : f.name ∈ fieldNames := by
  cases f <;> decide

end Field

/-- One field of a policy with the value it is given. -/
inductive Entry where
  | number (f : Field) (n : Fin (2 ^ 63))
  | failOpen (b : Bool)
  deriving DecidableEq

namespace Entry

def name : Entry → String
  | .number f _ => f.name
  | .failOpen _ => "fail_open"

def value : Entry → String
  | .number _ n => toString n.val
  | .failOpen b => if b then "true" else "false"

/-- The field cannot hold its value. -/
def Oversized : Entry → Prop
  | .number f n => f.size ≤ n
  | .failOpen _ => False

instance : DecidablePred Oversized
  | .number f n => inferInstanceAs (Decidable (f.size ≤ n))
  | .failOpen _ => inferInstanceAs (Decidable False)

def set (p : Policy) : Entry → Policy
  | .number f n => f.set p n
  | .failOpen b => { p with failOpen := b }

end Entry

/-- A document that gives these values to the policy, one in each line. -/
def document (es : List Entry) (ending : Bool) : String :=
  "[policy]" ++ String.join (es.map fun e => "\n" ++ e.name ++ " = " ++ e.value) ++
    if ending then "\n" else ""

/-- The fields that must not be zero, in the order of the checks. -/
def positive : List (Field × Problem) :=
  [(.timeout, .notPositive), (.failureThreshold, .belowOne), (.samplingWindow, .notPositive),
    (.minimumThroughput, .belowOne), (.breakDuration, .notPositive)]

/-- What is wrong with policies that are given these values. -/
def zeros (es : List Entry) : List SettingError :=
  (positive.filter fun f => .number f.1 0 ∈ es).map fun f => ⟨"policy." ++ f.1.name, f.2⟩

namespace Entry

def item : Entry → Toml.Item
  | .number _ n => .integer n.val
  | .failOpen b => .bool b

theorem name_mem (e : Entry) : e.name ∈ fieldNames := by
  cases e with
  | number f n => exact f.name_mem
  | failOpen b => exact (by decide : "fail_open" ∈ fieldNames)

theorem bare_name (e : Entry) : Toml.Bare e.name.toList := by
  have hall : ∀ name ∈ fieldNames, Toml.Bare name.toList := by decide
  exact hall _ e.name_mem

theorem writes_value (e : Entry) : Toml.Writes e.value.toList e.item := by
  cases e with
  | failOpen b =>
    cases b
    · exact Toml.writes_false
    · exact Toml.writes_true
  | number f n =>
    have hdigits : (toString n.val).toList = Nat.toDigits 10 n.val := by
      rw [Nat.toString_eq_ofList_toDigits, String.toList_ofList]
    rw [value, hdigits]
    exact Toml.writes_number n.isLt

def row (e : Entry) : Toml.Row where
  name := e.name
  text := e.value.toList
  item := e.item
  bare := e.bare_name
  writes := e.writes_value

def member (e : Entry) : String × Toml.Item :=
  (e.name, e.item)

end Entry

theorem document_eq (es : List Entry) (ending : Bool) :
    document es ending = String.ofList (Toml.Row.document "policy" (es.map Entry.row) ending) := by
  have hline (e : Entry) :
      ("\n" ++ e.name ++ " = " ++ e.value).toList = '\n' :: e.row.line := by
    simp [Toml.Row.line, Entry.row]
  have hlines : es.flatMap (fun e => ("\n" ++ e.name ++ " = " ++ e.value).toList) =
      es.flatMap fun e => '\n' :: e.row.line := List.flatMap_congr fun e _ => hline e
  have hending : (if ending then "\n" else "").toList = if ending then ['\n'] else [] := by
    cases ending <;> rfl
  apply String.toList_inj.mp
  rw [document, String.toList_append, String.toList_append, String.toList_join, List.flatMap_map,
    hlines, hending, String.toList_ofList, String.toList_ofList, Toml.Row.document, Toml.Row.body,
    List.flatMap_map, List.append_assoc]
  rfl

theorem parse?_document {es : List Entry} (h : (es.map Entry.name).Nodup) (ending : Bool) :
    Toml.parse? (document es ending) =
      some (.table .header [("policy", .table .header (es.map Entry.member))]) := by
  have hnames : ((es.map Entry.row).map Toml.Row.name).Nodup := by
    rw [List.map_map]
    exact h
  rw [document_eq, Toml.Row.parse?_document (by decide) hnames, List.map_map]
  rfl

/-- A policy whose members override those of another policy. -/
def readOver {α : Type} [Document α] (p : Policy) (r : Fields α) : Option Policy := do
  return {
    timeoutMs := ← r.withDefault "timeout_ms" word64? p.timeoutMs
    failureThreshold := ← r.withDefault "failure_threshold" word32? p.failureThreshold
    samplingWindowMs := ← r.withDefault "sampling_window_ms" word64? p.samplingWindowMs
    minimumThroughput := ← r.withDefault "minimum_throughput" word32? p.minimumThroughput
    breakDurationMs := ← r.withDefault "break_duration_ms" word64? p.breakDurationMs
    failOpen := ← r.withDefault "fail_open" flag? p.failOpen
    maxRetries := ← r.withDefault "max_retries" word32? p.maxRetries
    retryBackoffMs := ← r.withDefault "retry_backoff_ms" word64? p.retryBackoffMs }

theorem read?_eq {α : Type} [Document α] (v : α) :
    read? v = (fields? fieldNames v).bind (readOver {}) :=
  rfl

section

variable {f : Field} {n : Nat} {p : Policy} {r : Fields Toml.Item}

theorem whole?_integer (n : Nat) : whole? (Toml.Item.integer n) = some (n : Int) :=
  rfl

theorem readOver_number (hn : n < f.size) (h : f.name ∉ r.map Prod.fst) :
    readOver p ((f.name, .integer n) :: r) = readOver (f.set p n) r := by
  have habsent {β : Type} (read : Toml.Item → Option β) (absent : β) :
      r.withDefault f.name read absent = some absent := withDefault_of_not_mem h read absent
  have h32 (hsize : f.size = 2 ^ 32) :
      word32? (Toml.Item.integer n) = some (UInt32.ofNat n) := by
    rw [word32?_of_nat (whole?_integer n), if_pos]
    exact Nat.lt_of_lt_of_eq hn hsize
  have h64 (hsize : f.size = 2 ^ 64) :
      word64? (Toml.Item.integer n) = some (UInt64.ofNat n) := by
    rw [word64?_of_nat (whole?_integer n), if_pos]
    exact Nat.lt_of_lt_of_eq hn hsize
  -- The fields differ in their names and in the widths of their words alone.
  cases f <;> simp only [Field.name] at habsent <;>
    simp (disch := decide) [readOver, Field.name, Field.set, withDefault_cons, habsent, h32, h64]

theorem readOver_oversized (hn : f.size ≤ n) (hword : n < 2 ^ 63) :
    readOver p ((f.name, .integer n) :: r) = none := by
  have h32 (hsize : f.size = 2 ^ 32) : word32? (Toml.Item.integer n) = none := by
    rw [word32?_of_nat (whole?_integer n), if_neg]
    rw [← show f.size = UInt32.size from hsize]
    exact Nat.not_lt_of_le hn
  have hnarrow : f.size ≠ 2 ^ 64 := by omega
  cases f with
  | timeout | samplingWindow | breakDuration | retryBackoff => exact absurd rfl hnarrow
  | failureThreshold | minimumThroughput | maxRetries =>
    simp (disch := decide) [readOver, Field.name, withDefault_cons, h32]

theorem readOver_member {e : Entry} (h : e.name ∉ r.map Prod.fst) (p : Policy) :
    readOver p (e.member :: r) = if e.Oversized then none else readOver (e.set p) r := by
  cases e with
  | number f n =>
    by_cases hn : (Entry.number f n).Oversized
    · rw [if_pos hn]
      exact readOver_oversized hn n.isLt
    · rw [if_neg hn]
      exact readOver_number (Nat.lt_of_not_le hn) h
  | failOpen b =>
    have habsent {β : Type} (read : Toml.Item → Option β) (absent : β) :
        r.withDefault "fail_open" read absent = some absent := withDefault_of_not_mem h read absent
    have hflag : flag? (Toml.Item.bool b) = some b := rfl
    simp [readOver, Entry.member, Entry.name, Entry.item, Entry.set, Entry.Oversized,
      withDefault_cons, habsent, hflag]

end

/-- Entries of different fields are set one after the other, unless one is too large. -/
theorem readOver_members {es : List Entry} (h : (es.map Entry.name).Nodup) (p : Policy) :
    readOver p (es.map Entry.member) =
      if ∃ e ∈ es, e.Oversized then none else some (es.foldl Entry.set p) := by
  induction es generalizing p with
  | nil => simp [readOver, Fields.withDefault]
  | cons e es ih =>
    obtain ⟨hfresh, hnodup⟩ := List.nodup_cons.mp h
    have hnames : (es.map Entry.member).map Prod.fst = es.map Entry.name := by
      rw [List.map_map]
      rfl
    rw [List.map_cons, readOver_member (hnames ▸ hfresh), ih hnodup, List.foldl_cons]
    by_cases he : e.Oversized
    · rw [if_pos he, if_pos ⟨e, List.mem_cons_self, he⟩]
    · simp [he]

theorem read?_members {es : List Entry} (h : (es.map Entry.name).Nodup) :
    read? (Toml.Item.table .header (es.map Entry.member)) =
      if ∃ e ∈ es, e.Oversized then none else some (es.foldl Entry.set {}) := by
  have hknown : ∀ m ∈ es.map Entry.member, m.1 ∈ fieldNames := by
    intro m hm
    obtain ⟨e, -, rfl⟩ := List.mem_map.mp hm
    exact e.name_mem
  have hnodup : ((es.map Entry.member).map Prod.fst).Nodup := by
    rw [List.map_map]
    exact h
  rw [read?_eq, fields?_of_known rfl hknown hnodup, Option.bind_some, readOver_members h]

theorem Entry.eq_number_of_name {e : Entry} {f : Field} (h : f.name = e.name) :
    ∃ n, e = .number f n := by
  cases e with
  | number g n => exact ⟨n, by rw [Field.name_injective h]⟩
  | failOpen b => cases f <;> exact absurd h (by decide +revert)

theorem Entry.get_set_of_ne {e : Entry} {f : Field} (h : f.name ≠ e.name) (p : Policy) :
    f.get (e.set p) = f.get p := by
  cases e with
  | number g n =>
    apply Field.get_set_of_ne
    rintro rfl
    exact h rfl
  | failOpen b => cases f <;> rfl

theorem get_foldl_set_eq_zero_iff {es : List Entry} (h : (es.map Entry.name).Nodup)
    (hfit : ¬∃ e ∈ es, e.Oversized) (f : Field) (p : Policy) :
    f.get (es.foldl Entry.set p) = 0 ↔
      .number f 0 ∈ es ∨ f.name ∉ es.map Entry.name ∧ f.get p = 0 := by
  induction es generalizing p with
  | nil => simp
  | cons e es ih =>
    obtain ⟨hfresh, hnodup⟩ := List.nodup_cons.mp h
    obtain ⟨he, hes⟩ : ¬e.Oversized ∧ ¬∃ e ∈ es, e.Oversized := by simpa using hfit
    rw [List.foldl_cons, ih hnodup hes]
    by_cases hname : f.name = e.name
    · obtain ⟨n, rfl⟩ := Entry.eq_number_of_name hname
      have hget : f.get ((Entry.number f n).set p) = n := Field.get_set_self (Nat.lt_of_not_le he)
      have hfresh : f.name ∉ es.map Entry.name := hfresh
      have habsent : Entry.number f 0 ∉ es := fun hmem => hfresh (List.mem_map_of_mem hmem)
      rw [hget, List.mem_cons, List.map_cons, List.mem_cons]
      constructor
      · rintro (hmem | ⟨-, hzero⟩)
        · exact absurd hmem habsent
        · exact .inl (.inl (congrArg _ (Fin.ext hzero.symm)))
      · rintro ((heq | hmem) | ⟨hother, -⟩)
        · cases heq
          exact .inr ⟨hfresh, rfl⟩
        · exact .inl hmem
        · exact absurd (.inl hname) hother
    · rw [Entry.get_set_of_ne hname]
      have hne : Entry.number f 0 ≠ e := by
        rintro rfl
        exact hname rfl
      simp [hne, hname]

theorem get_default_ne_zero (f : Field) : f.get {} ≠ 0 := by
  cases f <;> decide

theorem errors_eq (p : Policy) : p.errors =
    (positive.filter fun f => f.1.get p = 0).map fun f => ⟨"policy." ++ f.1.name, f.2⟩ := by
  have h32 (n : UInt32) : decide (n ≠ 0) = !decide (n.toNat = 0) := by
    rw [← decide_not, decide_eq_decide]
    exact not_congr UInt32.toNat_inj.symm
  have h64 (n : UInt64) : decide (n ≠ 0) = !decide (n.toNat = 0) := by
    rw [← decide_not, decide_eq_decide]
    exact not_congr UInt64.toNat_inj.symm
  have hrequire : p.errors = positive.flatMap fun f =>
      require (!decide (f.1.get p = 0)) ("policy." ++ f.1.name) f.2 := by
    rw [errors, h64, h32, h64, h32, h64]
    simp only [positive, List.flatMap_cons, List.flatMap_nil, List.append_nil, List.append_assoc]
    rfl
  rw [hrequire, flatMap_require]
  simp

/-- In a policy that is set from the defaults just the fields that are set to zero are zero. -/
theorem errors_foldl_set {es : List Entry} (h : (es.map Entry.name).Nodup)
    (hfit : ¬∃ e ∈ es, e.Oversized) : (es.foldl Entry.set {}).errors = zeros es := by
  have hzero (f : Field) : f.get (es.foldl Entry.set {}) = 0 ↔ .number f 0 ∈ es := by
    rw [get_foldl_set_eq_zero_iff h hfit]
    simp [get_default_ne_zero]
  rw [errors_eq, zeros]
  simp only [hzero]

end Policy

namespace Settings

theorem read?_policy (v : Toml.Item) :
    read? (Toml.Item.table .header [("policy", v)]) =
      (Policy.read? v).map fun p => { policy := p } := by
  have hfields : fields? fieldNames (Toml.Item.table .header [("policy", v)]) =
      some [("policy", v)] := fields?_of_known rfl (by simp [fieldNames]) (by simp)
  rw [read?, hfields]
  change (Policy.read? v).bind (fun p => some ({ policy := p } : Settings)) = _
  rw [Option.map_eq_bind]
  rfl

theorem errors_of_policy (p : Policy) : ({ policy := p } : Settings).errors = p.errors := by
  have hcatalog : ({} : CatalogSettings).errors = [] := by decide +kernel
  have hflag : ({} : FlagSettings).errors = [] := by decide +kernel
  have hobservability : ({} : ObservabilitySettings).errors = [] := by decide +kernel
  rw [errors, hcatalog, hflag, hobservability, List.append_nil, List.append_nil, List.append_nil]

/-- What a document of values for distinct fields of the policy is answered with. A value that its
field cannot hold makes the document malformed. Otherwise every field that must be positive and is
set to zero is reported, in the order of the checks; and if there is none, the settings are the
defaults with just the named fields changed. -/
theorem only_named_fields_change (es : List Policy.Entry) (h : (es.map Policy.Entry.name).Nodup)
    (ending : Bool) :
    ofToml (Policy.document es ending) =
      if ∃ e ∈ es, e.Oversized then .error .malformed
      else if Policy.zeros es = [] then .ok { policy := es.foldl Policy.Entry.set {} }
      else .error (.invalid (Policy.zeros es)) := by
  have hread : (Toml.parse? (Policy.document es ending)).bind read? =
      if ∃ e ∈ es, e.Oversized then none
      else some { policy := es.foldl Policy.Entry.set {} } := by
    rw [Policy.parse?_document h, Option.bind_some, read?_policy, Policy.read?_members h]
    split <;> rfl
  rw [ofToml, hread]
  by_cases hfit : ∃ e ∈ es, e.Oversized
  · rw [if_pos hfit, if_pos hfit]
  · have herrors : ({ policy := es.foldl Policy.Entry.set {} } : Settings).errors =
        Policy.zeros es := (errors_of_policy _).trans (Policy.errors_foldl_set h hfit)
    rw [if_neg hfit, if_neg hfit, ← herrors]

/-- Two fields changed, two reported in the order of the checks, and one that cannot be held. -/
theorem only_named_fields_change_in_turn :
    ofToml "[policy]\nmax_retries = 3\nfail_open = false\n" =
        .ok { policy := { maxRetries := 3, failOpen := false } } ∧
      ofToml "[policy]\nbreak_duration_ms = 0\nretry_backoff_ms = 0\ntimeout_ms = 0" =
        .error (.invalid [⟨"policy.timeout_ms", .notPositive⟩,
          ⟨"policy.break_duration_ms", .notPositive⟩]) ∧
      ofToml "[policy]\ntimeout_ms = 0\nmax_retries = 4294967296" = .error .malformed := by
  have hchanged := only_named_fields_change
    [.number .maxRetries 3, .failOpen false] (by decide) true
  have hreported := only_named_fields_change
    [.number .breakDuration 0, .number .retryBackoff 0, .number .timeout 0] (by decide) false
  have hspoilt := only_named_fields_change
    [.number .timeout 0, .number .maxRetries 4294967296] (by decide) false
  refine ⟨?_, ?_, ?_⟩
  · exact hchanged.trans (by decide +kernel)
  · exact hreported.trans (by decide +kernel)
  · exact hspoilt.trans (by decide +kernel)

end Settings

end StockGate
