import StockGate.Validation

namespace StockGate

theorem RetryPlan.lt_of_next {plan : RetryPlan} {attempts remaining draw d : Nat}
    {error : LookupError} (h : plan.next attempts error remaining draw = .ok (some d)) :
    d < remaining := by
  unfold next at h
  split at h
  · cases h
  · cases hd : plan.delay attempts remaining draw with
    | error e => rw [hd] at h; cases h
    | ok delay =>
      rw [hd] at h
      simp only [Except.map] at h
      split at h
      · cases h
      · next hlt =>
        simp only [Except.ok.injEq, Option.some.injEq] at h
        omega

namespace Awaited

theorem le_ends_start {α : Type} (now : Nat) (r : Reply α) (limit : Nat) :
    now ≤ (start now r limit).ends := by
  cases r <;> simp only [start, ends] <;> omega

theorem answer?_start_eq_some_iff {α : Type} {now limit : Nat} {r : Reply α} {a : α} :
    (start now r limit).answer? = some a ↔
      ∃ delay, r = .after delay a ∧ now + delay ≤ max now limit := by
  cases r with
  | never => simp [start, answer?]
  | after delay b =>
    change (if now + delay ≤ max now limit then some b else none) = some a ↔ _
    rw [Option.ite_none_right_eq_some, Option.some.injEq]
    constructor
    · rintro ⟨hle, rfl⟩
      exact ⟨delay, rfl, hle⟩
    · rintro ⟨d, hr, hle⟩
      cases hr
      exact ⟨hle, rfl⟩

end Awaited

theorem lamp_not_blank : Text.blankText "lamp" = false := by
  decide

theorem one_lamp_ne_zero : (1 : UInt32) ≠ 0 := by
  decide

structure LookupMade where
  time : Nat
  product : String
  reply : Reply LookupAnswer

/-- In time the lookup brings the product's record, which says how much is in stock. -/
def LookupMade.InStock (l : LookupMade) (product : String) (deadline : Nat) (q : UInt32) : Prop :=
  ∃ delay record level, l.reply = .after delay (.ok record) ∧ l.time + delay ≤ deadline ∧
    record.id = product ∧ record.stock = some level ∧ level.schemaVersion = 1 ∧
    level.available = q

/-- The questions in which a catalog is ahead of what it was. -/
def lookupsSince (now : Nat) (old new : Catalog) : List LookupMade :=
  (new.asked.zipIdx.drop old.asked.length).map fun (product, i) =>
    ⟨now, product, old.answer i product⟩

theorem Product.available_eq_ok_iff {p : Product} {asked : String} {q : UInt32} :
    p.available asked = .ok q ↔
      p.id = asked ∧ ∃ level, p.stock = some level ∧ level.schemaVersion = 1 ∧
        level.available = q := by
  unfold available stockSchemaVersion
  grind

namespace LookupMade

variable {l : LookupMade} {product : String} {deadline : Nat} {q : UInt32}

theorem inStock_iff (h : l.time ≤ deadline) :
    l.InStock product deadline q ↔
      ∃ a, (Awaited.start l.time l.reply deadline).answer? = some a ∧
        a.bind (·.available product) = .ok q := by
  rw [InStock]
  constructor
  · rintro ⟨delay, record, level, hr, hle, hid, hs, hv, hq⟩
    refine ⟨.ok record, Awaited.answer?_start_eq_some_iff.mpr ⟨delay, hr, by omega⟩, ?_⟩
    exact Product.available_eq_ok_iff.mpr ⟨hid, level, hs, hv, hq⟩
  · rintro ⟨a, ha, hq⟩
    obtain ⟨delay, hr, hle⟩ := Awaited.answer?_start_eq_some_iff.mp ha
    cases a with
    | error e => cases hq
    | ok record =>
      obtain ⟨hid, level, hs, hv, hq⟩ := Product.available_eq_ok_iff.mp hq
      exact ⟨delay, record, level, hr, by omega, hid, hs, hv, hq⟩

theorem InStock.eq {q' : UInt32} (h : l.InStock product deadline q)
    (h' : l.InStock product deadline q') : q' = q := by
  obtain ⟨d, r, level, hr, -, -, hs, -, rfl⟩ := h
  obtain ⟨d', r', level', hr', -, -, hs', -, rfl⟩ := h'
  grind

end LookupMade

theorem lookupsSince_self (now : Nat) (catalog : Catalog) :
    lookupsSince now catalog catalog = [] := by
  simp [lookupsSince]

theorem lookupsSince_ask (now : Nat) (catalog : Catalog) (product : String) :
    lookupsSince now catalog (catalog.ask product).1 =
      [⟨now, product, (catalog.ask product).2⟩] := by
  simp [lookupsSince, Service.ask, List.zipIdx_append]

namespace Validation

variable {v : Validation} {now : Nat} {draws : Nat → Nat} {catalog : Catalog}

def next (v : Validation) (now : Nat) (draws : Nat → Nat) (e : LookupError) :
    Except Backoff.Overflow (Option Nat) :=
  (RetryPlan.ofPolicy v.policy).next v.attempt e (v.deadline.remaining now) (draws v.attempt)

/-- The validation as it waits for a lookup that it has just begun. -/
def listening (v : Validation) (now : Nat) (reply : Reply LookupAnswer) : Validation :=
  { v with stage := .asked (.start now reply v.deadline.time) }

/-- What a step can come to: the catalog it leaves and where it gets. -/
inductive Stride (v : Validation) (now : Nat) (draws : Nat → Nat) (catalog : Catalog) :
    Catalog → ValidationAdvance → Prop
  | wait (hnow : now < v.wake) : Stride v now draws catalog catalog .waiting
  | timeOut {w : Awaited LookupAnswer} (hs : v.stage = .asked w) (hnow : w.ends ≤ now)
      (ha : w.answer? = none) :
      Stride v now draws catalog catalog
        (.finished (.failed .timeout (now - v.started) v.attempt))
  | check {w : Awaited LookupAnswer} {a : LookupAnswer} {n : UInt32} (hs : v.stage = .asked w)
      (hnow : w.ends ≤ now) (ha : w.answer? = some a) (hn : v.stock a = .ok n) :
      Stride v now draws catalog catalog (.finished (.checked n (now - v.started) v.attempt))
  | fail {w : Awaited LookupAnswer} {a : LookupAnswer} {e : LookupError}
      (hs : v.stage = .asked w) (hnow : w.ends ≤ now) (ha : w.answer? = some a)
      (he : v.stock a = .error e) (hd : v.next now draws e = .ok none) :
      Stride v now draws catalog catalog
        (.finished (.failed e.kind (now - v.started) v.attempt))
  | pause {w : Awaited LookupAnswer} {a : LookupAnswer} {e : LookupError} {delay : Nat}
      (hs : v.stage = .asked w) (hnow : w.ends ≤ now) (ha : w.answer? = some a)
      (he : v.stock a = .error e) (hd : v.next now draws e = .ok (some delay))
      (hle : v.attempt + 1 ≤ v.policy.maxRetries.toNat + 1) :
      Stride v now draws catalog catalog
        (.moved { v with attempt := v.attempt + 1, stage := .pausing (now + delay),
                         attempt_le := hle })
  | overflow {w : Awaited LookupAnswer} {a : LookupAnswer} {e : LookupError}
      {o : Backoff.Overflow} (hs : v.stage = .asked w) (hnow : w.ends ≤ now)
      (ha : w.answer? = some a) (he : v.stock a = .error e) (hd : v.next now draws e = .error o) :
      Stride v now draws catalog catalog .overflown
  | ask {t : Nat} (hs : v.stage = .pausing t) (hnow : t ≤ now) :
      Stride v now draws catalog (catalog.ask v.request.product).1
        (.moved (v.listening now (catalog.ask v.request.product).2))

theorem stride_afterError {w : Awaited LookupAnswer} {a : LookupAnswer} {e : LookupError}
    (hs : v.stage = .asked w) (hnow : w.ends ≤ now) (ha : w.answer? = some a)
    (he : v.stock a = .error e) :
    v.Stride now draws catalog catalog (v.afterError now (draws v.attempt) e).2 := by
  unfold afterError
  split
  · next hd => exact .overflow hs hnow ha he hd
  · next hd => exact .pause hs hnow ha he hd _
  · next hd => exact .fail hs hnow ha he hd

theorem stride (v : Validation) (now : Nat) (draws : Nat → Nat) (catalog : Catalog) :
    v.Stride now draws catalog (v.step now draws catalog).1 (v.step now draws catalog).2.2 := by
  unfold step
  by_cases hwait : now < v.wake
  · rw [if_pos hwait]
    exact .wait hwait
  · rw [if_neg hwait]
    cases hs : v.stage with
    | asked w =>
      have hnow : w.ends ≤ now := by simpa [wake, hs] using hwait
      simp only [afterLookup]
      cases ha : w.answer? with
      | none => exact .timeOut hs hnow ha
      | some a =>
        cases he : v.stock a with
        | ok n =>
          simp only [Option.map_some, he]
          exact .check hs hnow ha he
        | error e =>
          simp only [Option.map_some, he]
          exact stride_afterError hs hnow ha he
    | pausing t =>
      have hnow : t ≤ now := by simpa [wake, hs] using hwait
      exact .ask hs hnow

theorem step_of_asked {w : Awaited LookupAnswer} (hs : v.stage = .asked w) (hnow : w.ends ≤ now) :
    v.step now draws catalog = (catalog, v.afterLookup now (draws v.attempt) w.answer?) := by
  have hdue : ¬ now < v.wake := by
    rw [wake, hs]
    exact Nat.not_lt_of_le hnow
  rw [step, if_neg hdue, hs]

theorem step_of_error {w : Awaited LookupAnswer} {a : LookupAnswer} {e : LookupError}
    (hs : v.stage = .asked w) (hnow : w.ends ≤ now) (ha : w.answer? = some a)
    (he : v.stock a = .error e) :
    v.step now draws catalog = (catalog, v.afterError now (draws v.attempt) e) := by
  rw [step_of_asked hs hnow, ha]
  simp only [afterLookup, Option.map_some, he]

theorem Stride.step_eq {catalog' : Catalog} {a : ValidationAdvance}
    (h : v.Stride now draws catalog catalog' a) :
    (v.step now draws catalog).1 = catalog' ∧ (v.step now draws catalog).2.2 = a := by
  cases h with
  | wait hnow =>
    rw [step, if_pos hnow]
    exact ⟨rfl, rfl⟩
  | timeOut hs hnow ha =>
    rw [step_of_asked hs hnow, ha]
    exact ⟨rfl, rfl⟩
  | check hs hnow ha hn =>
    rw [step_of_asked hs hnow, ha]
    simp only [afterLookup, Option.map_some, hn]
    exact ⟨trivial, trivial⟩
  | fail hs hnow ha he hd =>
    rw [step_of_error hs hnow ha he]
    refine ⟨rfl, ?_⟩
    simp only [afterError]
    split <;> simp_all [next]
  | pause hs hnow ha he hd hle =>
    rw [step_of_error hs hnow ha he]
    refine ⟨rfl, ?_⟩
    simp only [afterError]
    split <;> simp_all [next]
  | overflow hs hnow ha he hd =>
    rw [step_of_error hs hnow ha he]
    refine ⟨rfl, ?_⟩
    simp only [afterError]
    split <;> simp_all [next]
  | ask hs hnow =>
    have hdue : ¬ now < v.wake := by
      rw [wake, hs]
      exact Nat.not_lt_of_le hnow
    rw [step, if_neg hdue, hs]
    exact ⟨rfl, rfl⟩

theorem Stride.le_wake {catalog' : Catalog} {v' : Validation}
    (h : v.Stride now draws catalog catalog' (.moved v')) : now ≤ v'.wake := by
  cases h with
  | pause => exact Nat.le_add_right _ _
  | ask => exact Awaited.le_ends_start _ _ _

end Validation

/-- The stage of a validation with this deadline, after these lookups. -/
inductive LookupStage.After (deadline : Nat) (ls : List LookupMade) : LookupStage → Prop
  | asked {l : LookupMade} (hl : ls.getLast? = some l) (ht : l.time ≤ deadline) :
      After deadline ls (.asked (.start l.time l.reply deadline))
  | pausing {wake : Nat} (ht : wake ≤ deadline) : After deadline ls (.pausing wake)

/-- The finding is what a validation's last lookup shows. -/
inductive Finding.Shows (l : LookupMade) (product : String) (deadline : Nat) : Finding → Prop
  | checked {q : UInt32} {duration attempts : Nat} (hq : l.InStock product deadline q) :
      Shows l product deadline (.checked q duration attempts)
  | failed {kind : ErrorKind} {duration attempts : Nat}
      (hq : ∀ q, ¬ l.InStock product deadline q) :
      Shows l product deadline (.failed kind duration attempts)

namespace Validation

variable {x x' : Validation} {now : Nat} {draws : Nat → Nat} {catalog catalog' : Catalog}
  {ls : List LookupMade} {f : Finding}

theorem not_inStock_of_error {l : LookupMade} {a : LookupAnswer} {e : LookupError}
    (ht : l.time ≤ x.deadline.time)
    (ha : (Awaited.start l.time l.reply x.deadline.time).answer? = some a)
    (he : x.stock a = .error e) (q : UInt32) :
    ¬ l.InStock x.request.product x.deadline.time q := by
  rw [LookupMade.inStock_iff ht]
  rintro ⟨b, hb, hq⟩
  obtain rfl := Option.some.inj (ha.symm.trans hb)
  exact absurd (he.symm.trans hq) nofun

theorem Stride.shows (h : x.Stride now draws catalog catalog' (.finished f))
    (hx : x.stage.After x.deadline.time ls) :
    catalog' = catalog ∧
      ∃ l, ls.getLast? = some l ∧ f.Shows l x.request.product x.deadline.time := by
  generalize hs' : x.stage = stage at hx
  cases hx with
  | pausing ht =>
    cases h with
    | timeOut hs | check hs | fail hs => exact absurd (hs'.symm.trans hs) nofun
  | @asked l hl ht =>
    cases h with
    | timeOut hs hnow ha =>
      obtain rfl := LookupStage.asked.inj (hs'.symm.trans hs)
      refine ⟨rfl, l, hl, .failed fun q hq => ?_⟩
      obtain ⟨a, ha', -⟩ := (LookupMade.inStock_iff ht).mp hq
      exact absurd (ha.symm.trans ha') nofun
    | check hs hnow ha hn =>
      obtain rfl := LookupStage.asked.inj (hs'.symm.trans hs)
      exact ⟨rfl, l, hl, .checked ((LookupMade.inStock_iff ht).mpr ⟨_, ha, hn⟩)⟩
    | fail hs hnow ha he hd =>
      obtain rfl := LookupStage.asked.inj (hs'.symm.trans hs)
      exact ⟨rfl, l, hl, .failed (not_inStock_of_error ht ha he)⟩

theorem Stride.after (h : x.Stride now draws catalog catalog' (.moved x'))
    (hx : x.stage.After x.deadline.time ls) (hnow : now ≤ x.wake) :
    x'.request = x.request ∧ x'.deadline = x.deadline ∧
      (∀ l ∈ lookupsSince now catalog catalog', l.product = x.request.product) ∧
      x'.stage.After x.deadline.time (ls ++ lookupsSince now catalog catalog') := by
  cases h with
  | @pause _ _ _ delay hs _ _ _ hd =>
    -- A pause ends before the deadline, so the lookup that follows it begins in time.
    have hlt := RetryPlan.lt_of_next hd
    rw [Deadline.remaining] at hlt
    rw [lookupsSince_self]
    exact ⟨rfl, rfl, nofun, .pausing (by omega)⟩
  | @ask t hs _ =>
    rw [hs] at hx
    rw [wake, hs] at hnow
    cases hx with
    | pausing ht =>
      rw [lookupsSince_ask]
      refine ⟨rfl, rfl, fun l hl => by rw [List.mem_singleton.mp hl], ?_⟩
      exact .asked (l := ⟨now, _, _⟩) List.getLast?_concat (Nat.le_trans hnow ht)

end Validation

end StockGate
