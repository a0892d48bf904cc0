import Mathlib.Data.List.Nodup
import StockGate.Document.Shape

namespace StockGate.Document

open Json (Quoted)

variable {α β : Type} {names : List String} {members : List (Quoted × α)} {l r : Fields α}
  {name : String} {v : α}

def named (m : String × α) : Quoted × α :=
  (some m.1, m.2)

theorem named_injective : Function.Injective (named (α := α)) := by
  rintro ⟨a, u⟩ ⟨b, w⟩ h
  cases h
  rfl

def known (names : List String) (l : Fields α) : Fields α :=
  l.filter fun m => names.contains m.1

theorem mapM_named_eq_some_iff :
    members.mapM (fun m => m.1.map (·, m.2)) = some l ↔ members = l.map named := by
  induction members generalizing l with
  | nil => cases l <;> simp
  | cons m members ih =>
    obtain ⟨k, v⟩ := m
    rw [List.mapM_cons]
    simp only [Option.bind_eq_bind, Option.bind_eq_some_iff, Option.map_eq_some_iff, ih,
      Option.pure_def, Option.some.injEq]
    constructor
    · rintro ⟨-, ⟨k, rfl, rfl⟩, l, rfl, rfl⟩
      rfl
    · intro h
      obtain ⟨m, l, rfl, hm, hl⟩ := List.map_eq_cons_iff.mp h.symm
      obtain ⟨rfl, rfl⟩ := Prod.mk.inj hm
      exact ⟨m, ⟨m.1, rfl, rfl⟩, l, hl.symm, rfl⟩

theorem lookup_of_mem (hnodup : (l.map Prod.fst).Nodup) (h : (name, v) ∈ l) :
    l.lookup name = some v := by
  obtain ⟨before, after, rfl⟩ := List.append_of_mem h
  rw [List.map_append, List.map_cons, List.nodup_append] at hnodup
  apply List.lookup_eq_some_iff.mpr
  refine ⟨before, after, rfl, fun m hm => ?_⟩
  have hne := hnodup.2.2 m.1 (List.mem_map_of_mem hm) name List.mem_cons_self
  simpa using hne.symm

theorem lookup_eq_none (h : name ∉ l.map Prod.fst) : l.lookup name = none := by
  apply List.lookup_eq_none_iff.mpr
  intro m hm
  have hne : m.1 ≠ name := fun heq => h (heq ▸ List.mem_map_of_mem hm)
  simpa using hne.symm

theorem required_of_lookup (h : List.lookup name r = some v) (read : α → Option β) :
    r.required name read = read v := by
  rw [Fields.required, h, Option.bind_some]

theorem withDefault_of_lookup (h : List.lookup name r = some v) (read : α → Option β)
    (absent : β) : r.withDefault name read absent = read v := by
  rw [Fields.withDefault, h]

theorem withDefault_of_not_mem (h : name ∉ r.map Prod.fst) (read : α → Option β) (absent : β) :
    r.withDefault name read absent = some absent := by
  rw [Fields.withDefault, lookup_eq_none h]

theorem withDefault_cons (m : String × α) (read : α → Option β) (absent : β) :
    Fields.withDefault (m :: r) name read absent =
      if name = m.1 then read m.2 else r.withDefault name read absent := by
  obtain ⟨k, v⟩ := m
  by_cases h : name = k
  · rw [if_pos h, Fields.withDefault, h, List.lookup_cons_self]
  · have hne : (name == k) = false := beq_eq_false_iff_ne.mpr h
    rw [if_neg h, Fields.withDefault, List.lookup_cons, hne]
    rfl

section

variable [Document α]

/-- What a table must be like to be read as a record, and which of its members are read. -/
theorem fields?_table_eq_some_iff (hv : shape v = .table members) :
    fields? names v = some r ↔
      ∃ l : Fields α, members = l.map named ∧ known names l = r ∧ (r.map Prod.fst).Nodup := by
  have hfields : fields? names v =
      (members.mapM fun m : Quoted × α => m.1.map (·, m.2)).bind fun l =>
        if distinctNames (known names l) then some (known names l) else none := by
    rw [fields?, hv]
    rfl
  rw [hfields]
  simp only [Option.bind_eq_some_iff, mapM_named_eq_some_iff, Option.ite_none_right_eq_some,
    Option.some.injEq, distinctNames, decide_eq_true_eq]
  constructor
  · rintro ⟨l, hl, hnodup, rfl⟩
    exact ⟨l, hl, rfl, hnodup⟩
  · rintro ⟨l, hl, rfl, hnodup⟩
    exact ⟨l, hl, hnodup, rfl⟩

theorem fields?_of_known (hv : shape v = .table (r.map named)) (hnames : ∀ m ∈ r, m.1 ∈ names)
    (hnodup : (r.map Prod.fst).Nodup) : fields? names v = some r := by
  have hknown : known names r = r :=
    List.filter_eq_self.mpr fun m hm => List.contains_iff_mem.mpr (hnames m hm)
  exact (fields?_table_eq_some_iff hv).mpr ⟨r, rfl, hknown, hnodup⟩

theorem within?_of_whole {n low high : Int} (hv : whole? v = some n) (hlow : low ≤ n)
    (hhigh : n < high) : within? low high v = some n := by
  rw [within?, hv, Option.filter_some, if_pos (by simp [hlow, hhigh])]

variable {n : Nat}

theorem within?_of_nat (hv : whole? v = some (n : Int)) (size : Nat) :
    within? 0 size v = if n < size then some (n : Int) else none := by
  by_cases h : n < size
  · rw [if_pos h, within?_of_whole hv (Int.natCast_nonneg n) (by omega)]
  · rw [if_neg h, within?, hv, Option.filter_some, if_neg]
    rw [decide_eq_true_eq]
    omega

theorem word32?_of_nat (hv : whole? v = some (n : Int)) :
    word32? v = if n < UInt32.size then some (UInt32.ofNat n) else none := by
  rw [word32?, within?_of_nat hv, apply_ite (Option.map _)]
  rfl

theorem word64?_of_nat (hv : whole? v = some (n : Int)) :
    word64? v = if n < UInt64.size then some (UInt64.ofNat n) else none := by
  rw [word64?, within?_of_nat hv, apply_ite (Option.map _)]
  rfl

end

end StockGate.Document
