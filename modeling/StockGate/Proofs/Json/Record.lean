import Mathlib.Data.List.Count
import Mathlib.Data.List.Forall2
import StockGate.Json.Document
import StockGate.Proofs.Document.Record

namespace StockGate.Json

open Document

/-- Members in any order, with members of other names anywhere between them. -/
def Among (names : List String) (own l : List (String × Value)) : Prop :=
  ∃ extra, (∀ m ∈ extra, m.1 ∉ names) ∧ l.Perm (own ++ extra)

/-- An object with its members among others, their values changed as `inner` says. -/
def Rearranges (names : List String) (inner : String → Value → Value → Prop) (v w : Value) :
    Prop :=
  ∃ base own l : List (String × Value), v = .record base ∧ w = .record l ∧
    List.Forall₂ (fun m m' => m.1 = m'.1 ∧ inner m.1 m.2 m'.2) base own ∧ Among names own l

/-- A member of one of these names stands in the object more than once. -/
def Repeats (names : List String) (v : Value) : Prop :=
  ∃ members name, v = .object members ∧ name ∈ names ∧
    2 ≤ (members.map Prod.fst).count (some name)

section

variable {names : List String} {inner : String → Value → Value → Prop} {v w : Value}
  {members : List (Quoted × Value)} {base own l r : List (String × Value)}

theorem record_injective (h : Value.record base = Value.record own) : base = own :=
  List.map_injective_iff.mpr named_injective (Value.object.inj h)

theorem lookup_of_mem_object {name : String} (hname : name ∈ names)
    (h : fields? names (Value.object members) = some r) (hm : (some name, v) ∈ members) :
    r.lookup name = some v := by
  obtain ⟨l, rfl, rfl, hnodup⟩ := (fields?_table_eq_some_iff rfl).mp h
  obtain ⟨m, hmem, hmember⟩ := List.mem_map.mp hm
  obtain ⟨hfst, rfl⟩ := Prod.mk.inj hmember
  obtain rfl := Option.some.inj hfst
  exact lookup_of_mem hnodup (List.mem_filter.mpr ⟨hmem, List.contains_iff_mem.mpr hname⟩)

theorem fields?_of_repeats (h : Repeats names v) : fields? names v = none := by
  obtain ⟨members, name, rfl, hname, hcount⟩ := h
  apply Option.eq_none_iff_forall_ne_some.mpr
  intro r hr
  obtain ⟨l, rfl, rfl, hnodup⟩ := (fields?_table_eq_some_iff rfl).mp hr
  -- The name stands as often among the known members as in the whole object.
  have hnames : (l.map named).map Prod.fst = (l.map Prod.fst).map some := by
    rw [List.map_map, List.map_map]
    rfl
  have hfilter : (known names l).map Prod.fst = (l.map Prod.fst).filter names.contains := by
    rw [List.filter_map]
    rfl
  rw [hnames, List.count_map_of_injective _ _ (fun _ _ => Option.some.inj)] at hcount
  rw [hfilter] at hnodup
  have hone := List.nodup_iff_count_le_one.mp hnodup name
  rw [List.count_filter (List.contains_iff_mem.mpr hname)] at hone
  omega

theorem among_self (names : List String) (own : List (String × Value)) : Among names own own :=
  ⟨[], fun _ hm => absurd hm List.not_mem_nil, by rw [List.append_nil]⟩

theorem known_perm (hown : own.map Prod.fst = names) (h : Among names own l) :
    (known names l).Perm own := by
  obtain ⟨extra, hextra, hl⟩ := h
  have hfilter := hl.filter fun m => names.contains m.1
  have hkept : own.filter (fun m => names.contains m.1) = own := by
    apply List.filter_eq_self.mpr
    intro m hm
    rw [List.contains_iff_mem, ← hown]
    exact List.mem_map_of_mem hm
  have hdropped : extra.filter (fun m => names.contains m.1) = [] := by
    apply List.filter_eq_nil_iff.mpr
    intro m hm
    rw [List.contains_iff_mem]
    exact hextra m hm
  rwa [List.filter_append, hkept, hdropped, List.append_nil] at hfilter

theorem forall₂_names (h : List.Forall₂ (fun m m' => m.1 = m'.1 ∧ inner m.1 m.2 m'.2) base own) :
    own.map Prod.fst = base.map Prod.fst := by
  induction h with
  | nil => rfl
  | cons hm _ ih => rw [List.map_cons, List.map_cons, ih, hm.1]

theorem forall₂_mem (h : List.Forall₂ (fun m m' => m.1 = m'.1 ∧ inner m.1 m.2 m'.2) base own) :
    ∀ m ∈ base, ∃ v', (m.1, v') ∈ own ∧ inner m.1 m.2 v' := by
  induction h with
  | nil => exact fun m hm => absurd hm List.not_mem_nil
  | @cons a b _ _ hab _ ih =>
    intro m hm
    rcases List.mem_cons.mp hm with rfl | hm
    · exact ⟨b.2, by rw [hab.1]; exact List.mem_cons_self, hab.2⟩
    · obtain ⟨v', hv', hinner⟩ := ih m hm
      exact ⟨v', List.mem_cons_of_mem _ hv', hinner⟩

/-- A rearranged object is still a record, and each of its members is found under its name. -/
theorem fields?_of_rearranges (h : Rearranges names inner (.record base) w)
    (hbase : base.map Prod.fst = names) (hnames : names.Nodup) :
    ∃ r : Fields Value, fields? names w = some r ∧
      ∀ m ∈ base, ∃ v', List.lookup m.1 r = some v' ∧ inner m.1 m.2 v' := by
  obtain ⟨base', own, l, heq, rfl, hown, hamong⟩ := h
  obtain rfl := record_injective heq
  have hsame : own.map Prod.fst = names := (forall₂_names hown).trans hbase
  -- The members that are read are the record's own in another order, so their names are distinct.
  have hknown := known_perm hsame hamong
  have hdistinct : ((known names l).map Prod.fst).Nodup := by
    rw [(hknown.map Prod.fst).nodup_iff, hsame]
    exact hnames
  refine ⟨_, (fields?_table_eq_some_iff rfl).mpr ⟨l, rfl, rfl, hdistinct⟩, fun m hm => ?_⟩
  obtain ⟨v', hv', hinner⟩ := forall₂_mem hown m hm
  exact ⟨v', lookup_of_mem hdistinct (hknown.mem_iff.mpr hv'), hinner⟩

end

end StockGate.Json
