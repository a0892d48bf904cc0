import StockGate.Catalog.Lookup
import StockGate.Proofs.Json.Printer
import StockGate.Proofs.Json.Record

namespace StockGate

open Document
open Json (Value Number Rearranges Writes)

section

variable {v : Value} {n low high : Int}

theorem whole?_int (n : Int) : whole? (Value.int n) = some n := by
  have hshape : shape (Value.int n) = .whole n := by
    change ((Number.ofInt n).int?.map Shape.whole).getD .other = _
    rw [Number.int?_ofInt]
    rfl
  rw [whole?, hshape]

theorem within?_int (hlow : low ≤ n) (hhigh : n < high) :
    within? low high (Value.int n) = some n :=
  within?_of_whole (whole?_int n) hlow hhigh

theorem Money.units?_int (u : Int64) : Money.units? (Value.int u.toInt) = some u := by
  rw [units?, within?_int u.minValue_le_toInt (Int.lt_add_one_of_le u.toInt_le), Option.map_some,
    Int64.ofInt_toInt]

theorem Money.nanos?_int (u : Int32) : Money.nanos? (Value.int u.toInt) = some u := by
  rw [nanos?, within?_int u.minValue_le_toInt (Int.lt_add_one_of_le u.toInt_le), Option.map_some,
    Int32.ofInt_toInt]

theorem word32?_nat (n : UInt32) : word32? (Value.nat n.toNat) = some n := by
  have hwhole : whole? (Value.nat n.toNat) = some (n.toNat : Int) := whole?_int n.toNat
  rw [word32?_of_nat hwhole, if_pos n.toNat_lt_size, UInt32.ofNat_toNat]

theorem listOf?_texts (texts : List String) :
    listOf? text? (Value.array (texts.map .text)) = some texts := by
  change (texts.map Value.text).mapM text? = some texts
  induction texts with
  | nil => rfl
  | cons s texts ih => rw [List.map_cons, List.mapM_cons, ih]; rfl

end

/-- The values of members stay as they are. -/
def Kept (_ : String) (v w : Value) : Prop :=
  w = v

theorem rearranges_self (names : List String) (base : List (String × Value)) :
    Rearranges names Kept (.record base) (.record base) :=
  ⟨base, base, base, rfl, rfl, List.forall₂_same.mpr fun _ _ => ⟨rfl, rfl⟩,
    Json.among_self names base⟩

section

variable {β : Type} {w : Value}

theorem maybe?_of_rearranges {names : List String} {read : Value → Option β}
    {toJson : β → Value} {o : Option β}
    (hread : ∀ b w, Rearranges names Kept (toJson b) w → read w = some b)
    (hself : ∀ b, Rearranges names Kept (toJson b) (toJson b))
    (h : w = Value.orNull toJson o ∨ Rearranges names Kept (Value.orNull toJson o) w) :
    maybe? read w = some o := by
  cases o with
  | none =>
    rcases h with rfl | ⟨base, _, _, hbase, _⟩
    · rfl
    · cases hbase
  | some b =>
    have hw : Rearranges names Kept (toJson b) w := by
      rcases h with rfl | h
      · exact hself b
      · exact h
    have hb := hread b w hw
    obtain ⟨_, _, l, _, rfl, _⟩ := hw
    change (read (Value.record l)).map some = _
    rw [hb, Option.map_some]

end

theorem Money.read?_of_rearranges (m : Money) (w : Value)
    (h : Rearranges fieldNames Kept m.toJson w) : read? w = some m := by
  obtain ⟨r, hr, hfound⟩ := Json.fields?_of_rearranges h rfl (by decide)
  simp only [List.forall_mem_cons] at hfound
  obtain ⟨⟨_, hcode, rfl⟩, ⟨_, hunits, rfl⟩, ⟨_, hnanos, rfl⟩, -⟩ := hfound
  rw [read?, hr, Option.bind_eq_bind, Option.bind_some, withDefault_of_lookup hcode,
    withDefault_of_lookup hunits, withDefault_of_lookup hnanos, units?_int, nanos?_int]
  rfl

theorem Money.read?_of_repeats {v : Value} (h : Json.Repeats fieldNames v) : read? v = none := by
  rw [read?, Json.fields?_of_repeats h]
  rfl

theorem StockLevel.read?_of_rearranges (level : StockLevel) (w : Value)
    (h : Rearranges fieldNames Kept level.toJson w) : read? w = some level := by
  obtain ⟨r, hr, hfound⟩ := Json.fields?_of_rearranges h rfl (by decide)
  simp only [List.forall_mem_cons] at hfound
  obtain ⟨⟨_, hversion, rfl⟩, ⟨_, havailable, rfl⟩, -⟩ := hfound
  rw [read?, hr, Option.bind_eq_bind, Option.bind_some, required_of_lookup hversion,
    required_of_lookup havailable, word32?_nat, word32?_nat]
  rfl

theorem StockLevel.read?_of_repeats {v : Value} (h : Json.Repeats fieldNames v) :
    read? v = none := by
  rw [read?, Json.fields?_of_repeats h]
  rfl

namespace Product

/-- The values of a product's members stay as they are, but the objects in it are rearranged. -/
def Nested (name : String) (v w : Value) : Prop :=
  Kept name v w ∨ name = "priceUsd" ∧ Rearranges Money.fieldNames Kept v w ∨
    name = "inventory" ∧ Rearranges StockLevel.fieldNames Kept v w

/-- What may be sent for a product. -/
def Wire (p : Product) (w : Value) : Prop :=
  Rearranges fieldNames Nested p.toJson w

/-- A member that stands twice, in the product's object or in one of the objects in it. -/
def Repeats (v : Value) : Prop :=
  Json.Repeats fieldNames v ∨ ∃ members inner, v = .object members ∧
    ((some "priceUsd", inner) ∈ members ∧ Json.Repeats Money.fieldNames inner ∨
      (some "inventory", inner) ∈ members ∧ Json.Repeats StockLevel.fieldNames inner)

section

variable {v w : Value} {bytes : Text.Bytes}

theorem Nested.kept {name : String} (h : Nested name v w) (hprice : name ≠ "priceUsd")
    (hstock : name ≠ "inventory") : w = v := by
  rcases h with h | ⟨hname, -⟩ | ⟨hname, -⟩
  · exact h
  · exact absurd hname hprice
  · exact absurd hname hstock

theorem Nested.price (h : Nested "priceUsd" v w) :
    w = v ∨ Rearranges Money.fieldNames Kept v w := by
  rcases h with h | ⟨-, h⟩ | ⟨hname, -⟩
  · exact Or.inl h
  · exact Or.inr h
  · exact absurd hname (by decide)

theorem Nested.stock (h : Nested "inventory" v w) :
    w = v ∨ Rearranges StockLevel.fieldNames Kept v w := by
  rcases h with h | ⟨hname, -⟩ | ⟨-, h⟩
  · exact Or.inl h
  · exact absurd hname (by decide)
  · exact Or.inr h

theorem read?_of_wire {p : Product} (h : p.Wire w) : read? w = some p := by
  obtain ⟨r, hr, hfound⟩ := Json.fields?_of_rearranges h rfl (by decide)
  simp only [List.forall_mem_cons] at hfound
  obtain ⟨⟨_, hid, hid'⟩, ⟨_, hname, hname'⟩, ⟨_, hdescription, hdescription'⟩,
    ⟨_, hpicture, hpicture'⟩, ⟨price, hprice, hprice'⟩, ⟨_, hcategories, hcategories'⟩,
    ⟨stock, hstock, hstock'⟩, -⟩ := hfound
  -- Five members come as they were written; the other two hold objects of their own.
  obtain rfl := hid'.kept (by decide) (by decide)
  obtain rfl := hname'.kept (by decide) (by decide)
  obtain rfl := hdescription'.kept (by decide) (by decide)
  obtain rfl := hpicture'.kept (by decide) (by decide)
  obtain rfl := hcategories'.kept (by decide) (by decide)
  have hmoney := maybe?_of_rearranges Money.read?_of_rearranges
    (fun _ => rearranges_self _ _) hprice'.price
  have hlevel := maybe?_of_rearranges StockLevel.read?_of_rearranges
    (fun _ => rearranges_self _ _) hstock'.stock
  rw [read?, hr, Option.bind_eq_bind, Option.bind_some, required_of_lookup hid,
    withDefault_of_lookup hname, withDefault_of_lookup hdescription,
    withDefault_of_lookup hpicture, withDefault_of_lookup hprice, hmoney,
    withDefault_of_lookup hcategories, listOf?_texts, withDefault_of_lookup hstock, hlevel]
  rfl

theorem wire_toJson (p : Product) : p.Wire p.toJson :=
  ⟨_, _, _, rfl, rfl, List.forall₂_same.mpr fun _ _ => ⟨rfl, Or.inl rfl⟩,
    Json.among_self fieldNames _⟩

theorem maybe?_of_repeats {β : Type} {names : List String} {read : Value → Option β}
    (hread : read v = none) (h : Json.Repeats names v) : maybe? read v = none := by
  obtain ⟨members, _, rfl, _⟩ := h
  change (read (Value.object members)).map some = none
  rw [hread, Option.map_none]

theorem read?_of_repeats (h : Repeats v) : read? v = none := by
  rcases h with h | ⟨members, inner, rfl, h⟩
  · rw [read?, Json.fields?_of_repeats h]
    rfl
  · -- The outer object may be no record either; if it is one, the inner object is what it holds.
    cases hr : fields? fieldNames (Value.object members) with
    | none =>
      rw [read?, hr]
      rfl
    | some r =>
      rw [read?, hr, Option.bind_eq_bind, Option.bind_some]
      rcases h with ⟨hmem, h⟩ | ⟨hmem, h⟩
      · rw [withDefault_of_lookup (Json.lookup_of_mem_object (by decide) hr hmem),
          maybe?_of_repeats (Money.read?_of_repeats h) h]
        simp
      · rw [withDefault_of_lookup (Json.lookup_of_mem_object (by decide) hr hmem),
          maybe?_of_repeats (StockLevel.read?_of_repeats h) h]
        simp

theorem decode?_of_wire {p : Product} (h : p.Wire w) (hbytes : Writes w bytes) :
    decode? bytes = some p := by
  rw [decode?, Json.parse?_of_writes hbytes, Option.bind_some, read?_of_wire h]

/-- A product is read from whatever is written for it, in any order of the members, with any
unknown members in between and in any spelling of the texts, numerals and blanks, so the stock
it says is there for anyone who asks. A repeated member is never let pass. -/
theorem wire_round_trip (p : Product) :
    decode? (Text.utf8 p.compact) = some p ∧
      (∀ w bytes, p.Wire w → Writes w bytes → decode? bytes = some p ∧
        ∀ asked, (decode? bytes).map (·.available asked) = some (p.available asked)) ∧
      ∀ v bytes, Repeats v → Writes v bytes → decode? bytes = none := by
  refine ⟨decode?_of_wire p.wire_toJson (Json.writes_compact p.toJson), fun w bytes h hbytes => ?_,
    fun v bytes h hbytes => ?_⟩
  · have hread := decode?_of_wire h hbytes
    refine ⟨hread, fun asked => ?_⟩
    rw [hread, Option.map_some]
  · rw [decode?, Json.parse?_of_writes hbytes, Option.bind_some, read?_of_repeats h]

/-- A lamp whose members come in reverse, each object with members that nobody knows. -/
theorem wire_round_trip_reversed :
    let money : List (String × Value) :=
      [("symbol", .text "€"), ("nanos", .int 5), ("units", .int (-3)),
        ("currencyCode", .text "EUR")]
    let level : List (String × Value) :=
      [("hints", .array [.null, .object [(none, .string none)]]), ("availableQuantity", .nat 12),
        ("schemaVersion", .nat 1)]
    let w : Value := .record
      [("seller", .record [("id", .text "other")]), ("inventory", .record level),
        ("categories", .array [.text "light"]), ("priceUsd", .record money),
        ("picture", .text ""), ("description", .text "\"bright\"\n"), ("name", .text ""),
        ("id", .text "lamp")]
    let twice : Value := .record [("id", .text "lamp"), ("id", .text "lamp")]
    decode? (Text.utf8 w.compact) = some {
      id := "lamp"
      description := "\"bright\"\n"
      price := some { currencyCode := "EUR", units := -3, nanos := 5 }
      categories := ["light"]
      stock := some { schemaVersion := 1, available := 12 } } ∧
    decode? (Text.utf8 twice.compact) = none := by
  intro money level w twice
  let p : Product := {
    id := "lamp"
    description := "\"bright\"\n"
    price := some { currencyCode := "EUR", units := -3, nanos := 5 }
    categories := ["light"]
    stock := some { schemaVersion := 1, available := 12 } }
  let own : List (String × Value) :=
    [("id", .text "lamp"), ("name", .text ""), ("description", .text "\"bright\"\n"),
      ("picture", .text ""), ("priceUsd", .record money), ("categories", .array [.text "light"]),
      ("inventory", .record level)]
  have hmoney : Rearranges Money.fieldNames Kept (Money.toJson ⟨"EUR", -3, 5⟩) (.record money) :=
    ⟨_, _, money, rfl, rfl, List.forall₂_same.mpr fun _ _ => ⟨rfl, rfl⟩,
      [("symbol", .text "€")], by simp [Money.fieldNames], (List.reverse_perm money).symm⟩
  have hlevel : Rearranges StockLevel.fieldNames Kept (StockLevel.toJson ⟨1, 12⟩)
      (.record level) :=
    ⟨_, _, level, rfl, rfl, List.forall₂_same.mpr fun _ _ => ⟨rfl, rfl⟩,
      [("hints", .array [.null, .object [(none, .string none)]])],
      by simp [StockLevel.fieldNames], (List.reverse_perm level).symm⟩
  have hwire : p.Wire w := by
    refine ⟨_, own, _, rfl, rfl, ?_, [("seller", .record [("id", .text "other")])],
      by simp [fieldNames], (List.reverse_perm _).symm⟩
    exact .cons ⟨rfl, Or.inl rfl⟩ <| .cons ⟨rfl, Or.inl rfl⟩ <| .cons ⟨rfl, Or.inl rfl⟩ <|
      .cons ⟨rfl, Or.inl rfl⟩ <| .cons ⟨rfl, Or.inr (Or.inl ⟨rfl, hmoney⟩)⟩ <|
      .cons ⟨rfl, Or.inl rfl⟩ <| .cons ⟨rfl, Or.inr (Or.inr ⟨rfl, hlevel⟩)⟩ .nil
  have hrepeats : Repeats twice := Or.inl ⟨_, "id", rfl, by decide, by decide⟩
  obtain ⟨-, hread, hnone⟩ := wire_round_trip p
  exact ⟨(hread w _ hwire (Json.writes_compact w)).1,
    hnone twice _ hrepeats (Json.writes_compact twice)⟩

end

end Product

end StockGate
