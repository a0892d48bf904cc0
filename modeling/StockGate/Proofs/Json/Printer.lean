import StockGate.Json.Printer
import StockGate.Proofs.Json.Parser
import StockGate.Proofs.Text.Utf8

namespace StockGate.Json

open Text (Bytes)

def encode (cs : List Char) : Bytes :=
  cs.flatMap String.utf8EncodeChar

section

variable {c : Char} {cs ds : List Char} {b : UInt8} {bs rest : Bytes} {ps qs : List Piece}

theorem encode_append (cs ds : List Char) : encode (cs ++ ds) = encode cs ++ encode ds :=
  List.flatMap_append

theorem encode_cons (c : Char) (cs : List Char) :
    encode (c :: cs) = String.utf8EncodeChar c ++ encode cs :=
  List.flatMap_cons

theorem utf8_compact (v : Value) : Text.utf8 v.compact = encode v.print :=
  congrArg encode String.toList_ofList

theorem Quoting.append (h : Quoting ps bs) (hqs : Quoting qs rest) :
    Quoting (ps ++ qs) (bs ++ rest) := by
  induction h with
  | nil => exact hqs
  | cons hp _ ih =>
    rw [List.append_assoc]
    exact .cons hp ih

theorem Quoting.single {p : Piece} (hp : p.Spelled bs) : Quoting [p] bs := by
  have h : Quoting [p] (bs ++ []) := .cons hp .nil
  rwa [List.append_nil] at h

/-- Bytes that need no escape. -/
def Plain (bs : Bytes) : Prop :=
  ∀ b ∈ bs, ¬ b < 0x20 ∧ b ≠ 0x22 ∧ b ≠ 0x5C

theorem Plain.quoting (h : Plain bs) : Quoting (bs.map .byte) bs := by
  induction bs with
  | nil => exact .nil
  | cons b bs ih =>
    obtain ⟨hcontrol, hquote, hslash⟩ := h b List.mem_cons_self
    exact .cons (.raw hcontrol hquote hslash) (ih fun b hb => h b (List.mem_cons_of_mem _ hb))

theorem pieceBytes?_bytes (bs : Bytes) (ps : List Piece) :
    pieceBytes? (bs.map .byte ++ ps) = (pieceBytes? ps).map (bs ++ ·) := by
  induction bs with
  | nil => simp
  | cons b bs ih =>
    rw [List.map_cons, List.cons_append, pieceBytes?, ih, Option.map_map]
    rfl

theorem plain_utf8EncodeChar (hcontrol : ¬ c.toNat < 0x20) (hquote : c ≠ '"') (hslash : c ≠ '\\') :
    Plain (String.utf8EncodeChar c) := by
  intro b hb
  have hne {d : Char} (hd : c ≠ d) : c.toNat ≠ d.toNat := fun h => hd (Char.toNat_inj.mp h)
  have hq : c.toNat ≠ 0x22 := hne hquote
  have hs : c.toNat ≠ 0x5C := hne hslash
  have hbyte := Text.utf8EncodeChar_bytes c b hb
  simp only [UInt8.lt_iff_toNat_lt, ne_eq, ← UInt8.toNat_inj]
  change ¬ b.toNat < 0x20 ∧ b.toNat ≠ 0x22 ∧ b.toNat ≠ 0x5C
  omega

/-- These pieces are written so, and stand for these bytes. -/
def Quotes (ps : List Piece) (written meant : Bytes) : Prop :=
  Quoting ps written ∧ ∀ qs, pieceBytes? (ps ++ qs) = (pieceBytes? qs).map (meant ++ ·)

theorem Quotes.append {us vs meant more : Bytes} (h : Quotes ps us meant)
    (hqs : Quotes qs vs more) : Quotes (ps ++ qs) (us ++ vs) (meant ++ more) := by
  refine ⟨h.1.append hqs.1, fun rs => ?_⟩
  rw [List.append_assoc, h.2, hqs.2, Option.map_map]
  exact congrArg (Option.map · _) (funext fun ds => (List.append_assoc meant more ds).symm)

theorem quotes_letter {e b : UInt8} (h : escaped? e = some b) : Quotes [.byte b] [0x5C, e] [b] :=
  ⟨.single (.letter h), fun _ => rfl⟩

theorem hexUnit?_control : ∀ n < 0x20, ∃ a b c d : UInt8,
    encode ['\\', 'u', '0', '0', Text.hexDigit (n / 16), Text.hexDigit (n % 16)] =
      [0x5C, 0x75, a, b, c, d] ∧ hexUnit? [a, b, c, d] = some (n, []) := by
  have hdigits : ∀ n < 0x20,
      let high := UInt8.ofNat (Text.hexDigit (n / 16)).toNat
      let low := UInt8.ofNat (Text.hexDigit (n % 16)).toNat
      encode ['\\', 'u', '0', '0', Text.hexDigit (n / 16), Text.hexDigit (n % 16)] =
        [0x5C, 0x75, 0x30, 0x30, high, low] ∧
        hexUnit? [0x30, 0x30, high, low] = some (n, []) := by decide
  intro n hn
  exact ⟨0x30, 0x30, _, _, hdigits n hn⟩

theorem quotes_control (h : c.toNat < 0x20) :
    Quotes [.unit c.toNat]
      (encode ['\\', 'u', '0', '0', Text.hexDigit (c.toNat / 16), Text.hexDigit (c.toNat % 16)])
      (String.utf8EncodeChar c) := by
  obtain ⟨a, b, d, e, hwritten, hunit⟩ := hexUnit?_control c.toNat h
  have hhigh : isHighSurrogate c.toNat = false := by
    simp only [isHighSurrogate, Bool.and_eq_false_iff, decide_eq_false_iff_not]
    omega
  have hlow : isLowSurrogate c.toNat = false := by
    simp only [isLowSurrogate, Bool.and_eq_false_iff, decide_eq_false_iff_not]
    omega
  refine ⟨hwritten ▸ .single (.unit hunit), fun qs => ?_⟩
  rw [List.singleton_append, pieceBytes?.eq_def]
  simp only [hhigh, hlow, Bool.false_eq_true, if_false, Char.ofNat_toNat]

theorem quotes_plain (h : Plain bs) : Quotes (bs.map .byte) bs bs :=
  ⟨h.quoting, pieceBytes?_bytes bs⟩

theorem encode_singleton (c : Char) : encode [c] = String.utf8EncodeChar c := by
  rw [encode, List.flatMap_singleton]

theorem quotes_escape (c : Char) :
    ∃ ps, Quotes ps (encode (escape c)) (String.utf8EncodeChar c) := by
  unfold escape
  split_ifs with hquote hslash hn hr ht hb hf hcontrol
  · subst hquote
    exact ⟨_, quotes_letter (e := 0x22) (b := 0x22) rfl⟩
  · subst hslash
    exact ⟨_, quotes_letter (e := 0x5C) (b := 0x5C) rfl⟩
  · subst hn
    exact ⟨_, quotes_letter (e := 0x6E) (b := 0x0A) rfl⟩
  · subst hr
    exact ⟨_, quotes_letter (e := 0x72) (b := 0x0D) rfl⟩
  · subst ht
    exact ⟨_, quotes_letter (e := 0x74) (b := 0x09) rfl⟩
  · subst hb
    exact ⟨_, quotes_letter (e := 0x62) (b := 0x08) rfl⟩
  · subst hf
    exact ⟨_, quotes_letter (e := 0x66) (b := 0x0C) rfl⟩
  · exact ⟨_, quotes_control hcontrol⟩
  · rw [encode_singleton]
    exact ⟨_, quotes_plain (plain_utf8EncodeChar hcontrol hquote hslash)⟩

theorem quotes_text (cs : List Char) :
    ∃ ps, Quotes ps (encode (cs.flatMap escape)) (encode cs) := by
  induction cs with
  | nil => exact ⟨[], .nil, fun qs => Option.map_id'.symm⟩
  | cons c cs ih =>
    obtain ⟨ps, hps⟩ := quotes_escape c
    obtain ⟨qs, hqs⟩ := ih
    rw [List.flatMap_cons, encode_append, encode_cons]
    exact ⟨ps ++ qs, hps.append hqs⟩

theorem readPieces_of_quotes {s : String} (h : Quotes ps bs (Text.utf8 s)) :
    readPieces ps = some s := by
  have hbytes := h.2 []
  rw [List.append_nil, pieceBytes?, Option.map_some, List.append_nil] at hbytes
  rw [readPieces, hbytes, Option.bind_some, Text.ofUtf8?_utf8]

theorem spelled_printQuoted (q : Quoted) : Token.Spelled (.quoted q) (encode (printQuoted q)) := by
  cases q with
  | none =>
    -- A high surrogate with nothing after it spells no text.
    exact .quoted (.single (.unit (a := 0x64) (b := 0x38) (c := 0x30) (d := 0x30) rfl))
  | some s =>
    obtain ⟨ps, hps⟩ := quotes_text s.toList
    have hread : readPieces ps = some s := readPieces_of_quotes hps
    have hspelled := Token.Spelled.quoted hps.1
    rw [hread] at hspelled
    rw [printQuoted, quote, List.cons_append, encode_cons, encode_append]
    exact hspelled

def digitByte (d : Fin 10) : UInt8 :=
  UInt8.ofNat (0x30 + d.val)

theorem isDigit_digitByte : ∀ d, isDigit (digitByte d) = true := by
  decide

theorem digitOf_digitByte : ∀ d, digitOf (digitByte d) = d := by
  decide

theorem digitByte_ne_zero : ∀ d : Fin 10, d.val ≠ 0 → digitByte d ≠ 0x30 := by
  decide

theorem encode_digitChar : ∀ d : Fin 10, String.utf8EncodeChar (digitChar d) = [digitByte d] := by
  decide

theorem natOf_append_digit (bs : Bytes) (d : Fin 10) :
    natOf (bs ++ [digitByte d]) = natOf bs * 10 + d.val := by
  rw [natOf, List.foldl_append, List.foldl_cons, List.foldl_nil, digitOf_digitByte]
  rfl

theorem Digits.append (hbs : Digits bs) (hrest : Digits rest) : Digits (bs ++ rest) :=
  fun b hb => (List.mem_append.mp hb).elim (hbs b) (hrest b)

theorem digits_map (ds : List (Fin 10)) : Digits (ds.map digitByte) := by
  intro b hb
  obtain ⟨d, -, rfl⟩ := List.mem_map.mp hb
  exact isDigit_digitByte d

theorem map_digitOf (ds : List (Fin 10)) : (ds.map digitByte).map digitOf = ds := by
  rw [List.map_map, show digitOf ∘ digitByte = id from funext digitOf_digitByte, List.map_id]

theorem encode_digits (ds : List (Fin 10)) : encode (ds.map digitChar) = ds.map digitByte := by
  induction ds with
  | nil => rfl
  | cons d ds ih => rw [List.map_cons, encode_cons, encode_digitChar, ih]; rfl

namespace Number

variable {w : Nat}

theorem whole_digit (d : Fin 10) : Whole d.val [digitByte d] := by
  by_cases hzero : d.val = 0
  · obtain rfl : d = 0 := Fin.ext hzero
    exact .zero
  · have hvalue : natOf [digitByte d] = d.val := by
      rw [natOf, List.foldl_cons, List.foldl_nil, digitOf_digitByte, Nat.zero_mul, Nat.zero_add]
    exact hvalue ▸ .digits (isDigit_digitByte d) (digitByte_ne_zero d hzero) (digits_map [])

theorem Whole.snoc (h : Whole w bs) (hw : 0 < w) (d : Fin 10) :
    Whole (w * 10 + d.val) (bs ++ [digitByte d]) := by
  cases h with
  | zero => exact absurd hw (Nat.lt_irrefl 0)
  | digits hb hzero hbs =>
    rw [← natOf_append_digit]
    exact .digits hb hzero (hbs.append (digits_map [d]))

theorem Whole.digits_natOf (h : Whole w bs) : bs ≠ [] ∧ Digits bs ∧ natOf bs = w := by
  cases h with
  | zero => exact ⟨List.cons_ne_nil _ _, digits_map [0], rfl⟩
  | digits hb _ hbs => exact ⟨List.cons_ne_nil _ _, List.forall_mem_cons.mpr ⟨hb, hbs⟩, rfl⟩

theorem encode_decimal (d : Fin 10) : encode [Nat.digitChar d.val] = [digitByte d] := by
  decide +revert

theorem whole_toDigits (n : Nat) : Whole n (encode (Nat.toDigits 10 n)) := by
  -- The last digit stands behind the numeral of the number without it.
  induction n using Nat.strongRecOn with
  | ind n ih =>
    by_cases h : n < 10
    · rw [Nat.toDigits_of_lt_base h, encode_decimal ⟨n, h⟩]
      exact whole_digit ⟨n, h⟩
    · have hmod : n % 10 < 10 := Nat.mod_lt n (by decide)
      have hstep := (ih (n / 10) (by omega)).snoc (by omega) ⟨n % 10, hmod⟩
      rw [Nat.div_add_mod'] at hstep
      rw [Nat.toDigits_of_base_le (by decide) (by omega), encode_append,
        encode_decimal ⟨n % 10, hmod⟩]
      exact hstep

theorem whole_toString (n : Nat) : Whole n (encode (toString n).toList) := by
  rw [Nat.toString_eq_ofList_toDigits, String.toList_ofList]
  exact whole_toDigits n

theorem fraction_print (ds : List (Fin 10)) : Fraction ds (encode (printFraction ds)) := by
  cases ds with
  | nil => exact .none
  | cons d ds =>
    have hdigits : Fraction _ _ :=
      .digits (List.cons_ne_nil _ (ds.map digitByte)) (digits_map (d :: ds))
    rw [← List.map_cons, map_digitOf] at hdigits
    change Fraction (d :: ds) (0x2E :: encode ((d :: ds).map digitChar))
    rw [encode_digits]
    exact hdigits

theorem exponent_print (e : Option Int) : Exponent e (encode (printExponent e)) := by
  cases e with
  | none => exact .none
  | some e =>
    obtain ⟨hne, hdigits, hvalue⟩ := (whole_toString e.natAbs).digits_natOf
    by_cases hneg : e < 0
    · have hexponent : Exponent _ _ := .minus (Or.inl rfl) hne hdigits
      rw [hvalue, show -(e.natAbs : Int) = e by omega] at hexponent
      rw [printExponent, if_pos hneg]
      exact hexponent
    · have hexponent : Exponent _ _ := .bare (Or.inl rfl) hne hdigits
      rw [hvalue, show (e.natAbs : Int) = e by omega] at hexponent
      rw [printExponent, if_neg hneg]
      exact hexponent

theorem spelled_print (n : Number) : n.Spelled (encode n.print) := by
  have h : Spelled ⟨n.negative, n.whole, n.fraction, n.exponent⟩ _ :=
    .mk n.negative (whole_toString n.whole) (fraction_print n.fraction) (exponent_print n.exponent)
  have hsign : encode (if n.negative then ['-'] else []) = sign n.negative := by
    cases n.negative <;> rfl
  rw [print, encode_append, encode_append, encode_append, hsign, List.append_assoc,
    List.append_assoc]
  exact h

end Number

variable {t : Token} {ts : List Token}

theorem Spells.front (ht : t.Spelled bs) (hstop : (∃ n, t = .scalar (.number n)) → Stops rest)
    (h : Spells ts rest) : Spells (t :: ts) (bs ++ rest) :=
  show Spells (t :: ts) ([] ++ (bs ++ rest)) from .cons (List.forall_mem_nil _) ht hstop h

theorem Spells.mark (ht : t.Spelled [b]) (hnumber : ∀ n, t ≠ .scalar (.number n))
    (h : Spells ts rest) : Spells (t :: ts) (b :: rest) :=
  h.front ht fun ⟨n, hn⟩ => absurd hn (hnumber n)

theorem stops_mark (hb : b = 0x2C ∨ b = 0x5D ∨ b = 0x7D) (rest : Bytes) : Stops (b :: rest) := by
  intro d hd
  obtain rfl := Option.some.inj hd
  rcases hb with rfl | rfl | rfl <;> decide

theorem printItems_cons_cons (v w : Value) (ws : List Value) :
    Value.printItems (v :: w :: ws) = v.print ++ ',' :: Value.printItems (w :: ws) :=
  Value.printItems.eq_3 v (w :: ws) (List.cons_ne_nil w ws)

theorem printMembers_cons_cons (k : Quoted) (v : Value) (m : Quoted × Value)
    (ms : List (Quoted × Value)) :
    Value.printMembers ((k, v) :: m :: ms) =
      printQuoted k ++ ':' :: v.print ++ ',' :: Value.printMembers (m :: ms) :=
  Value.printMembers.eq_3 k v (m :: ms) (List.cons_ne_nil m ms)

theorem Spells.member (k : Quoted) (h : Spells ts rest) :
    Spells (.quoted k :: .colon :: ts) (encode (printQuoted k) ++ 0x3A :: rest) :=
  (h.mark .colon nofun).front (spelled_printQuoted k) nofun

end

mutual

theorem Value.spells_print : ∀ (v : Value) {ts : List Token} {rest : Bytes}, Spells ts rest →
    Stops rest → Spells (v.tokens ++ ts) (encode v.print ++ rest)
  | .null, _, _, h, _ => h.front .null nofun
  | .bool true, _, _, h, _ => h.front .yes nofun
  | .bool false, _, _, h, _ => h.front .no nofun
  | .number n, _, _, h, hstop => h.front (.number n.spelled_print) fun _ => hstop
  | .string s, _, _, h, _ => h.front (spelled_printQuoted s) nofun
  | .array items, ts, rest, h, _ => by
    -- What stops a numeral before the closing bracket is the bracket, not what follows it.
    have hclose : Spells (.closeBracket :: ts) (0x5D :: rest) := h.mark .closeBracket nofun
    have hitems := spells_printItems items hclose (stops_mark (by decide) rest)
    rw [Value.tokens, Value.print, List.cons_append, List.cons_append, List.append_assoc,
      encode_cons, encode_append, List.append_assoc, List.append_assoc]
    exact hitems.mark .openBracket nofun
  | .object members, ts, rest, h, _ => by
    have hclose : Spells (.closeBrace :: ts) (0x7D :: rest) := h.mark .closeBrace nofun
    have hmembers := spells_printMembers members hclose (stops_mark (by decide) rest)
    rw [Value.tokens, Value.print, List.cons_append, List.cons_append, List.append_assoc,
      encode_cons, encode_append, List.append_assoc, List.append_assoc]
    exact hmembers.mark .openBrace nofun

theorem spells_printItems : ∀ (vs : List Value) {ts : List Token} {rest : Bytes}, Spells ts rest →
    Stops rest → Spells (itemTokens vs ++ ts) (encode (Value.printItems vs) ++ rest)
  | [], _, _, h, _ => h
  | [v], _, _, h, hstop => v.spells_print h hstop
  | v :: w :: ws, ts, rest, h, hstop => by
    have hrest := spells_printItems (w :: ws) h hstop
    have hcomma := hrest.mark .comma nofun
    rw [itemTokens_cons_cons, printItems_cons_cons, encode_append, encode_cons, List.append_assoc,
      List.append_assoc, List.append_assoc]
    exact v.spells_print hcomma (stops_mark (by decide) _)

theorem spells_printMembers : ∀ (ms : List (Quoted × Value)) {ts : List Token} {rest : Bytes},
    Spells ts rest → Stops rest →
      Spells (memberTokens ms ++ ts) (encode (Value.printMembers ms) ++ rest)
  | [], _, _, h, _ => h
  | [(k, v)], ts, rest, h, hstop => by
    have hvalue := v.spells_print h hstop
    rw [memberTokens, Value.printMembers, encode_append, encode_cons, List.append_assoc,
      List.append_assoc]
    exact hvalue.member k
  | (k, v) :: m :: ms, ts, rest, h, hstop => by
    have hrest := spells_printMembers (m :: ms) h hstop
    have hvalue := v.spells_print (hrest.mark .comma nofun) (stops_mark (by decide) _)
    rw [memberTokens_cons_cons, printMembers_cons_cons, encode_append, encode_append, encode_cons,
      encode_cons, List.cons_append, List.cons_append]
    simp only [List.append_assoc]
    exact hvalue.member k

end

/-- What is printed is a text of the value. -/
theorem writes_compact (v : Value) : Writes v (Text.utf8 v.compact) := by
  have hend : Spells [] [] := .nil (List.forall_mem_nil _)
  have hprint := v.spells_print hend (by rintro b ⟨⟩)
  rw [List.append_nil, List.append_nil] at hprint
  rw [utf8_compact]
  exact hprint

/-- What is printed is read back, whatever it nests and whatever texts and numerals it has. -/
theorem parse?_compact (v : Value) : parse? (Text.utf8 v.compact) = some v :=
  parse?_of_writes (writes_compact v)

end StockGate.Json
