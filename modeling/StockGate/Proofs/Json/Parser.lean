import StockGate.Json.Parser
import StockGate.Proofs.Json.Scanner

namespace StockGate.Json

open Text (Bytes)

namespace State

def run (s : State) (ts : List Token) : Option State :=
  ts.foldlM step s

variable {s s' : State} {t : Token} {ts us : List Token} {outer : List Frame}

theorem run_cons (s' : State) (h : s.step t = some s') (ts : List Token) :
    s.run (t :: ts) = s'.run ts := by
  rw [run, List.foldlM_cons, h]
  rfl

theorem run_member (acc : List (Quoted × Value)) (fresh : Bool) (k : Quoted) (ts : List Token) :
    (name acc fresh outer).run (.quoted k :: .colon :: ts) =
      (value (.object acc k :: outer)).run ts := by
  cases fresh <;> rfl

theorem run_append (h : s.run ts = some s') (us : List Token) : s.run (ts ++ us) = s'.run us := by
  rw [run, List.foldlM_append]
  rw [run] at h
  rw [h]
  rfl

theorem run_opened (v : Value) (us : List Token) (outer : List Frame) :
    (opened outer).run (v.tokens ++ us) = (value (.array [] :: outer)).run (v.tokens ++ us) := by
  -- No value starts with a closing bracket.
  cases v <;> rfl

end State

theorem itemTokens_cons_cons (v w : Value) (ws : List Value) :
    itemTokens (v :: w :: ws) = v.tokens ++ .comma :: itemTokens (w :: ws) :=
  itemTokens.eq_3 v (w :: ws) (List.cons_ne_nil w ws)

theorem memberTokens_cons_cons (k : Quoted) (v : Value) (m : Quoted × Value)
    (ms : List (Quoted × Value)) :
    memberTokens ((k, v) :: m :: ms) =
      .quoted k :: .colon :: (v.tokens ++ .comma :: memberTokens (m :: ms)) :=
  memberTokens.eq_3 k v (m :: ms) (List.cons_ne_nil m ms)

theorem itemTokens_cons (v : Value) (vs : List Value) :
    ∃ us, itemTokens (v :: vs) = v.tokens ++ us := by
  cases vs with
  | nil => exact ⟨[], (List.append_nil _).symm⟩
  | cons w ws => exact ⟨_, itemTokens_cons_cons v w ws⟩

open State

mutual

/-- A value's tokens complete the value and leave what is around it. -/
theorem Value.run_tokens : ∀ (v : Value) (outer : List Frame),
    (value outer).run v.tokens = some (complete v outer)
  | .null, _ | .bool _, _ | .number _, _ | .string _, _ => rfl
  | .array [], _ => rfl
  | .array (v :: vs), outer => by
    -- Only an opened array may be closed at once, so the first entry has to show that it is one.
    obtain ⟨us, hus⟩ := itemTokens_cons v vs
    have hitems := run_items (v :: vs) [] outer (List.cons_ne_nil v vs)
    rw [Value.tokens, run_cons (opened outer) rfl]
    rw [hus, List.append_assoc] at hitems ⊢
    rw [run_opened, hitems]
    rfl
  | .object [], _ => rfl
  | .object (m :: ms), outer => by
    rw [Value.tokens, run_cons (name [] true outer) rfl]
    exact run_members (m :: ms) [] true outer (List.cons_ne_nil m ms)

theorem run_items : ∀ (vs acc : List Value) (outer : List Frame), vs ≠ [] →
    (value (.array acc :: outer)).run (itemTokens vs ++ [.closeBracket]) =
      some (complete (.array (acc.reverse ++ vs)) outer)
  | [], _, _, hne => absurd rfl hne
  | [v], acc, outer, _ => by
    rw [itemTokens, run_append (v.run_tokens _), ← List.reverse_cons]
    rfl
  | v :: w :: ws, acc, outer, _ => by
    -- The comma moves the entry that was read onto the frame, and the induction takes over there.
    have hrest := run_items (w :: ws) (v :: acc) outer (List.cons_ne_nil w ws)
    rw [itemTokens_cons_cons, List.append_assoc, run_append (v.run_tokens _), List.cons_append,
      run_cons (value (.array (v :: acc) :: outer)) rfl, hrest, List.reverse_cons,
      List.append_assoc, List.singleton_append]

theorem run_members : ∀ (ms acc : List (Quoted × Value)) (fresh : Bool) (outer : List Frame),
    ms ≠ [] → (name acc fresh outer).run (memberTokens ms ++ [.closeBrace]) =
      some (complete (.object (acc.reverse ++ ms)) outer)
  | [], _, _, _, hne => absurd rfl hne
  | [(k, v)], acc, fresh, outer, _ => by
    have hvalue := v.run_tokens (.object acc k :: outer)
    rw [memberTokens, List.cons_append, List.cons_append, run_member, run_append hvalue,
      ← List.reverse_cons]
    rfl
  | (k, v) :: m :: ms, acc, fresh, outer, _ => by
    have hvalue := v.run_tokens (.object acc k :: outer)
    have hrest := run_members (m :: ms) ((k, v) :: acc) false outer (List.cons_ne_nil m ms)
    rw [memberTokens_cons_cons, List.cons_append, List.cons_append, List.append_assoc, run_member,
      run_append hvalue, List.cons_append, run_cons (name ((k, v) :: acc) false outer) rfl,
      hrest, List.reverse_cons, List.append_assoc, List.singleton_append]

end

/-- What writes a value is read as that value, whatever blanks, escapes and numerals it uses. -/
theorem parse?_of_writes {v : Value} {bs : Bytes} (h : Writes v bs) : parse? bs = some v := by
  have hrun : v.tokens.foldlM State.step (.value []) = some (.complete v []) := v.run_tokens []
  rw [parse?, tokens?_of_spells h, Option.bind_eq_bind, Option.bind_some, hrun]

end StockGate.Json
