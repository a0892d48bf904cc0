import StockGate.Flag.Client
import StockGate.Proofs.Text.Map

namespace StockGate.FlagContext

/-- Names that stand for the request itself; that of the user only if there is one. -/
def reserved (user : Option String) : List String :=
  ["productId", "targetingKey"] ++ (user.map fun _ => "userId").toList

/-- A context says who asks about which product, and all else that the caller adds. -/
structure Tells (r : Request) (ctx : FlagContext) : Prop where
  product : ctx.get? "productId" = some r.product
  target : ctx.get? "targetingKey" = some (r.caller.user.getD r.caller.correlationId.text)
  user : ∀ user, r.caller.user = some user → ctx.get? "userId" = some user
  added : ∀ key ∉ reserved r.caller.user, ctx.get? key = r.caller.attributes.get? key

/-- Two requests that only attributes under reserved names tell apart. -/
structure Alike (q r : Request) : Prop where
  product : q.product = r.product
  correlationId : q.caller.correlationId = r.caller.correlationId
  user : q.caller.user = r.caller.user
  added : ∀ key ∉ reserved r.caller.user,
    q.caller.attributes.get? key = r.caller.attributes.get? key

variable {q r : Request} {ctx other : FlagContext}

theorem get?_base (r : Request) (key : String) :
    (base r).get? key = if key = "productId" then some r.product
      else if key = "targetingKey" then some r.caller.correlationId.text else none := by
  rw [base, TextMap.get?_insert, TextMap.get?_insert]
  rfl

theorem get?_withUser (ctx : FlagContext) (user key : String) :
    (withUser ctx (some user)).get? key = if key = "userId" then some user
      else if key = "targetingKey" then some user else ctx.get? key := by
  rw [withUser, TextMap.get?_insert, TextMap.get?_insert]

theorem sorted_base (r : Request) : (base r).Sorted :=
  (TextMap.sorted_empty.insert _ _).insert _ _

theorem sorted_withUser (h : ctx.Sorted) (user : Option String) : (withUser ctx user).Sorted := by
  cases user with
  | none => exact h
  | some user => exact (h.insert _ _).insert _ _

theorem get?_own_of_free {key : String} (h : key ∉ reserved r.caller.user) :
    (withUser (base r) r.caller.user).get? key = none := by
  cases hu : r.caller.user with
  | none =>
    rw [hu] at h
    have hkey : key ≠ "productId" ∧ key ≠ "targetingKey" := by simpa [reserved] using h
    rw [withUser, get?_base, if_neg hkey.1, if_neg hkey.2]
  | some user =>
    rw [hu] at h
    have hkey : key ≠ "productId" ∧ key ≠ "targetingKey" ∧ key ≠ "userId" := by
      simpa [reserved] using h
    rw [get?_withUser, get?_base, if_neg hkey.2.2, if_neg hkey.2.1, if_neg hkey.1, if_neg hkey.2.1]

theorem sorted_ofRequest (r : Request) : (ofRequest r).Sorted :=
  (sorted_withUser (sorted_base r) _).foldl_insertNew _

theorem get?_ofRequest (r : Request) (key : String) :
    (ofRequest r).get? key =
      ((withUser (base r) r.caller.user).get? key).or (r.caller.attributes.get? key) :=
  TextMap.get?_foldl_insertNew _ _ key

theorem tells_ofRequest (r : Request) : Tells r (ofRequest r) where
  product := by
    rw [get?_ofRequest]
    cases hu : r.caller.user with
    | none => simp [withUser, get?_base]
    | some user => simp [get?_withUser, get?_base]
  target := by
    rw [get?_ofRequest]
    cases hu : r.caller.user with
    | none => simp [withUser, get?_base]
    | some user => simp [get?_withUser]
  user := by
    intro user hu
    rw [get?_ofRequest, hu, get?_withUser]
    rfl
  added := by
    intro key h
    rw [get?_ofRequest, get?_own_of_free h, Option.none_or]

/-- What a context tells leaves nothing open. -/
theorem Tells.get?_eq (h : Tells r ctx) (h' : Tells r other) (key : String) :
    ctx.get? key = other.get? key := by
  by_cases hkey : key ∈ reserved r.caller.user
  · simp only [reserved, List.mem_append, List.mem_cons, List.not_mem_nil, or_false,
      Option.mem_toList, Option.map_eq_some_iff] at hkey
    rcases hkey with (rfl | rfl) | ⟨user, hu, rfl⟩
    · rw [h.product, h'.product]
    · rw [h.target, h'.target]
    · rw [h.user user hu, h'.user user hu]
  · rw [h.added key hkey, h'.added key hkey]

theorem Tells.of_alike (h : Alike q r) (ht : Tells q ctx) : Tells r ctx where
  product := by rw [ht.product, h.product]
  target := by rw [ht.target, h.user, h.correlationId]
  user := by
    intro user hu
    exact ht.user user (h.user.trans hu)
  added := by
    intro key hkey
    rw [ht.added key (h.user ▸ hkey), h.added key hkey]

/-- The context of a request is the one map that tells the product, whom the flag targets, the user
and just those attributes that have a name of their own. Whatever callers put under the other names,
the context is the same and so is what is sent to the flag service. -/
theorem attributes_cannot_spoof :
    (∀ (r : Request) (ctx : FlagContext), ctx = ofRequest r ↔ ctx.Sorted ∧ Tells r ctx) ∧
      ∀ q r, Alike q r → ofRequest q = ofRequest r ∧
        ∀ (c : FlagClient) (g : FlagGate), c.request (g.question q) = c.request (g.question r) := by
  have hunique (r : Request) (ctx : FlagContext) (hs : ctx.Sorted) (ht : Tells r ctx) :
      ctx = ofRequest r :=
    hs.ext (sorted_ofRequest r) (ht.get?_eq (tells_ofRequest r))
  constructor
  · intro r ctx
    constructor
    · rintro rfl
      exact ⟨sorted_ofRequest r, tells_ofRequest r⟩
    · exact fun h => hunique r ctx h.1 h.2
  · intro q r h
    have hctx : ofRequest q = ofRequest r :=
      hunique r _ (sorted_ofRequest q) ((tells_ofRequest q).of_alike h)
    refine ⟨hctx, fun c g => ?_⟩
    rw [FlagGate.question, FlagGate.question, hctx]

/-- A user who claims to be another one, and to ask about another product. -/
def impostor : Request where
  product := "lamp"
  quantity := 1
  caller := {
    correlationId := ⟨7⟩
    user := some "u-42"
    attributes := .ofList [("userId", "root"), ("region", "eu"), ("targetingKey", "staff"),
      ("productId", "chair")] }
  product_not_blank := by decide
  quantity_ne_zero := by decide

/-- The same user without such claims. -/
def sincere : Request :=
  { impostor with
    caller := { impostor.caller with attributes := .ofList [("region", "eu")] } }

theorem attributes_cannot_spoof_of_impostor :
    Alike impostor sincere ∧ ofRequest impostor = ofRequest sincere ∧
      (ofRequest impostor).entries = [("productId", "lamp"), ("region", "eu"),
        ("targetingKey", "u-42"), ("userId", "u-42")] := by
  have h : Alike impostor sincere := by
    refine ⟨rfl, rfl, rfl, fun key hkey => ?_⟩
    have hfree : key ≠ "productId" ∧ key ≠ "targetingKey" ∧ key ≠ "userId" := by
      simpa [reserved, sincere, impostor] using hkey
    have himpostor : impostor.caller.attributes.entries = [("productId", "chair"),
      ("region", "eu"), ("targetingKey", "staff"), ("userId", "root")] := by decide
    have hsincere : sincere.caller.attributes.entries = [("region", "eu")] := by decide
    simp only [TextMap.get?, himpostor, hsincere, TextMap.lookup_cons_eq, if_neg hfree.1,
      if_neg hfree.2.1, if_neg hfree.2.2]
  exact ⟨h, (attributes_cannot_spoof.2 _ _ h).1, by decide⟩

end StockGate.FlagContext
