import Exchange.OrderBook.Alike
import Exchange.OrderBook.Walk
import Mathlib.Data.List.TakeWhile

/-!
# Who owns an order

The endpoints `create/Limit` and `create/Market` spread the body of a request
over the order object: a body may name another user, the key of an existing
row, or another type. The answer lists the open orders of user 1, whoever asks.

`ownership_iff`: the endpoints keep orders apart exactly for user 1, for bodies
that name no key and no other user.
-/

namespace Exchange

open Async Proc OrderBookService Store

/-! ## The endpoints -/

/-- The JSON body of an order request; `none` in `price` is `null`. -/
structure OrderBody where
  id : Option Nat := none
  uid : Option Nat := none
  side : Side
  symbol : String
  fills : Option (List Fill) := none
  type : Option String := none
  price : Option ℚ := none
  size : ℚ
  volume : Option ℚ := none
  created_at : Option Nat := none
  settled_at : Option Nat := none

/-- The only test of a type is whether it is `Market`. -/
def OrderType.parse (type : String) : OrderType := if type = "Market" then .Market else .Limit

namespace OrderBookController

/-- `{ uid, type, ...body }`. MySQL takes the key `0` as no key. -/
def spread (uid : Option Nat) (type : OrderType) (body : OrderBody) : NewOrder where
  id := body.id.filter (· ≠ 0)
  uid := (body.uid.or uid).getD 0
  has_uid := (body.uid.or uid).isSome
  side := body.side
  symbol := body.symbol
  fills := body.fills
  type := (body.type.map OrderType.parse).getD type
  price := body.price
  size := body.size
  volume := body.volume
  created_at := body.created_at
  settled_at := body.settled_at

/-- `create/Limit` for the user of the token. -/
def create (userId : Nat) (createOrderDto : OrderBody) : Prog Response :=
  handleOrder (spread (some userId) .Limit createOrderDto)

/-- `create/Market`, which leaves `uid` to the body. -/
def createMarket (_userId : Nat) (createOrderDto : OrderBody) : Prog Response :=
  handleOrder (spread none .Market createOrderDto)

end OrderBookController

/-- The two endpoints that create an order. -/
inductive Endpoint where
  | Limit
  | Market
  deriving DecidableEq

namespace Endpoint

def serve : Endpoint → Nat → OrderBody → Prog Response
  | Limit => OrderBookController.create
  | Market => OrderBookController.createMarket

/-- The order object that the endpoint hands to `handleOrder`. -/
def order : Endpoint → Nat → OrderBody → NewOrder
  | Limit, userId, body => OrderBookController.spread (some userId) .Limit body
  | Market, _, body => OrderBookController.spread none .Market body

theorem serve_eq (endpoint : Endpoint) (userId : Nat) (body : OrderBody) :
    endpoint.serve userId body = handleOrder (endpoint.order userId body) := by
  cases endpoint <;> rfl

end Endpoint

/-! ## The property -/

/-- The rows differ at most in what matching changes. -/
def OrderBook.KeptIn (row row' : OrderBook) : Prop :=
  row' = { row with
    size := row'.size
    is_filled := row'.is_filled
    fills := row'.fills
    settled_at := row'.settled_at }

/-- The row is an open order of the other side that the new order was executed against. -/
structure MatchedBy (order : NewOrder) (log : List Entry) (row : OrderBook) : Prop where
  is_open : row.is_filled = false
  side : row.side = order.side.opposite
  symbol : row.symbol = order.symbol
  executed : ∃ e ∈ log, ∃ u x, e.write = .update row.id u x ∧ x.maker = row

/-- What the request of a user should do to the tables and answer. -/
structure Owned (env : Env) (userId : Nat) (order : NewOrder) (w : World)
    (r : Except Err Response) (w' : World) : Prop where
  refused : env.fails w.calls (.saveOrderBook order.submitted) = true → w'.db = w.db
  inserted : env.fails w.calls (.saveOrderBook order.submitted) = false →
    ∃ row ∈ w'.db.tbl_order_books.rows, row.uid = userId ∧
      ∀ row' ∈ w'.db.tbl_order_books.rows,
        (∀ old ∈ w.db.tbl_order_books.rows, old.id ≠ row'.id) ↔ row' = row
  kept : ∃ log, w'.journal = w.journal ++ log ∧ ∀ row ∈ w.db.tbl_order_books.rows,
    ∃ row' ∈ w'.db.tbl_order_books.rows, row.KeptIn row' ∧ (row' = row ∨ MatchedBy order log row)
  taker : ∀ t ∈ w'.db.tbl_trades.rows, t ∈ w.db.tbl_trades.rows ∨ t.party order.side = userId
  answered : ∀ resp, r = .ok resp → ∀ row ∈ resp.data, row.uid = userId

/-- Two states that differ at most in orders of other users that the order does not take. -/
structure SameFor (userId : Nat) (order : NewOrder) (w w' : World) : Prop where
  calls : w.calls = w'.calls
  trades : w.db.tbl_trades = w'.db.tbl_trades
  next : w.db.tbl_order_books.next = w'.db.tbl_order_books.next
  own : w.db.tbl_order_books.rows.filter (fun row => row.uid = userId) =
    w'.db.tbl_order_books.rows.filter fun row => row.uid = userId
  taken : Greedy.fills doubles (order.matcher.halts order.held) OrderBook.size order.size
      (w.db.resting order.side.opposite order.symbol) =
    Greedy.fills doubles (order.matcher.halts order.held) OrderBook.size order.size
      (w'.db.resting order.side.opposite order.symbol)

/-- The request keeps to its user, in every state, and answers alike in states
that are the same for the user. -/
def KeepsOwnership (endpoint : Endpoint) (userId : Nat) (body : OrderBody) : Prop :=
  let order := endpoint.order userId body
  let run := fun env w => (endpoint.serve userId body).run (World.perform env) w
  (∀ env : Env, env.RefusesInadmissible →
    ∀ w, Owned env userId order w (run env w).1 (run env w).2) ∧
    ∀ env : Env, env.Constrained → ∀ w w', SameFor userId order w w' →
      (run env w).1.toOption = (run env w').1.toOption

/-! ## What matching changes -/

theorem OrderBook.KeptIn.trans {row row' row'' : OrderBook} (h : row.KeptIn row')
    (h' : row'.KeptIn row'') : row.KeptIn row'' := by
  unfold OrderBook.KeptIn at *
  rw [h', h]

theorem Write.onRow_kept (wr : Write) (row : OrderBook) : row.KeptIn (wr.onRow row) := by
  cases wr with
  | order o now => rfl
  | trade t x => rfl
  | update id u x =>
    simp only [Write.onRow]
    split <;> rfl

theorem rowAfter_kept (ws : List Write) (row : OrderBook) : row.KeptIn (rowAfter ws row) := by
  induction ws generalizing row with
  | nil => rfl
  | cons wr ws ih => exact (wr.onRow_kept row).trans (ih _)

/-- Trades come from the writes. -/
theorem Tables.mem_writeAll_trades {db : Tables} {ws : List Write} {t : Trade}
    (h : t ∈ (db.writeAll ws).tbl_trades.rows) :
    t ∈ db.tbl_trades.rows ∨ ∃ t' x id, Write.trade t' x ∈ ws ∧ t = t'.toRow id := by
  induction ws generalizing db with
  | nil => exact .inl h
  | cons wr ws ih =>
    rcases ih h with h | ⟨t', x, id, hm, rfl⟩
    · cases wr with
      | order o now =>
        rw [Tables.write, Tables.saveOrderBook_trades] at h
        exact .inl h
      | update id u x => exact .inl h
      | trade t' x =>
        rcases List.mem_append.mp h with h | h
        · exact .inl h
        · exact .inr ⟨t', x, _, List.mem_cons_self, List.mem_singleton.mp h⟩
    · exact .inr ⟨t', x, id, List.mem_cons_of_mem _ hm, rfl⟩

/-- The user of the incoming order is the taker of its trades. -/
theorem Plan.trade_party {m : Matcher} {order : OrderBook} {L : List OrderBook} {ws : List Write}
    (h : Plan m order L ws) {t : NewTrade} {x : Execution} (hm : Write.trade t x ∈ ws) :
    t.party m.side = order.uid := by
  induction h with
  | nil | stop => simp at hm
  | full L t₁ t₂ t₃ h hs =>
    simp only [Matcher.fullWrites, List.mem_cons, Write.trade.injEq, reduceCtorEq, false_or,
      List.not_mem_nil, or_false] at hm
    obtain ⟨rfl, -⟩ := hm
    cases hside : m.side <;> simp [NewTrade.party, Matcher.trade, hside]
  | part t₁ t₂ h hs hp ih =>
    simp only [Matcher.partWrites, List.mem_append, List.mem_cons, Write.trade.injEq,
      List.not_mem_nil, or_false, reduceCtorEq, false_or] at hm
    rcases hm with ⟨rfl, -⟩ | hm
    · cases hside : m.side <;> simp [NewTrade.party, Matcher.trade, hside]
    · exact ih hm

/-- A plan updates the order itself and the resting orders it is executed against. -/
theorem Plan.update_eq {m : Matcher} {order : OrderBook} {L : List OrderBook} {ws : List Write}
    (h : Plan m order L ws) {id : Nat} {u : OrderUpdate} {x : Execution}
    (hm : Write.update id u x ∈ ws) : x.maker ∈ L ∧ (id = order.id ∨ id = x.maker.id) := by
  induction h with
  | nil | stop => simp at hm
  | full L t₁ t₂ t₃ h hs =>
    simp only [Matcher.fullWrites, List.mem_cons, Write.update.injEq, reduceCtorEq, false_or,
      List.not_mem_nil, or_false] at hm
    rcases hm with ⟨rfl, -, rfl⟩ | ⟨rfl, -, rfl⟩
    · exact ⟨List.mem_cons_self, .inl rfl⟩
    · exact ⟨List.mem_cons_self, .inr rfl⟩
  | part t₁ t₂ h hs hp ih =>
    rcases List.mem_append.mp hm with hm | hm
    · simp only [Matcher.partWrites, List.mem_cons, Write.update.injEq, reduceCtorEq, false_or,
        List.not_mem_nil, or_false] at hm
      rcases hm with ⟨rfl, -, rfl⟩ | ⟨rfl, -, rfl⟩
      · exact ⟨List.mem_cons_self, .inr rfl⟩
      · exact ⟨List.mem_cons_self, .inl rfl⟩
    · obtain ⟨hmaker, hid⟩ := ih hm
      exact ⟨List.mem_cons_of_mem _ hmaker, hid⟩

/-! ## One request -/

section Request

variable {env : Env} {order : NewOrder} {w w' : World} {r : Except Err Response}
  {ws done : List Write}

theorem NewOrder.resting_spec {row : OrderBook} (hid : order.id = none)
    (h : row ∈ order.resting env w) : row ∈ w.db.tbl_order_books.rows ∧
      row.side = order.side.opposite ∧ row.symbol = order.symbol ∧ row.is_filled = false := by
  rw [NewOrder.resting_of_new hid] at h
  exact Tables.mem_openOrders.mp (Tables.mem_openOrders_iff.mpr (.inl h))

/-- Where a match changes an existing row, the row is of an order it executes. -/
theorem Processed.matchedBy (h : Processed env order w r w' ws done) (hid : order.id = none)
    {row : OrderBook} (hrow : row ∈ w.db.tbl_order_books.rows) (hne : rowAfter done row ≠ row) :
    MatchedBy order ((order.inserted env w).entries done) row := by
  have htouched : Touches done row.id := by
    by_contra hn
    exact hne (rowAfter_untouched hn)
  obtain ⟨u, x, hm⟩ := htouched
  obtain ⟨hmaker, hupdated⟩ := h.plan.update_eq (h.made.subset hm)
  obtain ⟨hmem, hside, hsymbol, hopen⟩ := NewOrder.resting_spec hid hmaker
  have hlt := w.db.tbl_order_books.fresh row hrow
  have hold : row.id ≠ (order.taker env w).id := by
    rw [NewOrder.taker_of_new hid]
    exact hlt.ne
  obtain rfl : x.maker = row := Table.eq_of_key hmem hrow (hupdated.resolve_left hold).symm
  obtain ⟨pre, post, rfl⟩ := List.append_of_mem hm
  have hentry : ⟨(order.inserted env w).writeAll pre, .update x.maker.id u x⟩ ∈
      (order.inserted env w).entries (pre ++ .update x.maker.id u x :: post) :=
    Tables.mem_entries.mpr ⟨pre, post, rfl, rfl⟩
  exact ⟨hopen, hside, hsymbol, _, hentry, u, x, rfl, rfl⟩

/-- The answer lists orders of user 1. -/
theorem NewOrder.respond_uid (g : MatchResult) (db : Tables) :
    ∀ row ∈ (order.respond g db).data, row.uid = 1 := by
  unfold NewOrder.respond
  split
  · intro row hrow
    have hmem := mem_of_mem_orderByLimit hrow
    simp only [List.mem_filter, decide_eq_true_eq] at hmem
    exact hmem.2.2.2
  · simp

/-- Where user 1 saves an order of user 1 without a key, all is as it should be. -/
theorem Processed.owned (h : Processed env order w r w' ws done) (hid : order.id = none)
    (huid : order.uid = 1) : Owned env 1 order w r w' := by
  have hrows := h.rows
  rw [NewOrder.inserted_rows_of_new hid, List.map_append, List.map_singleton] at hrows
  refine ⟨?_, fun _ => ?_, ?_, ?_, ?_⟩
  · intro hf
    rw [h.accepted] at hf
    cases hf
  · refine ⟨rowAfter done (order.row env w), by simp [hrows], ?_, fun row' hrow' => ?_⟩
    · rw [(rowAfter_worked h.matching _).uid]
      exact NewOrder.submitted_uid.trans huid
    · rw [hrows] at hrow'
      rcases List.mem_append.mp hrow' with hrow' | hnew
      · obtain ⟨old, hold, rfl⟩ := List.mem_map.mp hrow'
        have hlt := w.db.tbl_order_books.fresh old hold
        have hid' : (rowAfter done old).id = old.id := (rowAfter_worked h.matching old).id
        constructor
        · exact fun hall => absurd hid'.symm (hall old hold)
        · intro heq
          rw [heq, (rowAfter_worked h.matching _).id] at hid'
          exact absurd hid'.symm hlt.ne
      · refine ⟨fun _ => List.mem_singleton.mp hnew, fun heq old hold => ?_⟩
        rw [heq, (rowAfter_worked h.matching _).id]
        exact (w.db.tbl_order_books.fresh old hold).ne
  · refine ⟨_, h.journal, fun row hrow => ⟨rowAfter done row, ?_, rowAfter_kept done row, ?_⟩⟩
    · rw [hrows]
      exact List.mem_append_left _ (List.mem_map_of_mem hrow)
    · by_cases hne : rowAfter done row = row
      · exact .inl hne
      · obtain ⟨hopen, hside, hsymbol, e, he, hexecuted⟩ := h.matchedBy hid hrow hne
        exact .inr ⟨hopen, hside, hsymbol, e, List.mem_cons_of_mem _ he, hexecuted⟩
  · intro t ht
    rw [h.db] at ht
    rcases Tables.mem_writeAll_trades ht with ht | ⟨t', x, id, hm, rfl⟩
    · rw [NewOrder.inserted_trades] at ht
      exact .inl ht
    · refine .inr ?_
      rw [NewTrade.toRow_party, ← NewOrder.matcher_side, h.plan.trade_party (h.made.subset hm),
        NewOrder.taker_uid, huid]
  · rintro resp hresp row hrow
    rcases h.answered resp hresp with ⟨-, rfl⟩ | ⟨-, rfl⟩
    · exact NewOrder.respond_uid _ _ row hrow
    · exact NewOrder.respond_uid _ _ row hrow

theorem owned_of_refused (hf : env.fails w.calls (.saveOrderBook order.submitted) = true)
    {userId : Nat} (h : Processing env order w r w') : Owned env userId order w r w' := by
  rcases h with ⟨-, rfl, rfl⟩ | ⟨ws, done, h⟩
  · refine ⟨fun _ => rfl, ?_, ⟨[], (List.append_nil _).symm, fun row hrow =>
      ⟨row, hrow, rfl, .inl rfl⟩⟩, fun t ht => .inl ht, ?_⟩
    · intro hf'
      rw [hf] at hf'
      cases hf'
    · rintro resp ⟨⟩
  · rw [h.accepted] at hf
    cases hf

/-! ## Two states -/

/-- The open orders of a user are the same in tables whose rows of the user are
the same but for what is closed. -/
theorem filter_sameOpen {l : List OrderBook} {f g : OrderBook → OrderBook}
    (h : ∀ row ∈ l, SameOpen (f row) (g row)) (userId : Nat) (symbol : String) :
    (l.map f).filter (fun row => row.symbol = symbol ∧ row.is_filled = false ∧ row.uid = userId) =
      (l.map g).filter fun row =>
        row.symbol = symbol ∧ row.is_filled = false ∧ row.uid = userId := by
  induction l with
  | nil => rfl
  | cons row l ih =>
    rw [List.forall_mem_cons] at h
    rw [List.map_cons, List.map_cons, List.filter_cons, List.filter_cons, ih h.2]
    by_cases hf : (f row).is_filled = false
    · rw [h.1.eq hf]
    · have hg : ¬ (g row).is_filled = false := h.1.filled ▸ hf
      simp [hf, hg]

theorem filter_own {l : List OrderBook} {f : OrderBook → OrderBook}
    (hf : ∀ row, (f row).uid = row.uid) (userId : Nat) (symbol : String) :
    (l.map f).filter (fun row => row.symbol = symbol ∧ row.is_filled = false ∧ row.uid = userId) =
      ((l.filter fun row => row.uid = userId).map f).filter fun row =>
        row.symbol = symbol ∧ row.is_filled = false ∧ row.uid = userId := by
  rw [List.filter_map, List.filter_map, List.filter_filter]
  congr 1
  apply List.filter_congr
  intro row _
  simp only [Function.comp_apply, hf]
  grind

variable {w₁ w₂ w₁' w₂' : World} {r₁ r₂ : Except Err Response} {ws₁ ws₂ done₁ done₂ : List Write}

theorem Processed.alike (h₁ : Processed env order w₁ r₁ w₁' ws₁ done₁)
    (h₂ : Processed env order w₂ r₂ w₂' ws₂ done₂) (hid : order.id = none) {userId : Nat}
    (hsame : SameFor userId order w₁ w₂) : List.Forall₂ Write.Alike ws₁ ws₂ := by
  have htaker : order.taker env w₁ = order.taker env w₂ := by
    rw [NewOrder.taker_of_new hid, NewOrder.taker_of_new hid, hsame.calls, hsame.next]
  have hplan := h₁.plan
  rw [htaker] at hplan
  apply hplan.alike h₂.plan
  rw [Plan.fills, Plan.fills, NewOrder.taker_held_of_new hid, NewOrder.taker_size,
    NewOrder.resting_of_new hid, NewOrder.resting_of_new hid]
  exact hsame.taken

/-- The open orders of the user are the same afterwards. -/
theorem Processed.same_orders (h₁ : Processed env order w₁ r₁ w₁' ws₁ done₁)
    (h₂ : Processed env order w₂ r₂ w₂' ws₂ done₂) (hid : order.id = none) {userId : Nat}
    (hsame : SameFor userId order w₁ w₂) (hdone : List.Forall₂ Write.Alike done₁ done₂)
    (symbol : String) (limit : Nat) :
    w₁'.db.getUserOrdersNoSide userId symbol limit =
      w₂'.db.getUserOrdersNoSide userId symbol limit := by
  have hrow : order.row env w₁ = order.row env w₂ := by
    rw [NewOrder.row, NewOrder.row, hsame.calls, hsame.next]
  have hopen : ∀ row, SameOpen (rowAfter done₁ row) (rowAfter done₂ row) :=
    fun row => (SameOpen.refl row).rowAfter hdone
  unfold Tables.getUserOrdersNoSide
  congr 1
  rw [h₁.rows, h₂.rows, NewOrder.inserted_rows_of_new hid, NewOrder.inserted_rows_of_new hid, hrow,
    filter_own (fun row => (rowAfter_worked h₁.matching row).uid),
    filter_own (fun row => (rowAfter_worked h₂.matching row).uid), List.filter_append,
    List.filter_append, hsame.own]
  exact filter_sameOpen (fun row _ => hopen row) userId symbol

theorem NewOrder.respond_failed {g : MatchResult} (hg : g.success = false) (db db' : Tables) :
    order.respond g db = order.respond ⟨false, "Failed to place order"⟩ db' := by
  simp [NewOrder.respond, hg]

/-- On a symbol without trades no order is answered with success. -/
theorem Processed.answer_of_no_trade (h : Processed env order w r w' ws done)
    (henv : env.Constrained) (hT : ¬ w.db.HasTrade order.symbol) (db : Tables) :
    r.toOption = if order.type = .Market then
      some (order.respond ⟨false, "Failed to place order"⟩ db) else none := by
  by_cases ht : order.type = .Market
  · rw [if_pos ht]
    cases r with
    | error e =>
      rcases h.failed e rfl with ⟨a, b, hf⟩ | ⟨hm, -⟩
      · exact absurd hf henv.not_fault
      · exact absurd ht hm
    | ok resp =>
      refine congrArg some ?_
      rcases h.answered resp rfl with ⟨rfl, rfl⟩ | ⟨-, rfl⟩
      · -- the first write would have raised
        have hnil : done = [] := by
          by_contra hne
          have hlen := h.plan.two_le_length hne
          have hstuck := h.stuck hT
          omega
        apply NewOrder.respond_failed
        rw [hnil]
        simp only [Matcher.answer, if_true, NewOrder.matcher, ht]
        split <;> rfl
      · exact NewOrder.respond_failed rfl _ _
  · rw [if_neg ht]
    obtain ⟨-, e, rfl⟩ := h.raised ht hT
    rfl

/-- On a symbol with trades an order is answered according to whether its plan was made. -/
theorem Processed.answer_of_trade (h : Processed env order w r w' ws done)
    (henv : env.Constrained) (hT : w.db.HasTrade order.symbol) :
    r.toOption = some (if done.length = ws.length then order.respond (order.matcher.answer ws) w'.db
      else order.respond ⟨false, "Failed to place order"⟩ w'.db) := by
  cases r with
  | error e =>
    rcases h.failed e rfl with ⟨a, b, hf⟩ | ⟨-, hn⟩
    · exact absurd hf henv.not_fault
    · exact absurd hT hn
  | ok resp =>
    refine congrArg some ?_
    rcases h.answered resp rfl with ⟨rfl, rfl⟩ | ⟨hb, rfl⟩
    · rw [if_pos rfl]
    · obtain ⟨wr, hnext, -⟩ := hb.inadmissible henv fun hraises => hraises.1 hT
      rw [if_neg]
      intro hlen
      simp [hlen] at hnext

/-- **Two states that are the same for user 1** give user 1 the same answer. -/
theorem Processed.same_answer (h₁ : Processed env order w₁ r₁ w₁' ws₁ done₁)
    (h₂ : Processed env order w₂ r₂ w₂' ws₂ done₂) (henv : env.Constrained)
    (hid : order.id = none) (hsame : SameFor 1 order w₁ w₂) : r₁.toOption = r₂.toOption := by
  have hT : w₁.db.HasTrade order.symbol ↔ w₂.db.HasTrade order.symbol := by
    simp only [Tables.HasTrade, hsame.trades]
  by_cases hT₁ : w₁.db.HasTrade order.symbol
  · have halike := h₁.alike h₂ hid hsame
    have hd₁ := h₁.done_eq henv hT₁
    have hd₂ := h₂.done_eq henv (hT.mp hT₁)
    have hdone : List.Forall₂ Write.Alike done₁ done₂ := by
      rw [hd₁, hd₂]
      exact takeWhile_alike halike
    have hanswer : order.matcher.answer ws₁ = order.matcher.answer ws₂ := by
      cases halike with
      | nil => rfl
      | cons => rfl
    have hrespond : ∀ g, order.respond g w₁'.db = order.respond g w₂'.db := by
      intro g
      rw [NewOrder.respond, NewOrder.respond, h₁.same_orders h₂ hid hsame hdone]
    rw [h₁.answer_of_trade henv hT₁, h₂.answer_of_trade henv (hT.mp hT₁), hdone.length_eq,
      halike.length_eq, hanswer, hrespond, hrespond]
  · rw [h₁.answer_of_no_trade henv hT₁ w₁.db,
      h₂.answer_of_no_trade henv (fun h => hT₁ (hT.mpr h)) w₁.db]

end Request

/-! ## Where it fails -/

section Failures

variable {env : Env} {order : NewOrder} {w w' : World} {r : Except Err Response}
  {ws done : List Write} {userId : Nat}

/-- A body with the key of a row overwrites the row. -/
theorem Processed.not_owned_of_key (h : Processed env order w r w' ws done) {k : Nat}
    (hid : order.id = some k) (hk : k ∈ w.db.tbl_order_books.rows.map OrderBook.id) :
    ¬ Owned env userId order w r w' := by
  intro howned
  obtain ⟨row, hrow, -, hnew⟩ := howned.inserted h.accepted
  have hfresh := (hnew row hrow).mpr rfl
  have hinserted : (order.inserted env w).tbl_order_books =
      w.db.tbl_order_books.modify k order.submitted.overwrite fun _ => rfl := by
    unfold NewOrder.inserted Tables.write Tables.saveOrderBook
    simp only [NewOrder.submitted_id, hid, dif_pos hk]
  rw [h.rows, hinserted] at hrow
  obtain ⟨row₁, hrow₁, rfl⟩ := List.mem_map.mp hrow
  obtain ⟨old, hold, rfl⟩ := Table.mem_modify.mp hrow₁
  apply hfresh old hold
  rw [(rowAfter_worked h.matching _).id]
  split <;> rfl

/-- A body that names another user makes an order of that user. -/
theorem Processed.not_owned_of_uid (h : Processed env order w r w' ws done)
    (hid : order.id = none) (huid : order.uid ≠ userId) : ¬ Owned env userId order w r w' := by
  intro howned
  obtain ⟨row, -, hrow, hnew⟩ := howned.inserted h.accepted
  have hmem : rowAfter done (order.row env w) ∈ w'.db.tbl_order_books.rows := by
    rw [h.rows, NewOrder.inserted_rows_of_new hid]
    exact List.mem_map_of_mem (List.mem_append_right _ (List.mem_singleton_self _))
  have hworked := rowAfter_worked h.matching (order.row env w)
  have heq : rowAfter done (order.row env w) = row := by
    apply (hnew _ hmem).mp
    intro old hold
    rw [hworked.id]
    exact (w.db.tbl_order_books.fresh old hold).ne
  rw [← heq, hworked.uid] at hrow
  exact huid (NewOrder.submitted_uid.symm.trans hrow)

/-- An order of user 1 for nothing. -/
def NewOrder.void (side : Side) (symbol : String) (size : ℚ) : NewOrder where
  uid := 1
  side := side
  symbol := symbol
  type := .Limit
  price := some 0
  size := size

/-- A size from which what the column holds can be taken, or which can be taken from it. -/
def counterpart (size : ℚ) : ℚ := if 0 ≤ size then 10 ^ 8 else -10 ^ 8

/-- A symbol with a trade and an open order of user 1 for nothing on each side. -/
def Tables.listed (side : Side) (symbol : String) (size : ℚ) : Tables :=
  (Tables.empty.saveTrade ⟨7, 8, some 10, 1, 0, .Limit, symbol, 1⟩).place
    [.void side symbol 0, .void side.opposite symbol (counterpart size)]

section Listed

variable (side : Side) (symbol : String) (size : ℚ)

theorem Tables.listed_rows : (Tables.listed side symbol size).tbl_order_books.rows =
    [(NewOrder.void side symbol 0).toRow 1 1,
      (NewOrder.void side.opposite symbol (counterpart size)).toRow 2 2] := rfl

theorem Tables.listed_hasTrade : (Tables.listed side symbol size).HasTrade symbol := by
  have htrades : (Tables.listed side symbol size).tbl_trades =
      (Tables.empty.saveTrade ⟨7, 8, some 10, 1, 0, .Limit, symbol, 1⟩).tbl_trades := rfl
  rw [Tables.HasTrade, htrades]
  exact ⟨_, List.mem_singleton_self _, rfl⟩

theorem Tables.listed_resting : (Tables.listed side symbol size).resting side.opposite symbol =
    [(NewOrder.void side.opposite symbol (counterpart size)).toRow 2 2] := by
  have hside : side ≠ side.opposite := by
    cases side <;> simp [Side.opposite]
  have hopen : (Tables.listed side symbol size).openOrders side.opposite symbol =
      [(NewOrder.void side.opposite symbol (counterpart size)).toRow 2 2] := by
    rw [Tables.openOrders, Tables.listed_rows]
    simp [NewOrder.void, NewOrder.toRow, hside]
  rw [Tables.resting, Tables.findOrders, hopen]
  rfl

end Listed

/-- What is no more than nine tenths of the column's range fits the column. -/
theorem fits_num {x : ℚ} (h0 : 0 ≤ x) (h : x ≤ 9 * 10 ^ 8) :
    fits 17 8 (Double.num x) = true := by
  have htop : Double.num (9 * 10 ^ 8) = 9 * 10 ^ 8 := by decide +kernel
  have hle : Double.num x ≤ 9 * 10 ^ 8 := by
    rw [← htop]
    exact Double.num_mono (Double.fl_mono h)
  exact fits_of_le (Double.num_nonneg h0) hle (by decide +kernel)

/-- Sizes and their counterparts are taken from each other within the column's range. -/
theorem counterpart_fits {size : ℚ} (hsize : fits 17 8 size = true) :
    (Double.fl size ≤ Double.fl (counterpart size) →
        fits 17 8 (Double.sub (counterpart size) size) = true) ∧
      (Double.fl (counterpart size) < Double.fl size →
        fits 17 8 (Double.sub size (counterpart size)) = true) := by
  have htop : Double.fl (10 ^ 8) = 10 ^ 8 := by decide +kernel
  have hlimit : Double.fl (10 ^ 9) = 10 ^ 9 := by decide +kernel
  have habs : |roundTo 8 size| < 10 ^ 9 := by simpa [fits] using hsize
  obtain ⟨hlow, hhigh⟩ := abs_lt.mp habs
  have hnine : roundTo 8 (10 ^ 9) = 10 ^ 9 := by
    exact_mod_cast (IsDecimal.natCast (10 ^ 9)).roundTo_eq
  have hle : size ≤ 10 ^ 9 := by
    by_contra hgt
    have hmono : roundTo 8 (10 ^ 9) ≤ roundTo 8 size := roundTo_mono (not_le.mp hgt).le
    rw [hnine] at hmono
    exact absurd hhigh hmono.not_gt
  have hge : -10 ^ 9 ≤ size := by
    by_contra hlt
    have hmono : roundTo 8 size ≤ roundTo 8 (-10 ^ 9) := roundTo_mono (not_le.mp hlt).le
    rw [roundTo_neg, hnine] at hmono
    exact absurd hlow hmono.not_gt
  have hfle := Double.fl_mono hle
  have hfge := Double.fl_mono hge
  rw [Double.fl_neg, hlimit] at hfge
  rw [hlimit] at hfle
  unfold counterpart
  split
  · next h0 =>
    have hf0 := Double.fl_nonneg h0
    rw [htop]
    refine ⟨fun h => fits_num ?_ ?_, fun h => fits_num ?_ ?_⟩ <;> rw [htop] <;> linarith
  · next h0 =>
    have hf0 := Double.fl_mono (not_le.mp h0).le
    rw [Double.fl_zero] at hf0
    rw [Double.fl_neg, htop]
    refine ⟨fun h => fits_num ?_ ?_, fun h => fits_num ?_ ?_⟩ <;>
      rw [Double.fl_neg, htop] <;> linarith

/-- All that is written against the order for nothing is accepted. -/
theorem Plan.admissible_void {m : Matcher} {order : OrderBook} {side : Side} {symbol : String}
    {size : ℚ} (h : Plan m order [(NewOrder.void side symbol (counterpart size)).toRow 2 2] ws)
    (hsize : fits 17 8 order.size = true) (heq : order.size = size) :
    ∀ wr ∈ ws, wr.op.admissible = true := by
  subst heq
  have hvoid : ((NewOrder.void side symbol (counterpart order.size)).toRow 2 2).size =
      counterpart order.size := by
    apply IsDecimal.roundTo_eq
    unfold counterpart
    split
    · exact_mod_cast IsDecimal.natCast (10 ^ 8)
    · exact_mod_cast (IsDecimal.natCast (10 ^ 8)).neg
  have hprice : ((NewOrder.void side symbol (counterpart order.size)).toRow 2 2).price = some 0 :=
    congrArg some roundTo_zero
  generalize (NewOrder.void side symbol (counterpart order.size)).toRow 2 2 = r at h hvoid hprice
  obtain ⟨hfull, hpart⟩ := counterpart_fits hsize
  rw [← hvoid] at hfull hpart
  have hfree (q : ℚ) : Double.mul 0 q = 0 := by
    rw [Double.mul, Double.fl_zero, zero_mul, Double.num_zero]
  cases h with
  | stop => simp
  | full L t₁ t₂ t₃ h hs =>
    simp only [Matcher.fullWrites, List.forall_mem_cons]
    refine ⟨fits_zero 17, ?_, ?_, by simp⟩
    · simp [Write.op, Op.admissible, NewTrade.admissible, NewTrade.volume, Matcher.trade, hprice,
        hsize, number, hfree]
    · change fits 17 8 _ = true
      rw [Matcher.full_size]
      exact hfull hs
  | part t₁ t₂ h hs hp =>
    cases hp
    simp only [Matcher.partWrites, List.append_nil, List.forall_mem_cons]
    refine ⟨fits_zero 17, ?_, hpart hs, by simp⟩
    have hrsize : fits 17 8 r.size = true := by
      rw [hvoid]
      unfold counterpart
      split <;> decide +kernel
    simp [Write.op, Op.admissible, NewTrade.admissible, NewTrade.volume, Matcher.trade, hprice,
      hrsize, number, hfree]

theorem orderByLimit_ne_nil {α : Type} {le : α → α → Bool} {limit : Nat} {l : List α}
    (hlimit : 0 < limit) (h : l ≠ []) : orderByLimit le limit l ≠ [] := by
  have hlen : 0 < (sorted le l).length := by
    rw [(perm_sorted le l).length_eq]
    exact List.length_pos_iff.mpr h
  apply List.length_pos_iff.mp
  rw [orderByLimit, List.length_take]
  omega

theorem NewOrder.submitted_fits (hadm : order.submitted.admissible = true) :
    fits 17 8 order.size = true := by
  simp only [NewOrder.admissible, Bool.and_eq_true, NewOrder.submitted_size] at hadm
  exact hadm.1.1.2

/-- Every order enters its match with an order for nothing, or answers as if it did. -/
theorem NewOrder.answer_void {taker r : OrderBook} (h : Plan order.matcher taker [r] ws) :
    (order.matcher.answer ws).success = true := by
  by_cases ht : order.type = .Market
  · have hhalts : order.matcher.halts taker.held r = false := by
      rw [NewOrder.matcher, if_pos ht]
      split <;> rfl
    rw [Matcher.answer, if_neg (h.ne_nil hhalts)]
  · rw [NewOrder.matcher, if_neg ht, Matcher.answer]
    split
    · split <;> rfl
    · rfl

/-- The open order of user 1 on the side of the order is not touched. -/
theorem Plan.listed_untouched {m : Matcher} {taker : OrderBook} {side : Side} {symbol : String}
    {size : ℚ} (h : Plan m taker [(NewOrder.void side.opposite symbol size).toRow 2 2] ws)
    (hid : taker.id = 3) : rowAfter ws ((NewOrder.void side symbol 0).toRow 1 1) =
      (NewOrder.void side symbol 0).toRow 1 1 := by
  apply rowAfter_untouched
  rintro ⟨u, x, hm⟩
  obtain ⟨hmaker, hupdated⟩ := h.update_eq hm
  rw [List.mem_singleton.mp hmaker, hid] at hupdated
  rcases hupdated with hupdated | hupdated
  · cases hupdated
  · cases hupdated

/-- The order is answered with an order of user 1. -/
theorem Processed.not_owned_of_listed
    (h : Processed .constrained order (.start (.listed order.side order.symbol order.size))
      r w' ws done)
    (hid : order.id = none) (hadm : order.submitted.admissible = true) (huser : userId ≠ 1) :
    ¬ Owned .constrained userId order (.start (.listed order.side order.symbol order.size))
      r w' := by
  intro howned
  have hT : (Tables.listed order.side order.symbol order.size).HasTrade order.symbol :=
    Tables.listed_hasTrade ..
  have hplan := h.plan
  rw [NewOrder.resting_of_new hid] at hplan
  change Plan _ _ ((Tables.listed order.side order.symbol order.size).resting _ _) ws at hplan
  rw [Tables.listed_resting] at hplan
  have hsize : fits 17 8 (order.taker .constrained
      (.start (.listed order.side order.symbol order.size))).size = true := by
    rw [NewOrder.taker_size]
    exact NewOrder.submitted_fits hadm
  -- the whole plan is made, and its answer is a success
  have hdone : done = ws := by
    rw [h.done_eq Env.constrained_constrained hT]
    exact List.takeWhile_eq_self_iff.mpr (hplan.admissible_void hsize NewOrder.taker_size)
  have hsuccess := NewOrder.answer_void hplan
  have hanswer := h.answer_of_trade Env.constrained_constrained hT
  rw [hdone, if_pos rfl, NewOrder.respond, if_pos hsuccess] at hanswer
  cases r with
  | error e => cases hanswer
  | ok resp =>
    have hdata : resp.data = w'.db.getUserOrdersNoSide 1 order.symbol 20 :=
      congrArg Response.data (Option.some.inj hanswer)
    have hne : w'.db.getUserOrdersNoSide 1 order.symbol 20 ≠ [] := by
      have htaker : (order.taker .constrained
          (.start (.listed order.side order.symbol order.size))).id = 3 := by
        rw [NewOrder.taker_of_new hid]
        rfl
      have hown : (NewOrder.void order.side order.symbol 0).toRow 1 1 ∈
          w'.db.tbl_order_books.rows := by
        rw [h.rows, NewOrder.inserted_rows_of_new hid, hdone,
          ← hplan.listed_untouched htaker]
        apply List.mem_map_of_mem
        apply List.mem_append_left
        exact List.mem_cons_self
      apply orderByLimit_ne_nil (by omega)
      apply List.ne_nil_of_mem
      exact List.mem_filter.mpr ⟨hown, decide_eq_true ⟨rfl, rfl, rfl⟩⟩
    obtain ⟨row, hrow⟩ := List.exists_mem_of_ne_nil _ hne
    have huid := howned.answered resp rfl row (hdata ▸ hrow)
    have hmem := mem_of_mem_orderByLimit hrow
    simp only [List.mem_filter, decide_eq_true_eq] at hmem
    exact huser (huid.symm.trans hmem.2.2.2)

end Failures

/-! ## The condition -/

theorem accepted_processed {order : NewOrder} (hadm : order.submitted.admissible = true)
    (w : World) : ∃ ws done, Processed .constrained order w
      ((handleOrder order).run (World.perform .constrained) w).1
      ((handleOrder order).run (World.perform .constrained) w).2 ws done := by
  rcases handleOrder_processed .constrained order w with ⟨hf, -, -⟩ | h
  · have haccepted : Op.admissible (.saveOrderBook order.submitted) = true := hadm
    simp [Env.constrained, haccepted] at hf
  · exact h

/-- The run of a request whose order the database refuses. -/
theorem refused_of_inadmissible {env : Env} (henv : env.RefusesInadmissible) {order : NewOrder}
    (hadm : order.submitted.admissible = false) (w : World) :
    env.fails w.calls (.saveOrderBook order.submitted) = true ∧
      ((handleOrder order).run (World.perform env) w).1 = .error .rejected := by
  have hf : env.fails w.calls (.saveOrderBook order.submitted) = true := henv _ _ hadm
  refine ⟨hf, ?_⟩
  rcases handleOrder_processed env order w with ⟨-, hr, -⟩ | ⟨ws, done, h⟩
  · exact hr
  · have haccepted := h.accepted
    rw [hf] at haccepted
    cases haccepted

/-- Outside the condition there is a state in which the request does not keep to its user. -/
theorem exists_not_owned {order : NewOrder} {userId : Nat}
    (hadm : order.submitted.admissible = true)
    (hcond : ¬ (order.id = none ∧ order.uid = userId ∧ userId = 1)) :
    ∃ w, ¬ Owned .constrained userId order w
      ((handleOrder order).run (World.perform .constrained) w).1
      ((handleOrder order).run (World.perform .constrained) w).2 := by
  cases hid : order.id with
  | some k =>
    -- the row that the order itself would become
    have hrows : (Tables.empty.saveOrderBook order 0).2.tbl_order_books.rows =
        [order.toRow k 0] := by
      simp [Tables.saveOrderBook, hid, Tables.empty, Table.empty, Table.add]
    obtain ⟨ws, done, h⟩ :=
      accepted_processed hadm (.start (Tables.empty.saveOrderBook order 0).2)
    refine ⟨_, h.not_owned_of_key hid ?_⟩
    change k ∈ (Tables.empty.saveOrderBook order 0).2.tbl_order_books.rows.map OrderBook.id
    rw [hrows]
    exact List.mem_singleton_self k
  | none =>
    by_cases huid : order.uid = userId
    · obtain ⟨ws, done, h⟩ := accepted_processed hadm
        (.start (.listed order.side order.symbol order.size))
      exact ⟨_, h.not_owned_of_listed hid hadm fun huser => hcond ⟨hid, huid, huser⟩⟩
    · obtain ⟨ws, done, h⟩ := accepted_processed hadm (.start .empty)
      exact ⟨_, h.not_owned_of_uid hid huid⟩

/-- User 1 gets the same answer to an order without a key in states that are the same for user 1. -/
theorem handleOrder_same_answer {env : Env} (henv : env.Constrained) {order : NewOrder}
    (hid : order.id = none) {w w' : World} (hsame : SameFor 1 order w w') :
    ((handleOrder order).run (World.perform env) w).1.toOption =
      ((handleOrder order).run (World.perform env) w').1.toOption := by
  rcases handleOrder_processed env order w with ⟨hf, hr, -⟩ | ⟨ws, done, h⟩ <;>
    rcases handleOrder_processed env order w' with ⟨hf', hr', -⟩ | ⟨ws', done', h'⟩
  · rw [hr, hr']
  · have haccepted := h'.accepted
    rw [← hsame.calls, hf] at haccepted
    cases haccepted
  · have haccepted := h.accepted
    rw [hsame.calls, hf'] at haccepted
    cases haccepted
  · exact h.same_answer h' henv hid hsame

/-- **Orders keep to their user** in every state exactly if the database refuses
the order, or user 1 sends a body that names no key and, if any, user 1. -/
theorem ownership_iff (endpoint : Endpoint) (userId : Nat) (body : OrderBody) :
    KeepsOwnership endpoint userId body ↔
      (endpoint.order userId body).submitted.admissible = false ∨
        (endpoint.order userId body).id = none ∧ (endpoint.order userId body).uid = userId ∧
          userId = 1 := by
  unfold KeepsOwnership
  simp only [Endpoint.serve_eq]
  generalize endpoint.order userId body = order
  constructor
  · rintro ⟨howned, -⟩
    by_contra hcond
    rw [not_or, Bool.not_eq_false] at hcond
    obtain ⟨w, hw⟩ := exists_not_owned hcond.1 hcond.2
    exact hw (howned .constrained Env.constrained_constrained.refuses w)
  · rintro (hadm | ⟨hid, huid, rfl⟩)
    · constructor
      · intro env henv w
        exact owned_of_refused (refused_of_inadmissible henv hadm w).1
          (handleOrder_processed env order w)
      · intro env henv w w' _
        rw [(refused_of_inadmissible henv.refuses hadm w).2,
          (refused_of_inadmissible henv.refuses hadm w').2]
    · constructor
      · intro env henv w
        rcases handleOrder_processed env order w with ⟨hf, hr, hw⟩ | ⟨ws, done, h⟩
        · exact owned_of_refused hf (.inl ⟨hf, hr, hw⟩)
        · exact h.owned hid huid
      · intro env henv w w' hsame
        exact handleOrder_same_answer henv hid hsame

theorem not_keepsOwnership_of_key {endpoint : Endpoint} {userId : Nat} {body : OrderBody} {k : Nat}
    {w : World} (hadm : (endpoint.order userId body).submitted.admissible = true)
    (hid : (endpoint.order userId body).id = some k)
    (hk : k ∈ w.db.tbl_order_books.rows.map OrderBook.id) :
    ¬ KeepsOwnership endpoint userId body := by
  rintro ⟨howned, -⟩
  obtain ⟨ws, done, h⟩ := accepted_processed hadm w
  have hw := howned .constrained Env.constrained_constrained.refuses w
  rw [Endpoint.serve_eq] at hw
  exact h.not_owned_of_key hid hk hw

/-- User 2 sends the key of an order of user 1, which becomes an order of user 2. -/
theorem order_of_other_user_overwritten :
    let w := World.start (Tables.traded.place [.btc 1 .SELL 10 1])
    let body : OrderBody :=
      { id := some 1, side := .SELL, symbol := "BTC/USDT", price := some 9, size := 1 }
    let w' := ((Endpoint.serve .Limit 2 body).run (World.perform .constrained) w).2
    w.db.tbl_order_books.rows.map (fun row => (row.id, row.uid, row.price)) = [(1, 1, some 10)] ∧
      w'.db.tbl_order_books.rows.map (fun row => (row.id, row.uid, row.price)) =
        [(1, 2, some 9)] ∧
      ¬ KeepsOwnership .Limit 2 body := by
  exact ⟨by decide +kernel, by decide +kernel,
    not_keepsOwnership_of_key (k := 1) (w := .start (Tables.traded.place [.btc 1 .SELL 10 1]))
      (by decide +kernel) rfl (by decide +kernel)⟩

end Exchange
