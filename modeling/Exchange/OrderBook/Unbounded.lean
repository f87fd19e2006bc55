import Exchange.OrderBook.Reference

/-!
# Market orders as limit orders without a bound

The four matchers run in lock-step as long as none of them stops: their plans
have the same effects on deals, sizes and flags (`Plan.effects_eq`), whatever
prices they write to the fills. A limit that no resting price is beyond should
stop none of them, but prices are compared as texts: a market BUY takes a SELL
at 9 that a BUY at 10 leaves (`limit_stops_short`).

`asUnbounded_iff`: a market order does what a limit order without a bound does
iff the limit matcher lets through each order that the market matcher takes from.
-/

namespace Exchange

open Async Proc OrderBookService Store

/-! ## Effects -/

/-- What a write does to deals, sizes and flags. -/
inductive Effect where
  | none
  | update (id : Nat) (size : ℚ) (is_filled : Option Bool)
  | trade (deal : Deal)
  deriving DecidableEq

def Write.effect : Write → Effect
  | .order .. => .none
  | .update id u _ => .update id u.size u.is_filled
  | .trade t _ => .trade t.deal

def Effect.deal : Effect → Option Deal
  | .trade deal => some deal
  | _ => Option.none

/-- Key, size and flag of a row. -/
structure Standing where
  id : Nat
  size : ℚ
  is_filled : Bool
  deriving DecidableEq

def OrderBook.standing (row : OrderBook) : Standing := ⟨row.id, row.size, row.is_filled⟩

def Effect.onStanding : Effect → Standing → Standing
  | .update id size is_filled, s =>
      if s.id = id then ⟨s.id, roundTo 8 size, is_filled.getD s.is_filled⟩ else s
  | _, s => s

theorem Write.standing_onRow (wr : Write) (row : OrderBook) :
    (wr.onRow row).standing = wr.effect.onStanding row.standing := by
  cases wr with
  | order o now => rfl
  | trade t x => rfl
  | update id u x =>
    simp only [Write.onRow, Write.effect, Effect.onStanding, OrderBook.standing]
    split <;> rfl

theorem standing_rowAfter (ws : List Write) (row : OrderBook) :
    (rowAfter ws row).standing =
      (ws.map Write.effect).foldl (fun s e => e.onStanding s) row.standing := by
  induction ws generalizing row with
  | nil => rfl
  | cons wr ws ih =>
    change (rowAfter ws (wr.onRow row)).standing = _
    rw [ih, Write.standing_onRow]
    rfl

theorem deals_eq_effects (ws : List Write) :
    ws.filterMap Write.deal = (ws.map Write.effect).filterMap Effect.deal := by
  rw [List.filterMap_map]
  apply List.filterMap_congr
  intro wr _
  cases wr <;> rfl

/-- Writes with the same effects make the same of every row. -/
theorem standings_eq {ws ws' : List Write} (h : ws.map Write.effect = ws'.map Write.effect)
    (hws : ∀ wr ∈ ws, wr.Matching) (hws' : ∀ wr ∈ ws', wr.Matching) (db : Tables) :
    (db.writeAll ws).tbl_order_books.rows.map OrderBook.standing =
      (db.writeAll ws').tbl_order_books.rows.map OrderBook.standing := by
  rw [Tables.writeAll_rows hws, Tables.writeAll_rows hws', List.map_map, List.map_map]
  apply List.map_congr_left
  intro row _
  simp only [Function.comp, standing_rowAfter, h]

/-! ## Lock-step -/

/-- Two orders that the matchers cannot tell apart but by their prices. -/
structure SameDemand (order order' : OrderBook) : Prop where
  id : order.id = order'.id
  uid : order.uid = order'.uid
  size : order.size = order'.size

section Plans

variable {m m' : Matcher} {order order' r : OrderBook} {L : List OrderBook}
  {ws ws' : List Write}

theorem SameDemand.rest (h : SameDemand order order') (r : OrderBook) :
    SameDemand (m.rest order r) (m'.rest order' r) where
  id := h.id
  uid := h.uid
  size := by simp only [Matcher.rest_size, h.size]

theorem SameDemand.deal (h : SameDemand order order') (hside : m.side = m'.side) (q : ℚ)
    (is_buyer is_buyer' now now' : Nat) :
    (m.trade order r q is_buyer now).deal = (m'.trade order' r q is_buyer' now').deal := by
  simp only [NewTrade.deal, Matcher.trade, h.uid, hside]

theorem SameDemand.effect_fullWrites (h : SameDemand order order') (hside : m.side = m'.side)
    (t₁ t₂ t₃ t₁' t₂' t₃' : Nat) :
    (m.fullWrites order r t₁ t₂ t₃).map Write.effect =
      (m'.fullWrites order' r t₁' t₂' t₃').map Write.effect := by
  have hdeal := h.deal (r := r) hside order'.size m.full_is_buyer m'.full_is_buyer t₂ t₂'
  by_cases h0 : Double.sub r.size order'.size = 0 <;>
    simp [Matcher.fullWrites, Write.effect, h.id, h.size, h0, hdeal]

theorem SameDemand.effect_partWrites (h : SameDemand order order') (hside : m.side = m'.side)
    (t₁ t₂ t₁' t₂' : Nat) :
    (m.partWrites order r t₁ t₂).map Write.effect =
      (m'.partWrites order' r t₁' t₂').map Write.effect := by
  have hdeal := h.deal (r := r) hside r.size m.part_is_buyer m'.part_is_buyer t₂ t₂'
  simp [Matcher.partWrites, Write.effect, h.id, h.size, hdeal]

/-- **Lock-step.** Plans of one demand over one snapshot have the same effects, if the first
never stops and the second does not stop before what the first takes. -/
theorem Plan.effects_eq (h : Plan m order L ws) (h' : Plan m' order' L ws')
    (hside : m.side = m'.side) (hsame : SameDemand order order')
    (hgo : ∀ price r, m.halts price r = false)
    (hgo' : ∀ f ∈ Plan.fills m order L, m'.halts order'.held f.1 = false) :
    ws.map Write.effect = ws'.map Write.effect := by
  induction h generalizing order' ws' with
  | nil =>
    cases h'
    rfl
  | @stop order r L h =>
    rw [hgo] at h
    cases h
  | @full order r L t₁ t₂ t₃ h hs =>
    rw [Plan.fills_full h hs, List.forall_mem_singleton] at hgo'
    obtain ⟨t₁', t₂', t₃', rfl⟩ := h'.of_full hgo' (hsame.size ▸ hs)
    exact hsame.effect_fullWrites hside ..
  | @part order r L ws t₁ t₂ h hs hp ih =>
    rw [Plan.fills_part h hs, List.forall_mem_cons] at hgo'
    obtain ⟨t₁', t₂', rest, rfl, hp'⟩ := h'.of_part hgo'.1 (hsame.size ▸ hs)
    rw [List.map_append, List.map_append, ih hp' (hsame.rest r) hgo'.2,
      hsame.effect_partWrites hside t₁ t₂ t₁' t₂']

/-- As many deals are made only if the second does not stop before what the first takes. -/
theorem Plan.go_of_deals (h : Plan m order L ws) (h' : Plan m' order' L ws')
    (hsame : SameDemand order order') (hgo : ∀ price r, m.halts price r = false)
    (hdeals : ws.filterMap Write.deal = ws'.filterMap Write.deal) :
    ∀ f ∈ Plan.fills m order L, m'.halts order'.held f.1 = false := by
  have hlength := congrArg List.length hdeals
  rw [h.deals, h'.deals, List.length_map, List.length_map] at hlength
  unfold Plan.fills at hlength ⊢
  rw [← hsame.size] at hlength
  exact Greedy.go_of_length_le (hgo _) hlength.le

end Plans

/-! ## Market and limit -/

/-- The order as a limit order with limit `p`. -/
def OrderBook.withLimit (order : OrderBook) (p : ℚ) : OrderBook :=
  { order with type := .Limit, price := some p }

/-- No order of the list is beyond the limit. -/
def OrderBook.Unbounded (order : OrderBook) (p : ℚ) (L : List OrderBook) : Prop :=
  ∀ r ∈ L, match order.side with
    | .BUY => number r.price ≤ p
    | .SELL => p ≤ number r.price

def OrderBook.marketMatcher (order : OrderBook) : Matcher :=
  if order.side = .BUY then marketBuyMatcher else marketSellMatcher

section Market

variable {order : OrderBook} {w : World} {p : ℚ} {L : List OrderBook}

theorem OrderBook.marketMatcher_side : order.marketMatcher.side = order.side := by
  unfold marketMatcher
  cases order.side <;> rfl

theorem OrderBook.marketMatcher_consistent : order.marketMatcher.Consistent := by
  unfold marketMatcher
  split
  · exact marketBuyMatcher_consistent
  · exact marketSellMatcher_consistent

theorem OrderBook.marketMatcher_halts (price : Text.Value) (r : OrderBook) :
    order.marketMatcher.halts price r = false := by
  unfold marketMatcher
  split <;> rfl

/-- What a market matcher takes from whom. -/
def OrderBook.marketTakes (order : OrderBook) (L : List OrderBook) : List (OrderBook × ℚ) :=
  Greedy.fills doubles (fun _ => false) OrderBook.size order.size L.reverse

theorem OrderBook.marketTakes_eq :
    Plan.fills order.marketMatcher order L.reverse = order.marketTakes L := by
  unfold Plan.fills marketTakes
  congr 1
  funext r
  exact marketMatcher_halts _ r

/-- The limit matcher lets through each order that the market matcher takes from. -/
def OrderBook.LetsThrough (order : OrderBook) (p : ℚ) (L : List OrderBook) : Prop :=
  ∀ f ∈ order.marketTakes L,
    (order.withLimit p).limitMatcher.halts (order.withLimit p).held f.1 = false

instance (p : ℚ) : Decidable (order.LetsThrough p L) := inferInstanceAs (Decidable (∀ f ∈ _, _))

/-- The same deals were made in both tables, and their rows have the same sizes and flags. -/
structure SameEffects (db db₁ db₂ : Tables) : Prop where
  deals : ∃ rows₁ rows₂, db₁.tbl_trades.rows = db.tbl_trades.rows ++ rows₁ ∧
    db₂.tbl_trades.rows = db.tbl_trades.rows ++ rows₂ ∧
    rows₁.map Trade.deal = rows₂.map Trade.deal
  standings : db₁.tbl_order_books.rows.map OrderBook.standing =
    db₂.tbl_order_books.rows.map OrderBook.standing

theorem World.held_of_ne_nil {i : Nat} (h : w.array i ≠ []) : i < w.arrays.length := by
  by_contra hout
  apply h
  unfold World.array
  rw [List.getD_eq_getElem?_getD, List.getElem?_eq_none (not_lt.mp hout), Option.getD_none]

/-- What a market match without failures leaves behind. -/
theorem matchMarketOrder_complete {env : Env} (henv : env.Reliable)
    (hL : w.array (w.side order.side.opposite) ≠ []) (hT : w.db.HasTrade order.symbol) :
    wp (World.perform env) (matchMarketOrder order) (fun r w' => r = .ok ⟨true, "Ok"⟩ ∧
      ∃ ws, Plan order.marketMatcher order (w.array (w.side order.side.opposite)).reverse ws ∧
        w'.db = w.db.writeAll ws) w := by
  rw [← OrderBook.marketMatcher_side] at hL ⊢
  rw [matchMarketOrder_eq]
  apply wp_mono (matcher_complete henv OrderBook.marketMatcher_consistent order
    (World.held_of_ne_nil hL) hT)
  rintro r w' ⟨ws, hplan, rfl, hdb, -⟩
  refine ⟨?_, ws, hplan, hdb⟩
  obtain ⟨r, L, hL'⟩ := List.exists_cons_of_ne_nil (List.reverse_ne_nil_iff.mpr hL)
  rw [hL'] at hplan
  have hne := hplan.ne_nil (OrderBook.marketMatcher_halts _ r)
  exact congrArg _ (if_neg hne)

/-- Two plans on one database that have the same deals and standings have the same effects. -/
theorem sameEffects_of_effects {ws ws' : List Write} (hws : ∀ wr ∈ ws, wr.Matching)
    (hws' : ∀ wr ∈ ws', wr.Matching) (h : ws.map Write.effect = ws'.map Write.effect)
    (db : Tables) : SameEffects db (db.writeAll ws) (db.writeAll ws') := by
  refine ⟨?_, standings_eq h hws hws' db⟩
  obtain ⟨rows, hrows, hdeals⟩ := db.writeAll_deals hws
  obtain ⟨rows', hrows', hdeals'⟩ := db.writeAll_deals hws'
  refine ⟨rows, rows', hrows, hrows', ?_⟩
  rw [hdeals, hdeals', deals_eq_effects, deals_eq_effects, h]

theorem SameEffects.deals_eq {ws ws' : List Write} (hws : ∀ wr ∈ ws, wr.Matching)
    (hws' : ∀ wr ∈ ws', wr.Matching) {db : Tables}
    (h : SameEffects db (db.writeAll ws) (db.writeAll ws')) :
    ws.filterMap Write.deal = ws'.filterMap Write.deal := by
  obtain ⟨rows₁, rows₂, h₁, h₂, hsame⟩ := h.deals
  obtain ⟨rows, hrows, hdeals⟩ := db.writeAll_deals hws
  obtain ⟨rows', hrows', hdeals'⟩ := db.writeAll_deals hws'
  obtain rfl : rows = rows₁ := List.append_cancel_left (hrows.symm.trans h₁)
  obtain rfl : rows' = rows₂ := List.append_cancel_left (hrows'.symm.trans h₂)
  rw [← hdeals, ← hdeals', hsame]

/-- **A market order is a limit order without a bound** iff the limit matcher lets through
each order that the market matcher takes from. -/
theorem asUnbounded_iff {env env' : Env} (henv : env.Reliable) (henv' : env'.Reliable)
    (hL : w.array (w.side order.side.opposite) ≠ []) (hT : w.db.HasTrade order.symbol) :
    let market := (matchMarketOrder order).run (World.perform env) w
    let limit := (matchLimitOrder (order.withLimit p)).run (World.perform env') w
    market.1 = .ok ⟨true, "Ok"⟩ ∧ limit.1 = .ok ⟨true, "Ok"⟩ ∧
      (SameEffects w.db market.2.db limit.2.db ↔
        order.LetsThrough p (w.array (w.side order.side.opposite))) := by
  intro market limit
  obtain ⟨hok, ws, hplan, hdb⟩ := matchMarketOrder_complete henv hL hT
  have hlimit : wp (World.perform env') (matchLimitOrder (order.withLimit p)) _ w :=
    matchLimitOrder_complete henv' (World.held_of_ne_nil hL) hT
  obtain ⟨hok', ws', hplan', hdb', -⟩ := hlimit
  change market.2.db = _ at hdb
  change limit.2.db = _ at hdb'
  have hsame : SameDemand order (order.withLimit p) := ⟨rfl, rfl, rfl⟩
  refine ⟨hok, hok', ?_⟩
  rw [hdb, hdb', OrderBook.LetsThrough, ← OrderBook.marketTakes_eq]
  constructor
  · intro heffects
    exact hplan.go_of_deals hplan' hsame OrderBook.marketMatcher_halts
      (heffects.deals_eq hplan.matching hplan'.matching)
  · intro hgo
    apply sameEffects_of_effects hplan.matching hplan'.matching
    exact hplan.effects_eq hplan' (OrderBook.marketMatcher_side.trans
      OrderBook.limitMatcher_side.symm) hsame OrderBook.marketMatcher_halts hgo

end Market

/-- A market BUY of 2 does what a BUY of 2 at 11 does. -/
theorem market_as_unbounded :
    let order := { toMatch 2 with type := .Market, price := none }
    let w := World.toMatch 2
    let market := (matchMarketOrder order).run (World.perform .steady) w
    let limit := (matchLimitOrder (order.withLimit 11)).run (World.perform .steady) w
    SameEffects w.db market.2.db limit.2.db := by
  intro order w market limit
  have hL : w.array (w.side order.side.opposite) ≠ [] := by decide +kernel
  have hT : w.db.HasTrade "BTC/USDT" := by
    unfold Tables.HasTrade
    decide +kernel
  exact (asUnbounded_iff Env.steady_reliable Env.steady_reliable hL hT).2.2.mpr (by decide +kernel)

/-- A SELL of 1 at 9 and the row of a BUY of 1. -/
def World.cheap : World :=
  { World.start (Tables.traded.place [.btc 1 .SELL 9 1, .btc 2 .BUY 10 1]) with
    arrays := [[], [(NewOrder.btc 1 .SELL 9 1).toRow 1 1]] }

/-- A market BUY takes the SELL at 9, a BUY at 10 does not. -/
theorem limit_stops_short :
    let order := { (NewOrder.btc 2 .BUY 10 1).saved 2 2 with type := .Market, price := none }
    let L := World.cheap.array (World.cheap.side order.side.opposite)
    let market := (matchMarketOrder order).run (World.perform .steady) World.cheap
    let limit := (matchLimitOrder (order.withLimit 10)).run (World.perform .steady) World.cheap
    Env.steady.Reliable ∧ L ≠ [] ∧ order.Unbounded 10 L ∧
      (∀ r ∈ L, r.price.isSome = true ∧ 0 < r.size) ∧ 0 < order.size ∧
      World.cheap.db.HasTrade order.symbol ∧
      ¬ SameEffects World.cheap.db market.2.db limit.2.db := by
  intro order L market limit
  refine ⟨Env.steady_reliable, ?_, ?_, ?_, ?_, ?_, ?_⟩
  case refine_2 =>
    change ∀ r ∈ L, number r.price ≤ 10
    decide +kernel
  case refine_6 =>
    intro h
    exact absurd h.standings (by decide +kernel)
  all_goals
    try unfold Tables.HasTrade
    decide +kernel

end Exchange
