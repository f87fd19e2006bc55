import Exchange.OrderBook.Walk

/-!
# Crossed books

An incoming limit order rests with what its match leaves of it. The match only
sees the hundred orders that were fetched, so a deep book is left crossed
(`deep_book_crossed`), and it compares the texts of prices, so a BUY at 100 rests
above a SELL at 95.

`uncrossed_of_seesCrossing`: the book stays uncrossed along every run of limit
orders in which each order is covered by what it may take, or sees every order
it crosses.
-/

namespace Exchange

open OrderBookService Store

/-- Both prices are there and the first is strictly below the second. -/
def priceLt : Option ℚ → Option ℚ → Bool
  | some p, some q => p < q
  | _, _ => false

/-- Every open BUY is priced strictly below every open SELL of its symbol. -/
def Tables.Uncrossed (db : Tables) : Prop :=
  ∀ b ∈ db.tbl_order_books.rows, b.side = .BUY → b.is_filled = false →
    ∀ s ∈ db.tbl_order_books.rows, s.side = .SELL → s.is_filled = false → s.symbol = b.symbol →
      priceLt b.price s.price = true

/-- An order of this side at `p` crosses a resting order of the other side at `q`. -/
def Side.crosses (side : Side) (p q : Option ℚ) : Bool :=
  match side with
  | .BUY => !priceLt p q
  | .SELL => !priceLt q p

/-- What the request may take covers it. -/
def Request.covered (req : Request) (w : World) : Bool :=
  Greedy.covered doubles (req.matcher.halts req.held) OrderBook.size req.size (req.resting w)

/-- The orders the request may take: fetched, and walked before the first whose price,
as it compares with that of the request, ends the walk. -/
def Request.within (req : Request) (w : World) : List OrderBook :=
  Greedy.reach (req.matcher.halts req.held) (req.resting w)

/-- The condition on a step: what the order may take covers it, or every order
that crosses its stored price is among what it may take. -/
def SeesCrossing (req : Request) (w : World) : Prop :=
  req.covered w = true ∨
    ∀ r ∈ w.db.openOrders req.side.opposite req.symbol,
      req.side.crosses (req.price.map (roundTo 8)) r.price = true → r ∈ req.within w

/-! ## The step and the run -/

variable {env : Env} {w : World} {dto : LimitOrderDto}

/-- If the order is left open, it crosses no order left open on the other side. -/
theorem rest_not_crossing {w' : World} {r : Except Err Response} {ws done : List Write}
    (hh : Handled env (.limit dto) w r w' ws done) (hdone : done = ws)
    (hC : SeesCrossing (.limit dto) w) {x : OrderBook}
    (hx : x ∈ w.db.openOrders dto.side.opposite dto.symbol)
    (hopen : (rowAfter done x).is_filled = false)
    (hown : (rowAfter done ((Request.limit dto).row env w)).is_filled = false) :
    dto.side.crosses (some (roundTo 8 dto.price)) x.price = false := by
  have hncov : ¬ Plan.Covered (Request.limit dto).matcher ((Request.limit dto).taker env w)
      ((Request.limit dto).resting w) := by
    intro hcov
    have hcloses : Closes done ((Request.limit dto).row env w).id :=
      hdone ▸ hh.plan.closes_order hcov
    rw [rowAfter_closed hh.matching hcloses] at hown
    cases hown
  rcases hC with hcov | hsees
  · exact absurd hcov hncov
  · cases hc : dto.side.crosses (some (roundTo 8 dto.price)) x.price with
    | false => rfl
    | true =>
      have hcloses : Closes done x.id := hdone ▸ hh.plan.closes_reached hncov x (hsees x hx hc)
      rw [rowAfter_closed hh.matching hcloses] at hopen
      cases hopen

/-- One limit order that meets its condition leaves the book uncrossed. -/
theorem serve_uncrossed (henv : env.Reliable) (hT : w.db.HasTrade dto.symbol)
    (hb : w.db.Uncrossed) (hC : SeesCrossing (.limit dto) w) :
    ((Request.limit dto).serve env w).2.db.Uncrossed := by
  rcases serve_served env (.limit dto) w with ⟨hf, -⟩ | ⟨ws, done, hh⟩
  · rw [henv] at hf
    cases hf
  have hdone := hh.complete hT (fun n o _ => henv n o) (fun wr _ n => henv n wr.op)
  have hrow : ∀ r' ∈ ((Request.limit dto).serve env w).2.db.tbl_order_books.rows,
      ∃ r, r' = rowAfter done r ∧ Worked r r' ∧
        (r ∈ w.db.tbl_order_books.rows ∨ r = (Request.limit dto).row env w) := by
    intro r' hr'
    rw [hh.rows] at hr'
    obtain ⟨r, hr, rfl⟩ := List.mem_map.mp hr'
    refine ⟨r, rfl, rowAfter_worked hh.matching r, ?_⟩
    simpa using hr
  intro b' hb' hbs hbo s' hs' hss hso hsym
  obtain ⟨b, hbeq, hbw, hbm⟩ := hrow b' hb'
  obtain ⟨s, hseq, hsw, hsm⟩ := hrow s' hs'
  rw [hbw.side] at hbs
  rw [hsw.side] at hss
  rw [hsw.symbol, hbw.symbol] at hsym
  rw [hbw.price, hsw.price]
  rcases hbm with hbm | rfl <;> rcases hsm with hsm | rfl
  · exact hb b hbm hbs (hbw.open hbo) s hsm hss (hsw.open hso) hsym
  · have hside : dto.side = .SELL := hss
    have hx : b ∈ w.db.openOrders dto.side.opposite dto.symbol := by
      rw [Tables.mem_openOrders, hside]
      exact ⟨hbm, hbs, hsym.symm, hbw.open hbo⟩
    have := rest_not_crossing hh hdone hC hx (hbeq ▸ hbo) (hseq ▸ hso)
    simpa [Side.crosses, hside, Request.price] using this
  · have hside : dto.side = .BUY := hbs
    have hx : s ∈ w.db.openOrders dto.side.opposite dto.symbol := by
      rw [Tables.mem_openOrders, hside]
      exact ⟨hsm, hss, hsym, hsw.open hso⟩
    have := rest_not_crossing hh hdone hC hx (hseq ▸ hso) (hbeq ▸ hbo)
    simpa [Side.crosses, hside, Request.price] using this
  · rw [hbs] at hss
    cases hss

/-- **The book stays uncrossed** along a run of limit orders in which each is
covered by what it may take, or sees every order it crosses. -/
theorem uncrossed_of_seesCrossing (henv : env.Reliable) {orders : List LimitOrderDto}
    (hb : w.db.Uncrossed) (hT : ∀ dto ∈ orders, w.db.HasTrade dto.symbol)
    (hC : StepsMeet env SeesCrossing (orders.map .limit) w) :
    (serveAll env (orders.map .limit) w).2.db.Uncrossed := by
  have hC' := hC.and_forall (P := fun req => ∃ dto ∈ orders, req = .limit dto) (by simp)
  have hrun := serveAll_invariant env
    (I := fun w => w.db.Uncrossed ∧ ∀ dto ∈ orders, w.db.HasTrade dto.symbol)
    (fun req w hI hC => ?_) ⟨hb, hT⟩ hC'
  · exact hrun.1
  · obtain ⟨hC, dto, hdto, rfl⟩ := hC
    exact ⟨serve_uncrossed henv (hI.2 dto hdto) hI.1 hC,
      fun dto' hdto' => serve_hasTrade (hI.2 dto' hdto')⟩

/-- A BUY that takes one of two levels and rests with half of its size. -/
theorem uncrossed_after_partial_fill :
    (serveAll .steady [.limit ⟨3, .BUY, "BTC/USDT", 10, 2⟩]
      (.start (Tables.traded.place
        [.btc 1 .SELL 11 1, .btc 1 .SELL 10 1, .btc 2 .BUY 9 1]))).2.db.Uncrossed := by
  refine @uncrossed_of_seesCrossing .steady _ Env.steady_reliable
    [⟨3, .BUY, "BTC/USDT", 10, 2⟩] ?_ ?_ ⟨.inr ?_, trivial⟩
  · unfold Tables.Uncrossed
    decide +kernel
  · unfold Tables.HasTrade
    decide +kernel
  · decide +kernel

-- a BUY at 100 takes nothing of a SELL at 95
example :
    let w := World.start (Tables.traded.place [.btc 1 .SELL 95 1])
    w.db.Uncrossed ∧
      ¬ (serveAll .steady [.limit ⟨2, .BUY, "BTC/USDT", 100, 1⟩] w).2.db.Uncrossed := by
  unfold Tables.Uncrossed
  decide +kernel

/-- On the deep book a BUY at 1 rests beside the SELL at 1. -/
theorem deep_book_crossed :
    let w := World.start .deep
    w.db.Uncrossed ∧ w.db.HasTrade "BTC/USDT" ∧
      ¬ (serveAll .steady [.limit ⟨2, .BUY, "BTC/USDT", 1, 1⟩] w).2.db.Uncrossed := by
  refine ⟨?_, ?_, ?_⟩
  · unfold Tables.Uncrossed
    decide +kernel
  · unfold Tables.HasTrade
    decide +kernel
  · unfold Tables.Uncrossed
    decide +kernel

end Exchange
