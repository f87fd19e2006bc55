import Exchange.OrderBook.Serve

/-!
# Starting to trade

Every emission reads the price of the symbol's last trade, and `saveOrder`
emits before its order is matched. Without a trade the emission raises: from
empty tables no trade is ever recorded, whatever is submitted
(`serveAll_noTrades`).
-/

namespace Exchange

open OrderBookService

/-- A limit BUY at `p` and a limit SELL at `q ≤ p` of the symbol were submitted. -/
def Crossing (symbol : String) (reqs : List Request) : Prop :=
  ∃ buy sell : LimitOrderDto, .limit buy ∈ reqs ∧ .limit sell ∈ reqs ∧
    buy.symbol = symbol ∧ sell.symbol = symbol ∧ buy.side = .BUY ∧ sell.side = .SELL ∧
    0 < buy.size ∧ 0 < sell.size ∧ sell.price ≤ buy.price

/-- A crossing pair leads to a trade, and no call raises. -/
def TradingStarts (env : Env) (symbol : String) (reqs : List Request) : Prop :=
  Crossing symbol reqs →
    (serveAll env reqs (.start .empty)).2.db.HasTrade symbol ∧
      ∀ r ∈ (serveAll env reqs (.start .empty)).1, r.isOk = true

def Tables.NoTrades (db : Tables) : Prop := db.tbl_trades.rows = []

theorem Tables.NoTrades.not_hasTrade {db : Tables} (h : db.NoTrades) (symbol : String) :
    ¬ db.HasTrade symbol := by
  rintro ⟨t, ht, -⟩
  rw [h] at ht
  simp at ht

theorem Tables.writeAll_trades {db : Tables} {ws : List Write}
    (h : ∀ wr ∈ ws, ∃ id u x, wr = .update id u x) :
    (db.writeAll ws).tbl_trades = db.tbl_trades := by
  induction ws generalizing db with
  | nil => rfl
  | cons wr ws ih =>
    rw [List.forall_mem_cons] at h
    obtain ⟨⟨id, u, x, rfl⟩, hws⟩ := h
    exact ih hws

theorem Tables.empty_noTrades : Tables.empty.NoTrades := rfl

/-- One request records no trade when there is none. -/
theorem serve_noTrades (env : Env) (req : Request) {w : World} (h : w.db.NoTrades) :
    (req.serve env w).2.db.NoTrades := by
  rcases serve_served env req w with ⟨-, -, hw⟩ | ⟨ws, done, hh⟩
  · rw [hw]
    exact h
  · have hup := hh.updates (h.not_hasTrade _)
    rw [hh.db, Tables.NoTrades, Tables.writeAll_trades hup, Request.inserted_trades]
    exact h

theorem serveAll_noTrades (env : Env) (reqs : List Request) {w : World} (h : w.db.NoTrades) :
    (serveAll env reqs w).2.db.NoTrades := by
  induction reqs generalizing w with
  | nil => exact h
  | cons req reqs ih => exact ih (serve_noTrades env req h)

/-- **Trading never starts.** From empty tables, a crossing pair leads to a
trade and to no raised call exactly when no crossing pair is submitted. -/
theorem tradingStarts_iff (env : Env) (symbol : String) (reqs : List Request) :
    TradingStarts env symbol reqs ↔ ¬ Crossing symbol reqs := by
  constructor
  · intro h hc
    have hT := (h hc).1
    have hno := serveAll_noTrades env reqs (w := .start .empty) Tables.empty_noTrades
    exact hno.not_hasTrade symbol hT
  · intro h hc
    exact absurd hc h

/-- A BUY and a SELL at one price: both calls raise and nothing is traded. -/
theorem crossing_pair_not_traded :
    let reqs : List Request :=
      [.limit ⟨1, .BUY, "BTC/USDT", 10, 1⟩, .limit ⟨2, .SELL, "BTC/USDT", 10, 1⟩]
    Env.steady.Reliable ∧ Crossing "BTC/USDT" reqs ∧ ¬ TradingStarts .steady "BTC/USDT" reqs := by
  refine ⟨Env.steady_reliable, ?_⟩
  have hc : Crossing "BTC/USDT"
      [.limit ⟨1, .BUY, "BTC/USDT", 10, 1⟩, .limit ⟨2, .SELL, "BTC/USDT", 10, 1⟩] :=
    ⟨_, _, List.mem_cons_self .., List.mem_cons_of_mem _ (List.mem_cons_self ..), rfl, rfl, rfl,
      rfl, by decide, by decide, le_refl _⟩
  refine ⟨hc, fun h => ?_⟩
  obtain ⟨-, hok⟩ := h hc
  revert hok
  decide +kernel

end Exchange
