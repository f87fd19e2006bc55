import Exchange.OrderBook.Interleaving

/-!
# Isolation of symbols

The book is one field of the service, loaded for one symbol at a time and
picked up by a matcher after further awaits. A match stays within its symbol
along every run in which each matcher picks up orders of its own symbol
(`isolated_of_ownSymbol`); a reload for another symbol between the two breaks
it (`foreign_order_executed`).
-/

namespace Exchange

open Async Store

/-- A write made while matching only concerns rows of the symbol matched. -/
def Write.Isolated (db : Tables) : Write → Prop
  | .order .. => True
  | .update id _ x => ∀ r ∈ db.tbl_order_books.rows, r.id = id → r.symbol = x.taker.symbol
  | .trade t x => t.symbol = x.taker.symbol ∧ ∀ r ∈ db.tbl_order_books.rows,
      r.id = x.taker.id ∨ r.id = x.maker.id → r.symbol = t.symbol

instance (db : Tables) : DecidablePred (Write.Isolated db)
  | .order .. => inferInstanceAs (Decidable True)
  | .update id _ x => inferInstanceAs
      (Decidable (∀ r ∈ db.tbl_order_books.rows, r.id = id → r.symbol = x.taker.symbol))
  | .trade t x => inferInstanceAs (Decidable (t.symbol = x.taker.symbol ∧
      ∀ r ∈ db.tbl_order_books.rows, r.id = x.taker.id ∨ r.id = x.maker.id → r.symbol = t.symbol))

def Entry.Isolated (e : Entry) : Prop := e.write.Isolated e.before

instance : DecidablePred Entry.Isolated := fun e =>
  inferInstanceAs (Decidable (e.write.Isolated e.before))

/-- The matcher picked up orders of its own symbol only. -/
def Capture.OwnSymbol (c : Capture) : Prop := ∀ r ∈ c.orders, r.symbol = c.order.symbol

theorem Tables.Has.symbol {db : Tables} {r row : OrderBook} (h : db.Has r)
    (hrow : row ∈ db.tbl_order_books.rows) (hid : row.id = r.id) : row.symbol = r.symbol := by
  obtain ⟨r', hr', hs⟩ := h
  have heq : row = r' := Table.eq_of_key hrow hr' (hid.trans hs.id.symm)
  rw [heq, hs.symbol]

/-- The two orders of an execution have the taker's symbol. -/
theorem Execution.Known.symbol {x : Execution} {db : Tables} {captures : List Capture}
    (hx : x.Known db captures) (hC : ∀ c ∈ captures, c.OwnSymbol) {row : OrderBook}
    (hrow : row ∈ db.tbl_order_books.rows) (hid : row.id = x.taker.id ∨ row.id = x.maker.id) :
    row.symbol = x.taker.symbol := by
  rcases hid with hid | hid
  · exact hx.taker.symbol hrow hid
  · obtain ⟨c, hc, hsym, r, hr, hs⟩ := hx.captured
    have hmaker : row.symbol = x.maker.symbol := hx.maker.symbol hrow hid
    have hown : r.symbol = c.order.symbol := hC c hc r hr
    rw [hmaker, hs.symbol, hown, hsym]

theorem Entry.Sound.isolated {pos : Prop} {captures : List Capture} {e : Entry}
    (h : e.Sound pos captures) (hC : ∀ c ∈ captures, c.OwnSymbol) : e.Isolated := by
  unfold Entry.Sound at h
  unfold Entry.Isolated Write.Isolated
  cases hw : e.write with
  | order o now => trivial
  | update id u x =>
    rw [hw] at h
    obtain ⟨hid, hx⟩ := h
    intro row hrow hrid
    apply hx.symbol hC hrow
    rw [hrid]
    exact hid
  | trade t x =>
    rw [hw] at h
    obtain ⟨ht, hx⟩ := h
    refine ⟨ht.symbol, ?_⟩
    intro row hrow hid
    rw [ht.symbol]
    exact hx.symbol hC hrow hid

/-- **Symbols are isolated** along every interleaving in which each matcher
picks up orders of its own symbol. -/
theorem isolated_of_ownSymbol (env : Env) (db : Tables) (calls : List Call) (schedule : List Nat)
    (hC : ∀ c ∈ (interleave env db calls schedule).captures, c.OwnSymbol) :
    ∀ e ∈ (interleave env db calls schedule).journal, e.Isolated := by
  obtain ⟨ws, -, hj, hsound⟩ := (interleave_step env db calls schedule).log
  intro e he
  rw [hj] at he
  have hmem : e ∈ (World.start db).db.entries ws := by simpa [World.start] using he
  exact (hsound e hmem).isolated hC

/-- An order for BTC/ETH, as `handleOrder` saves it. -/
def NewOrder.eth (uid : Nat) (side : Side) (price size : ℚ) : NewOrder :=
  { NewOrder.btc uid side price size with symbol := "BTC/ETH" }

/-- A BUY of BTC/USDT that trades, its request interleaved with a reload for
BTC/ETH that comes before the last one of its own. -/
theorem isolated_reload_before :
    let w := interleave .steady (Tables.traded.place [.btc 1 .SELL 10 1, .eth 1 .SELL 10 1])
      [.order (.limit ⟨2, .BUY, "BTC/USDT", 10, 1⟩), .orderbooks]
      ([0, 0, 0, 1, 1] ++ List.replicate 40 0)
    (∃ t ∈ w.db.tbl_trades.rows, t.buyer_id = 2) ∧ ∀ e ∈ w.journal, e.Isolated := by
  constructor
  · decide +kernel
  · apply isolated_of_ownSymbol
    unfold Capture.OwnSymbol
    decide +kernel

/-- `GET /orderbooks` reloads the book for BTC/ETH after the last reload of a BUY
of BTC/USDT and before its matcher picks it up: the BUY is executed against the
SELL of BTC/ETH. -/
theorem foreign_order_executed :
    ∃ e ∈ (interleave .steady (Tables.traded.place [.eth 1 .SELL 10 1])
      [.order (.limit ⟨2, .BUY, "BTC/USDT", 10, 1⟩), .orderbooks]
      ([0, 0, 0, 0, 0, 1, 1] ++ List.replicate 40 0)).journal, ¬ e.Isolated := by
  decide +kernel

end Exchange
