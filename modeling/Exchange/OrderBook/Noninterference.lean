import Exchange.OrderBook.Emission
import Exchange.Store.Query

/-!
# Market data and the trades of other symbols

Of the five queries behind a broadcast, the aggregates of the day and the price before it
are not restricted to the symbol. Two states of the tables with the same rows of the symbol
give the same broadcast iff the trades of other symbols agree in what these two queries
see of them (`sameBroadcast_iff`).
-/

namespace Exchange

open Async Proc OrderBookService Store

namespace Tables

variable (symbol : String) (db db' : Tables) (now : Nat)

/-- The rows of the symbol are the same. -/
structure SameRows : Prop where
  orders : (db.tbl_order_books.rows.filter fun r => r.symbol = symbol) =
    db'.tbl_order_books.rows.filter fun r => r.symbol = symbol
  trades : (db.tbl_trades.rows.filter fun t => t.symbol = symbol) =
    db'.tbl_trades.rows.filter fun t => t.symbol = symbol

/-- The trades of other symbols in the last day. -/
def others : List Trade := (db.recent now).filter fun t => !decide (t.symbol = symbol)

/-- Every price of another symbol in the last day is at `le` of one in the other tables. -/
def Reaches (le : ℚ → ℚ → Prop) : Prop :=
  ∀ p ∈ (db.others symbol now).filterMap Trade.price,
    ∃ q ∈ (db'.recent now).filterMap Trade.price, le q p

/-- The other symbols have the same share in the aggregates of the day. -/
structure DayAgrees : Prop where
  empty : db.recent now = [] ↔ db'.recent now = []
  size : ((db.others symbol now).map Trade.size).sum = ((db'.others symbol now).map Trade.size).sum
  volume : ((db.others symbol now).map Trade.volume).sum =
    ((db'.others symbol now).map Trade.volume).sum
  low : Reaches symbol db db' now (· ≤ ·) ∧ Reaches symbol db' db now (· ≤ ·)
  high : Reaches symbol db db' now (· ≥ ·) ∧ Reaches symbol db' db now (· ≥ ·)

/-- The latest trades that are older than a day have the same price; none counts as zero. -/
def BeforeAgrees : Prop :=
  ((latest (db.old now)).map fun t => number t.price).getD 0 =
    ((latest (db'.old now)).map fun t => number t.price).getD 0

end Tables

open Tables

/-- Both broadcast the same, the second over the tables `db'`. -/
def SameBroadcast (clock : Nat → Nat) (symbol : String) (w : World) (db' : Tables) : Prop :=
  ∃ m : Message, Emits clock symbol w m ∧ Emits clock symbol { w with db := db' } m

variable {clock : Nat → Nat} {w : World} {symbol : String} {db db' : Tables} {now day before : Nat}

/-! ## Queries that are restricted -/

theorem Tables.SameRows.findOrders (h : SameRows symbol db db') (side : Side) (limit : Nat)
    (order_by : Direction) :
    db.findOrders side symbol limit order_by = db'.findOrders side symbol limit order_by := by
  have hopen (d : Tables) : d.openOrders side symbol =
      (d.tbl_order_books.rows.filter fun r => r.symbol = symbol).filter fun r =>
        r.side = side ∧ r.is_filled = false := by
    rw [Tables.openOrders, List.filter_filter]
    congr 1
    funext r
    simp only [Bool.decide_and]
    grind
  rw [Tables.findOrders, Tables.findOrders, hopen, hopen, h.orders]

theorem Tables.SameRows.getAllTrades (h : SameRows symbol db db') (limit : Nat) :
    db.getAllTrades symbol limit = db'.getAllTrades symbol limit := by
  rw [Tables.getAllTrades, Tables.getAllTrades, h.trades]

theorem Tables.SameRows.recent (h : SameRows symbol db db') (now : Nat) :
    ((db.recent now).filter fun t => t.symbol = symbol) =
      (db'.recent now).filter fun t => t.symbol = symbol := by
  rw [Tables.recent, Tables.recent, List.filter_comm, h.trades, List.filter_comm]

/-! ## The aggregates of the day -/

theorem last_24_hours_data_eq (db : Tables) (now : Nat) :
    db.last_24_hours_data now =
      ⟨sumOf Trade.size (db.recent now), sumOf Trade.volume (db.recent now),
        ((db.recent now).filterMap Trade.price).min?,
        ((db.recent now).filterMap Trade.price).max?⟩ := rfl

/-- Prices of the symbol itself are reached: they are there. -/
theorem Tables.SameRows.reaches_iff (h : SameRows symbol db db') {le : ℚ → ℚ → Prop}
    (hle : ∀ p, le p p) :
    (∀ p ∈ (db.recent now).filterMap Trade.price,
        ∃ q ∈ (db'.recent now).filterMap Trade.price, le q p) ↔
      Reaches symbol db db' now le := by
  constructor
  · intro hall p hp
    obtain ⟨t, ht, hprice⟩ := List.mem_filterMap.mp hp
    exact hall p (List.mem_filterMap.mpr ⟨t, List.mem_of_mem_filter ht, hprice⟩)
  · intro hothers p hp
    obtain ⟨t, ht, hprice⟩ := List.mem_filterMap.mp hp
    by_cases hs : t.symbol = symbol
    · have hmem : t ∈ (db.recent now).filter fun t => t.symbol = symbol := by simp [ht, hs]
      rw [h.recent] at hmem
      exact ⟨p, List.mem_filterMap.mpr ⟨t, List.mem_of_mem_filter hmem, hprice⟩, hle p⟩
    · have hmem : t ∈ db.others symbol now := by simp [Tables.others, ht, hs]
      exact hothers p (List.mem_filterMap.mpr ⟨t, hmem, hprice⟩)

theorem Tables.SameRows.symm (h : SameRows symbol db db') : SameRows symbol db' db :=
  ⟨h.orders.symm, h.trades.symm⟩

/-- The aggregates are the same iff the other symbols agree in them. -/
theorem Tables.SameRows.last_24_hours_data_iff (h : SameRows symbol db db') :
    db.last_24_hours_data now = db'.last_24_hours_data now ↔ DayAgrees symbol db db' now := by
  have hsize := sumOf_eq_iff (φ := Trade.size) (h.recent now)
  have hvolume := sumOf_eq_iff (φ := Trade.volume) (h.recent now)
  have hge : ∀ p : ℚ, p ≥ p := fun p => le_refl p
  rw [last_24_hours_data_eq, last_24_hours_data_eq, DayData.mk.injEq, hsize, hvolume, min?_eq_iff,
    max?_eq_iff]
  constructor
  · rintro ⟨⟨hempty, hs⟩, ⟨-, hv⟩, ⟨hl, hl'⟩, hh, hh'⟩
    exact ⟨hempty, hs, hv, ⟨(h.reaches_iff le_refl).mp hl, (h.symm.reaches_iff le_refl).mp hl'⟩,
      (h.reaches_iff hge).mp hh, (h.symm.reaches_iff hge).mp hh'⟩
  · rintro ⟨hempty, hs, hv, ⟨hl, hl'⟩, hh, hh'⟩
    exact ⟨⟨hempty, hs⟩, ⟨hempty, hv⟩,
      ⟨(h.reaches_iff le_refl).mpr hl, (h.symm.reaches_iff le_refl).mpr hl'⟩,
      (h.reaches_iff hge).mpr hh, (h.symm.reaches_iff hge).mpr hh'⟩

/-! ## The broadcast -/

theorem price_before_24_hour_iff :
    db.price_before_24_hour now = db'.price_before_24_hour now ↔ BeforeAgrees db db' now := by
  rw [price_before_24_hour_eq, price_before_24_hour_eq]
  rfl

/-- The objects are the same iff the two queries that are not restricted answer the same. -/
theorem Tables.SameRows.message_iff (h : SameRows symbol db db') {m : Message}
    (hm : db.message symbol day before = some m) :
    db'.message symbol day before = some m ↔
      DayAgrees symbol db db' day ∧ BeforeAgrees db db' before := by
  rw [← h.last_24_hours_data_iff, ← price_before_24_hour_iff]
  unfold Tables.message at hm ⊢
  rw [← h.getAllTrades, ← h.findOrders .BUY, ← h.findOrders .SELL]
  cases htrades : db.getAllTrades symbol 20 with
  | nil =>
    rw [htrades] at hm
    cases hm
  | cons t ts =>
    rw [htrades] at hm
    cases hm
    simp only [Option.some.injEq, Message.mk.injEq]
    constructor
    · rintro ⟨-, -, -, -, hday, -, hchange⟩
      exact ⟨hday.symm, by linarith⟩
    · rintro ⟨hday, hprice⟩
      rw [hday, hprice]
      simp

/-- **When market data depend only on their symbol**: the other symbols have the same share
in the aggregates of the day, and the latest of the trades that are older, of any symbol,
have the same price. -/
theorem sameBroadcast_iff (h : SameRows symbol w.db db') (ht : w.db.HasTrade symbol) :
    SameBroadcast clock symbol w db' ↔
      DayAgrees symbol w.db db' (clock (w.calls + 3)) ∧
        BeforeAgrees w.db db' (clock (w.calls + 4)) := by
  obtain ⟨m, hm⟩ :=
    (message_isSome_iff w.db symbol (clock (w.calls + 3)) (clock (w.calls + 4))).mpr ht
  rw [← h.message_iff hm]
  constructor
  · rintro ⟨m', hfirst, hsecond⟩
    have hsame := hm.symm.trans (emits_iff.mp hfirst)
    cases hsame
    exact emits_iff.mp hsecond
  · intro hm'
    exact ⟨m, emits_iff.mpr hm, emits_iff.mpr hm'⟩

/-- A trade of another symbol besides that of BTC/USDT, one second later. -/
def Tables.tradedToo : Tables :=
  traded.saveTrade ⟨7, 8, some 300, 2, 1, .Limit, "ETH/USDT", 1⟩

/-- The trade of the other symbol in two halves. -/
def Tables.tradedInHalves : Tables :=
  (traded.saveTrade ⟨7, 8, some 300, 1, 1, .Limit, "ETH/USDT", 1⟩).saveTrade
    ⟨7, 8, some 300, 1, 1, .Limit, "ETH/USDT", 1⟩

/-- The two halves have the share of the whole in every aggregate. -/
theorem tradedToo_dayAgrees : DayAgrees "BTC/USDT" tradedToo tradedInHalves 2 where
  empty := by decide +kernel
  size := by decide +kernel
  volume := by decide +kernel
  low := by
    unfold Reaches
    decide +kernel
  high := by
    unfold Reaches
    decide +kernel

theorem sameBroadcast_traded :
    tradedToo.tbl_trades.rows ≠ tradedInHalves.tbl_trades.rows ∧
      SameBroadcast (fun _ => 2) "BTC/USDT" (.start tradedToo) tradedInHalves := by
  have hsame : SameRows "BTC/USDT" tradedToo tradedInHalves :=
    ⟨by decide +kernel, by decide +kernel⟩
  have htraded : tradedToo.HasTrade "BTC/USDT" := ⟨_, List.mem_cons_self .., rfl⟩
  refine ⟨by decide +kernel, ?_⟩
  exact (sameBroadcast_iff (w := .start tradedToo) hsame htraded).mpr ⟨tradedToo_dayAgrees, rfl⟩

/-- What the two emissions have broadcast. -/
theorem SameBroadcast.same (h : SameBroadcast clock symbol w db') :
    (run (World.perform (.reliable clock)) (emitSocketData symbol) w).2.sent =
      (run (World.perform (.reliable clock)) (emitSocketData symbol)
        { w with db := db' }).2.sent := by
  obtain ⟨m, ⟨-, hsent⟩, ⟨-, hsent'⟩⟩ := h
  rw [hsent, hsent']

theorem traded_sameRows : SameRows "BTC/USDT" traded tradedToo :=
  ⟨by decide +kernel, by decide +kernel⟩

theorem traded_hasTrade : traded.HasTrade "BTC/USDT" := ⟨_, List.mem_singleton_self _, rfl⟩

/-- The trade of ETH/USDT shows in the market data of BTC/USDT: in the volume of the day, and
when it is older than a day in the change of the price. -/
theorem other_symbol_shows :
    SameRows "BTC/USDT" traded tradedToo ∧ traded.HasTrade "BTC/USDT" ∧
      ¬ SameBroadcast (fun _ => 2) "BTC/USDT" (.start traded) tradedToo ∧
      ¬ SameBroadcast (fun _ => 100000) "BTC/USDT" (.start traded) tradedToo := by
  refine ⟨traded_sameRows, traded_hasTrade, fun h => ?_, fun h => ?_⟩
  · exact absurd h.same (by decide +kernel)
  · exact absurd h.same (by decide +kernel)

end Exchange
