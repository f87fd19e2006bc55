import Exchange.OrderBook.Entities

/-!
# The database service on orders and trades

The methods of `DatabaseService` used by the order book, as functions of the
two tables: queries filter, order and limit; writes return the new tables.
MySQL sorts `NULL` prices before all others, and the age of a trade is
`HOUR(TIMEDIFF(now(), created_at))`.
-/

namespace Exchange

open Store

structure Tables where
  tbl_order_books : Table OrderBook OrderBook.id
  tbl_trades : Table Trade Trade.id

/-- Empty `tbl_order_books` and `tbl_trades`. -/
def Tables.empty : Tables := ⟨.empty OrderBook.id, .empty Trade.id⟩

inductive Direction where
  | ASC
  | DESC
  deriving DecidableEq

/-- `a` may stand before `b` when prices ascend. -/
def priceLe : Option ℚ → Option ℚ → Bool
  | none, _ => true
  | some _, none => false
  | some p, some q => p ≤ q

theorem priceLe_total : TotalPreorder priceLe where
  total := by
    rintro (_ | p) (_ | q) <;> simp [priceLe, le_total]
  trans := by
    rintro (_ | p) (_ | q) (_ | r) <;> simp [priceLe]
    exact le_trans

/-- `ORDER BY price <order_by>, created_at ASC`. -/
def byPrice (order_by : Direction) : OrderBook → OrderBook → Bool :=
  match order_by with
  | .ASC => thenBy (fun a b => priceLe a.price b.price) fun a b => a.created_at ≤ b.created_at
  | .DESC => thenBy (fun a b => priceLe b.price a.price) fun a b => a.created_at ≤ b.created_at

theorem natLe_total : TotalPreorder fun a b : Nat => decide (a ≤ b) where
  total a b := by simpa using Nat.le_total a b
  trans a b c := by simpa using Nat.le_trans

theorem byPrice_total (order_by : Direction) : TotalPreorder (byPrice order_by) := by
  cases order_by
  · exact (priceLe_total.on OrderBook.price).thenBy (natLe_total.on OrderBook.created_at)
  · exact (priceLe_total.on OrderBook.price).swap.thenBy (natLe_total.on OrderBook.created_at)

namespace Tables

/-! ## Queries -/

/-- The open orders of one side of a symbol. -/
def openOrders (db : Tables) (side : Side) (symbol : String) : List OrderBook :=
  db.tbl_order_books.rows.filter fun r => r.side = side ∧ r.symbol = symbol ∧ r.is_filled = false

def findOrders (db : Tables) (side : Side) (symbol : String) (limit : Nat)
    (order_by : Direction) : List OrderBook :=
  orderByLimit (byPrice order_by) limit (db.openOrders side symbol)

def getAllTrades (db : Tables) (symbol : String) (limit : Nat) : List Trade :=
  orderByLimit (fun a b => b.created_at ≤ a.created_at) limit
    (db.tbl_trades.rows.filter fun t => t.symbol = symbol)

def getUserOrdersNoSide (db : Tables) (user_id : Nat) (symbol : String) (limit : Nat) :
    List OrderBook :=
  orderByLimit (fun a b => b.created_at ≤ a.created_at) limit
    (db.tbl_order_books.rows.filter fun r =>
      r.symbol = symbol ∧ r.is_filled = false ∧ r.uid = user_id)

/-- `HOUR(TIMEDIFF(now, t))`, times in seconds. -/
def hoursBetween (now t : Nat) : Nat := ((now : ℤ) - t).natAbs / 3600

/-- Aggregates over a day; over no rows every aggregate is `NULL`. -/
structure DayData where
  coin1_volume : Option ℚ
  coin2_volume : Option ℚ
  low : Option ℚ
  high : Option ℚ
  deriving DecidableEq

def last_24_hours_data (db : Tables) (now : Nat) : DayData :=
  let rows := db.tbl_trades.rows.filter fun t => hoursBetween now t.created_at ≤ 24
  let prices := rows.filterMap Trade.price
  { coin1_volume := if rows = [] then none else some (rows.map Trade.size).sum
    coin2_volume := if rows = [] then none else some (rows.map Trade.volume).sum
    low := prices.min?
    high := prices.max? }

def price_before_24_hour (db : Tables) (now : Nat) : ℚ :=
  let rows := db.tbl_trades.rows.filter fun t => 24 < hoursBetween now t.created_at
  match orderByLimit (fun a b => b.created_at ≤ a.created_at) 1 rows with
  | t :: _ => number t.price
  | [] => 0

/-! ## Writes -/

/-- `repository.save`: a new row, or the row whose key the object carries. -/
def saveOrderBook (db : Tables) (order : NewOrder) (now : Nat) : OrderBook × Tables :=
  match order.id with
  | none =>
      let id := db.tbl_order_books.next
      (order.saved id now,
        { db with tbl_order_books := db.tbl_order_books.insert (order.toRow id now) rfl })
  | some id =>
      if h : id ∈ db.tbl_order_books.rows.map OrderBook.id then
        (order.updated id now,
          { db with
            tbl_order_books := db.tbl_order_books.modify id order.overwrite fun _ => rfl })
      else
        (order.saved id now,
          { db with tbl_order_books := db.tbl_order_books.add (order.toRow id now) h })

@[simp] theorem saveOrderBook_trades (db : Tables) (order : NewOrder) (now : Nat) :
    (db.saveOrderBook order now).2.tbl_trades = db.tbl_trades := by
  unfold saveOrderBook
  split
  · rfl
  · split <;> rfl

def updateOrderBook (db : Tables) (id : Nat) (update : OrderUpdate) : Tables :=
  { db with tbl_order_books := db.tbl_order_books.modify id update.apply fun _ => rfl }

theorem mem_update_of_ne {db : Tables} {r : OrderBook} {id : Nat} (update : OrderUpdate)
    (hr : r ∈ db.tbl_order_books.rows) (hne : r.id ≠ id) :
    r ∈ (db.updateOrderBook id update).tbl_order_books.rows :=
  @Table.mem_modify_of_ne _ _ _ id update.apply (fun _ => rfl) r hr hne

theorem mem_update_self {db : Tables} {r : OrderBook} {id : Nat} (update : OrderUpdate)
    (hr : r ∈ db.tbl_order_books.rows) (hid : r.id = id) :
    update.apply r ∈ (db.updateOrderBook id update).tbl_order_books.rows :=
  @Table.mem_modify_self _ _ _ id update.apply (fun _ => rfl) r hr hid

def saveTrade (db : Tables) (trade : NewTrade) : Tables :=
  { db with tbl_trades := db.tbl_trades.insert (trade.toRow db.tbl_trades.next) rfl }

/-- Every open order has a price. -/
def Priced (db : Tables) : Prop :=
  ∀ r ∈ db.tbl_order_books.rows, r.is_filled = false → r.price.isSome = true

/-- The tables with one trade of BTC/USDT and no order. -/
def traded : Tables := empty.saveTrade ⟨7, 8, some 10, 1, 0, .Limit, "BTC/USDT", 1⟩

/-- Save new orders, each one second after the one before. -/
def place (db : Tables) (orders : List NewOrder) : Tables :=
  orders.foldl (fun db order => (db.saveOrderBook order db.tbl_order_books.next).2) db

end Tables

/-- A limit order of BTC/USDT, as `handleOrder` saves it. -/
def NewOrder.btc (uid : Nat) (side : Side) (price size : ℚ) : NewOrder where
  uid := uid
  side := side
  symbol := "BTC/USDT"
  type := .Limit
  price := some price
  size := size
  orgSize := size
  volume := some (price * size)

/-- A book deeper than the limit of `fillOrderBook`: 101 SELL orders at 1, …, 101. -/
def Tables.deep : Tables :=
  traded.place ((List.range 101).map fun i => .btc 1 .SELL (i + 1) 1)

end Exchange
