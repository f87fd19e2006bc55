import Exchange.Number.Double
import Exchange.Store.OrderBy
import Exchange.Store.Table
import Exchange.Text.Value

/-!
# Orders and trades

The entities of `tbl_order_books` and `tbl_trades`, the objects the service
hands to the repositories, and the bodies of the two order endpoints. A number of
the JavaScript code stands as the decimal that it is printed as: it is computed
with as the nearest double, and a `decimal` column rounds the decimal. The driver
returns the decimals of a row as texts (`OrderBook.held`). The text column `fills`
only ever holds `NULL` or a JSON array written by the service, so it is the list
in it.
-/

namespace Exchange

open Store

inductive Side where
  | BUY
  | SELL
  deriving DecidableEq

def Side.opposite : Side → Side
  | .BUY => .SELL
  | .SELL => .BUY

inductive OrderType where
  | Limit
  | Market
  deriving DecidableEq

/-- An entry of the JSON array in a `fills` column. -/
structure Fill where
  size : ℚ
  price : Option ℚ
  deriving DecidableEq

/-- The entity `OrderBook`: a row of `tbl_order_books`, or such a row held in memory.
An object that was not read back from its row still has the number of its body as
its price (`numeric`). -/
structure OrderBook where
  id : Nat
  uid : Nat
  side : Side
  symbol : String
  fills : Option (List Fill)
  type : OrderType
  price : Option ℚ
  size : ℚ
  orgSize : ℚ
  volume : ℚ
  is_filled : Bool
  created_at : Nat
  settled_at : Option Nat
  numeric : Bool := false
  deriving DecidableEq

/-- The entity `Trade`: a row of `tbl_trades`. -/
structure Trade where
  id : Nat
  buyer_id : Nat
  seller_id : Nat
  price : Option ℚ
  size : ℚ
  volume : ℚ
  type : OrderType
  symbol : String
  is_buyer : Nat
  created_at : Nat
  deriving DecidableEq

/-- A price as an operand of `-` or `*`: `null` counts as `0`. -/
def number (price : Option ℚ) : ℚ := price.getD 0

/-- The price as an operand of `<=` or `>`. -/
def OrderBook.held (order : OrderBook) : Text.Value :=
  match order.price with
  | none => .null
  | some p => if order.numeric then .number (Double.fl p) else .text (Text.fixed 8 p)

/-! ## Objects to be saved -/

/-- The order object a request is handled with, before it has a row. An object
without a `uid` has `has_uid = false`. -/
structure NewOrder where
  id : Option Nat := none
  uid : Nat
  has_uid : Bool := true
  side : Side
  symbol : String
  fills : Option (List Fill) := none
  type : OrderType
  price : Option ℚ
  size : ℚ
  orgSize : ℚ := 0
  volume : Option ℚ := none
  created_at : Option Nat := none
  settled_at : Option Nat := none
  deriving DecidableEq

/-- The row written for an order object (`is_filled` is false, columns round). -/
def NewOrder.toRow (order : NewOrder) (id now : Nat) : OrderBook where
  id := id
  uid := order.uid
  side := order.side
  symbol := order.symbol
  fills := order.fills
  type := order.type
  price := order.price.map (roundTo 8)
  size := roundTo 8 order.size
  orgSize := roundTo 8 order.orgSize
  volume := roundTo 2 (order.volume.getD 0)
  is_filled := false
  created_at := order.created_at.getD now
  settled_at := order.settled_at

/-- The order object after a save that updated its row. -/
def NewOrder.updated (order : NewOrder) (id now : Nat) : OrderBook where
  id := id
  uid := order.uid
  side := order.side
  symbol := order.symbol
  fills := order.fills
  type := order.type
  price := order.price
  size := order.size
  orgSize := order.orgSize
  volume := order.volume.getD 0
  is_filled := false
  created_at := order.created_at.getD now
  settled_at := order.settled_at
  numeric := true

/-- The order object after a save that inserted its row: the columns with a default
are read back into it, of the numbers all but `size`. -/
def NewOrder.saved (order : NewOrder) (id now : Nat) : OrderBook :=
  { order.updated id now with
    price := order.price.map (roundTo 8)
    orgSize := roundTo 8 order.orgSize
    volume := roundTo 2 (order.volume.getD 0)
    numeric := false }

/-- The row after a save under the key it already has. -/
def NewOrder.overwrite (order : NewOrder) (row : OrderBook) : OrderBook :=
  { order.toRow row.id row.created_at with
    uid := if order.has_uid then order.uid else row.uid
    fills := order.fills.or row.fills
    volume := (order.volume.map (roundTo 2)).getD row.volume
    settled_at := order.settled_at.or row.settled_at }

/-- The object passed to `updateOrder`. -/
structure OrderUpdate where
  size : ℚ
  fills : List Fill
  is_filled : Option Bool := none
  settled_at : Option Nat := none
  deriving DecidableEq

def OrderUpdate.apply (update : OrderUpdate) (row : OrderBook) : OrderBook :=
  { row with
    size := roundTo 8 update.size
    fills := some update.fills
    is_filled := update.is_filled.getD row.is_filled
    settled_at := update.settled_at.or row.settled_at }

/-- The trade object passed to `saveTrade`. -/
structure NewTrade where
  buyer_id : Nat
  seller_id : Nat
  price : Option ℚ
  size : ℚ
  created_at : Nat
  type : OrderType
  symbol : String
  is_buyer : Nat
  deriving DecidableEq

def NewTrade.volume (trade : NewTrade) : ℚ := Double.mul (number trade.price) trade.size

def NewTrade.toRow (trade : NewTrade) (id : Nat) : Trade where
  id := id
  buyer_id := trade.buyer_id
  seller_id := trade.seller_id
  price := trade.price.map (roundTo 8)
  size := roundTo 8 trade.size
  volume := roundTo 2 trade.volume
  type := trade.type
  symbol := trade.symbol
  is_buyer := trade.is_buyer
  created_at := trade.created_at

/-- The user on this side of a trade. -/
def Trade.party (t : Trade) : Side → Nat
  | .BUY => t.buyer_id
  | .SELL => t.seller_id

def NewTrade.party (t : NewTrade) : Side → Nat
  | .BUY => t.buyer_id
  | .SELL => t.seller_id

theorem NewTrade.toRow_party (t : NewTrade) (id : Nat) (side : Side) :
    (t.toRow id).party side = t.party side := by
  cases side <;> rfl

/-! ## Column constraints -/

/-- `uid` is `NOT NULL` and has no default: an insertion without it is refused. -/
def NewOrder.admissible (order : NewOrder) : Bool :=
  order.price.all (fits 17 8) && fits 17 8 order.size && fits 17 8 order.orgSize &&
    (fits 10 2 (order.volume.getD 0) && (order.has_uid || order.id.isSome))

def OrderUpdate.admissible (update : OrderUpdate) : Bool := fits 17 8 update.size

/-- `Trade.price` is `NOT NULL`. -/
def NewTrade.admissible (trade : NewTrade) : Bool :=
  trade.price.isSome && trade.price.all (fits 17 8) && fits 17 8 trade.size &&
    fits 10 2 trade.volume

/-! ## Request bodies

The bodies of requests that place a new order. -/

structure LimitOrderDto where
  uid : Nat
  side : Side
  symbol : String
  price : ℚ
  size : ℚ
  deriving DecidableEq

structure MarketOrderDto where
  uid : Nat
  side : Side
  symbol : String
  size : ℚ
  deriving DecidableEq

end Exchange
