import Exchange.OrderBook.World

/-!
# The order book service

`OrderBookService` and the order endpoints of `OrderBookController`, method by
method. The four matchers are hand-copied variants of one loop: `Matcher` lists
what differs between them, `matchLoop` is the loop, and each matcher keeps its
name with its own values.
-/

namespace Exchange

open Async

structure MatchResult where
  success : Bool
  message : String
  deriving DecidableEq

structure Response where
  success : Bool
  message : String
  data : List OrderBook
  deriving DecidableEq

namespace OrderBookService

def call (o : Op) : Prog o.Res := Proc.call o

def raise {α : Type} (e : Err) : Prog α := Proc.throw e

/-! ## The shared book -/

def fillOrderBook (symbol : String) : Prog Unit := do
  let buy_orders : List OrderBook ← call (.findOrders .BUY symbol 100 .ASC)
  let sell_orders : List OrderBook ← call (.findOrders .SELL symbol 100 .DESC)
  call (.setOrderBooks buy_orders sell_orders)

def fillOrderBookAndReturn (symbol : String) : Prog (List OrderBook × List OrderBook) := do
  let buy_orders : List OrderBook ← call (.findOrders .BUY symbol 100 .ASC)
  let sell_orders : List OrderBook ← call (.findOrders .SELL symbol 100 .DESC)
  call (.setOrderBooks buy_orders sell_orders)
  call .orderBooks

def percentage (change_in_price price_before_24_hour : ℚ) : Percentage :=
  { plus := 0 < change_in_price && 0 < price_before_24_hour
    value := .div (change_in_price * 100) price_before_24_hour }

def emitSocketData (symbol : String) : Prog Unit := do
  fillOrderBook symbol
  let trades : List Trade ← call (.getAllTrades symbol 20)
  let last_24_hour_data : Tables.DayData ← call .last_24_hours_data
  let price_before_24_hour : ℚ ← call .price_before_24_hour
  match trades with
  | [] => raise .typeError -- `trades[0].price`
  | last_trade :: _ =>
    let change_in_price := number last_trade.price - price_before_24_hour
    let books : List OrderBook × List OrderBook ← call .orderBooks
    call (.emit {
      buy_orders := books.1
      sell_orders := books.2
      trades := trades
      last_trade := last_trade
      last_24_hour_data := last_24_hour_data
      precentage_change := percentage change_in_price price_before_24_hour
      change_in_price := change_in_price })

/-! ## Writes -/

def saveOrder (order : NewOrder) : Prog OrderBook := do
  let order := { order with volume := some (Double.mul (number order.price) order.size) }
  let saved_order : OrderBook ← call (.saveOrderBook order)
  fillOrderBook order.symbol
  emitSocketData order.symbol
  pure saved_order

def saveMarketOrder (order : NewOrder) : Prog OrderBook := do
  let order := { order with price := none }
  let saved_order : OrderBook ← call (.saveOrderBook order)
  fillOrderBook order.symbol
  pure saved_order

def saveTrade (trade : NewTrade) (x : Execution) : Prog Unit := do
  call (.saveTrade trade x)
  emitSocketData trade.symbol

def updateOrder (symbol : String) (rowid : Nat) (update : OrderUpdate) (x : Execution) :
    Prog Unit := do
  call (.updateOrderBook rowid update x)
  emitSocketData symbol

/-! ## Matching -/

/-- `fills ? JSON.parse(fills) : []`. -/
def parseFills (fills : Option (List Fill)) : List Fill := fills.getD []

/-- What the four matchers do not share. Every test and price choice takes the
price of the incoming order and the price of a resting order; `full` and `part`
are the two branches of the loop. -/
structure Matcher where
  side : Side
  type : OrderType
  enter : Text.Value → Text.Value → Bool
  notEntered : MatchResult
  stop : Text.Value → Text.Value → Bool
  fullTakerPrice : Option ℚ → Option ℚ → Option ℚ
  fullMakerPrice : Option ℚ → Option ℚ → Option ℚ
  full_is_buyer : Nat
  partTakerPrice : Option ℚ → Option ℚ → Option ℚ
  partMakerPrice : Option ℚ → Option ℚ → Option ℚ
  part_is_buyer : Nat

/-- The trade between the incoming and a resting order. -/
def Matcher.trade (m : Matcher) (order resting : OrderBook) (size : ℚ) (is_buyer now : Nat) :
    NewTrade where
  buyer_id := if m.side = .BUY then order.uid else resting.uid
  seller_id := if m.side = .BUY then resting.uid else order.uid
  price := resting.price
  size := size
  created_at := now
  type := m.type
  symbol := order.symbol
  is_buyer := is_buyer

/-- The loop over `resting_orders[i - 1], …, resting_orders[0]`. The array holds
references, so a row object is read again after every await. -/
def matchLoop (m : Matcher) (resting_orders : Nat) : Nat → OrderBook → Prog Unit
  | 0, _ => pure ()
  | i + 1, order => do
    let resting : OrderBook ← call (.get resting_orders i)
    if m.stop order.held resting.held then pure ()
    else if Double.fl order.size ≤ Double.fl resting.size then
      -- fill the entire order: its own row first, then the trade, then the resting row
      let x : Execution := ⟨order, resting⟩
      let fills := parseFills order.fills
      let settled_at : Nat ← call .now
      updateOrder order.symbol order.id {
        is_filled := some true
        size := 0
        settled_at := some settled_at
        fills := fills ++ [⟨order.size, m.fullTakerPrice order.price resting.price⟩] } x
      let created_at : Nat ← call .now
      saveTrade (m.trade order resting order.size m.full_is_buyer created_at) x
      let resting : OrderBook ← call (.get resting_orders i)
      let size := Double.sub resting.size order.size
      call (.setSize resting_orders i size)
      let fills := parseFills resting.fills
      let fills := fills ++ [⟨order.size, m.fullMakerPrice order.price resting.price⟩]
      if size = 0 then
        let settled_at : Nat ← call .now
        updateOrder order.symbol resting.id {
          is_filled := some true
          size := 0
          fills := fills
          settled_at := some settled_at } x
      else
        updateOrder order.symbol resting.id { size := size, fills := fills } x
    else
      -- fill a partial order and continue: the resting row first, then the trade
      let x : Execution := ⟨order, resting⟩
      let fills1 := parseFills resting.fills
      let settled_at : Nat ← call .now
      updateOrder order.symbol resting.id {
        is_filled := some true
        size := 0
        settled_at := some settled_at
        fills := fills1 ++ [⟨resting.size, m.partMakerPrice order.price resting.price⟩] } x
      let resting : OrderBook ← call (.get resting_orders i)
      let created_at : Nat ← call .now
      saveTrade (m.trade order resting resting.size m.part_is_buyer created_at) x
      let resting : OrderBook ← call (.get resting_orders i)
      let size := Double.sub order.size resting.size
      let fills2 := parseFills order.fills
      let fills2 := fills2 ++ [⟨resting.size, m.partTakerPrice order.price resting.price⟩]
      updateOrder order.symbol order.id { size := size, fills := fills2 } x
      matchLoop m resting_orders i { order with size := size, fills := some fills2 }

/-- The common frame of the matchers: pick up the opposite side of the shared
book, test its last element, loop, and answer a failure for any error. -/
def Matcher.run (m : Matcher) (order : OrderBook) : Prog MatchResult := do
  let resting_orders : Nat ← call (.capture m.side.opposite order)
  let n : Nat ← call (.length resting_orders)
  Proc.tryCatch
    (if n = 0 then pure m.notEntered
    else do
      let best : OrderBook ← call (.get resting_orders (n - 1))
      if m.enter order.held best.held then
        matchLoop m resting_orders n order
        pure ⟨true, "Ok"⟩
      else pure m.notEntered)
    fun _ => pure ⟨false, "Failed to place order"⟩

def buyMatcher : Matcher where
  side := .BUY
  type := .Limit
  enter := fun order sellOrder => sellOrder.le Double.fl order
  notEntered := ⟨true, "Ok"⟩
  stop := fun order sellOrder => order.lt Double.fl sellOrder
  fullTakerPrice := fun _ sellOrder => sellOrder
  fullMakerPrice := fun order _ => order
  full_is_buyer := 1
  partTakerPrice := fun _ sellOrder => sellOrder
  partMakerPrice := fun order _ => order
  part_is_buyer := 0

def matchBuyOrder (order : OrderBook) : Prog MatchResult := buyMatcher.run order

def sellMatcher : Matcher where
  side := .SELL
  type := .Limit
  enter := fun order buyOrder => order.le Double.fl buyOrder
  notEntered := ⟨true, "Ok"⟩
  stop := fun order buyOrder => buyOrder.lt Double.fl order
  fullTakerPrice := fun order _ => order
  fullMakerPrice := fun _ buyOrder => buyOrder
  full_is_buyer := 0
  partTakerPrice := fun _ buyOrder => buyOrder
  partMakerPrice := fun order _ => order
  part_is_buyer := 1

def matchSellOrder (order : OrderBook) : Prog MatchResult := sellMatcher.run order

def marketBuyMatcher : Matcher where
  side := .BUY
  type := .Market
  enter := fun _ _ => true
  notEntered := ⟨false, "No ordes in order book"⟩
  stop := fun _ _ => false
  fullTakerPrice := fun _ sellOrder => sellOrder
  fullMakerPrice := fun _ sellOrder => sellOrder
  full_is_buyer := 1
  partTakerPrice := fun _ sellOrder => sellOrder
  partMakerPrice := fun _ sellOrder => sellOrder
  part_is_buyer := 0

def matchMarketBuyOrder (order : OrderBook) : Prog MatchResult := marketBuyMatcher.run order

def marketSellMatcher : Matcher where
  side := .SELL
  type := .Market
  enter := fun _ _ => true
  notEntered := ⟨false, "No ordes in order book"⟩
  stop := fun _ _ => false
  fullTakerPrice := fun _ buyOrder => buyOrder
  fullMakerPrice := fun _ buyOrder => buyOrder
  full_is_buyer := 0
  partTakerPrice := fun _ buyOrder => buyOrder
  partMakerPrice := fun _ buyOrder => buyOrder
  part_is_buyer := 0

def matchMarketSellOrder (order : OrderBook) : Prog MatchResult := marketSellMatcher.run order

def matchLimitOrder (order : OrderBook) : Prog MatchResult :=
  if order.side = .BUY then matchBuyOrder order else matchSellOrder order

def matchMarketOrder (order : OrderBook) : Prog MatchResult :=
  if order.side = .BUY then matchMarketBuyOrder order else matchMarketSellOrder order

/-! ## Handling an order -/

def handleOrder (order : NewOrder) : Prog Response := do
  let order := { order with orgSize := order.size }
  if order.type = .Market then
    let order ← saveMarketOrder order
    let g ← matchMarketOrder order
    if g.success then
      let order_list : List OrderBook ← call (.getUserOrdersNoSide 1 order.symbol 20)
      pure ⟨true, "Order Completed Sussesssfully", order_list⟩
    else pure ⟨false, "Failed to place Ordery", []⟩
  else
    let order ← saveOrder order
    let g ← matchLimitOrder order
    if g.success then
      let order_list : List OrderBook ← call (.getUserOrdersNoSide 1 order.symbol 20)
      pure ⟨true, "Order placed Successfully", order_list⟩
    else pure ⟨false, "Failed to place Order", []⟩

end OrderBookService

/-! ## Requests -/

/-- A body of `create/Limit` or `create/Market` that places a new order. -/
inductive Request where
  | limit (dto : LimitOrderDto)
  | market (dto : MarketOrderDto)
  deriving DecidableEq

namespace Request

/-- The order object the controller builds: the body's fields after `type`. -/
def order : Request → NewOrder
  | limit dto =>
      { uid := dto.uid, type := .Limit, side := dto.side, symbol := dto.symbol,
        price := some dto.price, size := dto.size }
  | market dto =>
      { uid := dto.uid, type := .Market, side := dto.side, symbol := dto.symbol,
        price := none, size := dto.size }

/-- Handle the request alone. -/
def serve (env : Env) (req : Request) (w : World) : Except Err Response × World :=
  (OrderBookService.handleOrder req.order).run (World.perform env) w

end Request

/-- Handle requests one after the other. -/
def serveAll (env : Env) : List Request → World → List (Except Err Response) × World
  | [], w => ([], w)
  | req :: reqs, w =>
      let r := req.serve env w
      let rest := serveAll env reqs r.2
      (r.1 :: rest.1, rest.2)

end Exchange
