import Exchange.Async.Proc
import Exchange.Binance.Database
import Mathlib.Data.Sign.Basic

/-!
# Placing orders at the exchange

`BinanceController.placeOrder`, the handler of the user data stream and
`TradeConsumer.processTrade`, as programs over the database, the queue and the
exchange. What is outside (`Answers`): the clock, the exchange, the socket and
the failures of the database.
-/

namespace Exchange.Binance

open Async Wallets

/-- A number of the program. The finite ones are exact. -/
inductive Number where
  | nan
  | negInfinity
  | finite (q : ℚ)
  | infinity
  deriving DecidableEq

namespace Number

/-- `<`: false as soon as one side is not a number. -/
def lt : Number → Number → Bool
  | .finite p, .finite q => p < q
  | .negInfinity, .finite _ | .negInfinity, .infinity | .finite _, .infinity => true
  | _, _ => false

def sign : Number → Option SignType
  | .nan => none
  | .negInfinity => some (-1)
  | .finite q => some (SignType.sign q)
  | .infinity => some 1

def mul : Number → Number → Number
  | .finite p, .finite q => .finite (p * q)
  | x, y =>
      match x.sign, y.sign with
      | some s, some t =>
          match s * t with
          | .zero => .nan
          | .neg => .negInfinity
          | .pos => .infinity
      | _, _ => .nan

end Number

/-- The body of a request to `placeOrder`, with `parseFloat` done, and the user. -/
structure PlaceOrder where
  userId : Nat
  symbol : String
  side : String
  type : String
  price : Number
  quantity : Number
  main_currency : String
  secondary_currency : String
  deriving DecidableEq

/-- The parameters of `client.newOrder`. -/
structure NewOrder where
  symbol : String
  side : String
  type : String
  price : Option Number
  quantity : Number
  timeInForce : Option String
  newClientOrderId : String
  deriving DecidableEq

structure Balance where
  asset : String
  free : ℚ
  deriving DecidableEq

structure Response where
  success : Bool
  message : String
  data : Option (List BinanceTrade)
  deriving DecidableEq

/-- What is raised: by the program, or outside (`timedOut`: the first fifty
characters of its text have `ETIMEDOUT`). -/
inductive Err where
  | typeError
  | outside (isAxiosError timedOut : Bool)
  deriving DecidableEq

inductive ReadyState where
  | CONNECTING
  | OPEN
  | CLOSING
  | CLOSED
  deriving DecidableEq

inductive Op where
  | date
  | uniqid
  | ws
  | lastUpdatedTimeListener
  | userDataStream
  | updateListenerTime
  | connect
  | waitForOpenConnection
  | avgPrice (symbol : String)
  | account
  | newOrder (order : NewOrder)
  | insertInBinanceTrade (row : BinanceTrade)
  | updateWalletQuery (q : WalletQuery)
  | getAllUserOrderFromTable (user_id : Nat)
  | insertEventData (row : TradeEvent)
  | addTrade (item : Item)
  | getOrderFromTable (orderId : Nat) (user_id : String)
  | updateBinanceTrade (item : Item)

abbrev Op.Res : Op → Type
  | date => Nat
  | uniqid => String
  | ws => Option ReadyState
  | lastUpdatedTimeListener => Option Nat
  | avgPrice _ => ℚ
  | account => List Balance
  | newOrder _ => OrderResponse
  | getAllUserOrderFromTable _ => List BinanceTrade
  | getOrderFromTable .. => Option BinanceTrade
  | _ => Unit

abbrev Prog := Proc Op Op.Res Err

/-- The tables, whether there is a socket, the orders that the exchange has
accepted, and the jobs of `trade_queue`. -/
structure World where
  db : Tables
  ws : Bool
  orders : List OrderResponse
  trade_queue : List Item

/-- What is outside, during one request or one job. `isUser r t` is the
comparison of a column `user_id` with the text `t`. -/
structure Answers where
  now : Nat
  uniqid : String
  fails : Op → Option Err
  readyState : ReadyState
  avgPrice : String → Except Err ℚ
  account : Except Err (List Balance)
  newOrder : NewOrder → Except Err OrderResponse
  isUser : Nat → String → Bool

/-- The answer to a call that may fail. -/
def Answers.reply {α : Type} (a : Answers) (o : Op) (w : World) (r : α) (w' : World) :
    Except Err α × World :=
  match a.fails o with
  | some e => (.error e, w)
  | none => (.ok r, w')

def World.perform (a : Answers) : Handler Op Op.Res Err World
  | .date, w => (.ok a.now, w)
  | .uniqid, w => (.ok a.uniqid, w)
  | .ws, w => (.ok (if w.ws then some a.readyState else none), w)
  | .lastUpdatedTimeListener, w =>
      a.reply .lastUpdatedTimeListener w w.db.lastUpdatedTimeListener w
  | .userDataStream, w => a.reply .userDataStream w () w
  | .updateListenerTime, w =>
      a.reply .updateListenerTime w () { w with db := w.db.updateListenerTime a.now }
  -- a new socket, when there is none or the old one is closed
  | .connect, w => (.ok (), { w with ws := true })
  | .waitForOpenConnection, w => a.reply .waitForOpenConnection w () w
  | .avgPrice symbol, w => (a.avgPrice symbol, w)
  | .account, w => (a.account, w)
  | .newOrder order, w =>
      match a.newOrder order with
      | .error e => (.error e, w)
      | .ok o => (.ok o, { w with orders := w.orders ++ [o] })
  | .insertInBinanceTrade row, w =>
      a.reply (.insertInBinanceTrade row) w () { w with db := w.db.insertInBinanceTrade row }
  | .updateWalletQuery q, w =>
      match w.db.updateWalletQuery q with
      | none => (.error (.outside false false), w)
      | some db => a.reply (.updateWalletQuery q) w () { w with db := db }
  | .getAllUserOrderFromTable user_id, w =>
      a.reply (.getAllUserOrderFromTable user_id) w (w.db.getAllUserOrderFromTable user_id) w
  | .insertEventData row, w =>
      a.reply (.insertEventData row) w () { w with db := w.db.insertEventData row }
  | .addTrade item, w =>
      a.reply (.addTrade item) w () { w with trade_queue := w.trade_queue ++ [item] }
  | .getOrderFromTable orderId user_id, w =>
      a.reply (.getOrderFromTable orderId user_id) w
        (w.db.getOrderFromTable orderId (a.isUser · user_id) a.now) w
  -- no comma between two assignments of its text: the statement does not parse
  | .updateBinanceTrade _, w => (.error (.outside false false), w)

def call (o : Op) : Prog o.Res := Proc.call o

namespace BinanceController

/-- Reading a property of `null` or `undefined` raises. -/
def property {α : Type} : Option α → Prog α
  | some a => pure a
  | none => .throw .typeError

def handleError (err : Err) (msg : String) : Response :=
  match err with
  | .outside false true => ⟨false, "Connection Timeout ocurred ,please try again", none⟩
  | _ => ⟨false, msg, none⟩

/-- Whether it succeeds; its message is not read. -/
def subscribeListener : Prog Bool :=
  Proc.tryCatch
    (do
      call .userDataStream
      call .updateListenerTime
      call .connect
      pure true)
    fun _ => pure false

/-- More than 3000 seconds between two times. -/
def old (last_time now : Nat) : Bool := 3000 * 1000 < |(now : ℤ) - last_time|

/-- What is answered when the socket does not open. -/
def waitForOpenConnection (success : Bool) : Prog (Option Response) := do
  let ws : Option ReadyState ← call .ws
  let readyState ← property ws
  if readyState ≠ .OPEN ∨ success = false then
    Proc.tryCatch
      (do
        call .waitForOpenConnection
        pure none)
      fun err => pure (some (handleError err "Failed to open socket connection"))
  else pure none

/-- The first lines of `placeOrder`: the listener is renewed when it is old or
there is no socket. -/
def listen : Prog (Option Response) := do
  let g : Option Nat ← call .lastUpdatedTimeListener
  let last_time ← property g
  let now : Nat ← call .date
  let ws : Option ReadyState ← call .ws
  if old last_time now = true ∨ ws = none then
    let success ← subscribeListener
    waitForOpenConnection success
  else pure none

def checkAdminWalletBalance (main_currency secondary_currency side : String) (qty price : Number)
    (avgPrice : ℚ) (type : String) : Prog Response := do
  let balances : List Balance ← call .account
  let secondary_currency_amount_to_compare :=
    if type = "LIMIT" then qty.mul price else qty.mul (.finite avgPrice)
  let main ← property (balances.find? fun v => v.asset = main_currency)
  let secondary ← property (balances.find? fun v => v.asset = secondary_currency)
  if side = "BUY" then
    if (Number.finite secondary.free).lt secondary_currency_amount_to_compare then
      pure ⟨false, "Insufficient " ++ secondary_currency ++ " balance", none⟩
    else pure ⟨true, "", none⟩
  else if (Number.finite main.free).lt qty then
    pure ⟨false, "Insufficient " ++ main_currency ++ " balance", none⟩
  else pure ⟨true, "", none⟩

/-- The order of a request: any type other than `LIMIT` is sent as `MARKET`. -/
def newOrder (req : PlaceOrder) (newClientOrderId : String) : NewOrder :=
  if req.type = "LIMIT" then
    ⟨req.symbol, req.side, "LIMIT", some req.price, req.quantity, some "GTC", newClientOrderId⟩
  else ⟨req.symbol, req.side, "MARKET", none, req.quantity, none, newClientOrderId⟩

def insertInBinanceTrade (userId now : Nat) (orderResponse : OrderResponse) (settled_price : ℚ) :
    BinanceTrade where
  user_id := userId
  clientOrderId := orderResponse.clientOrderId
  price := orderResponse.price
  origQty := orderResponse.origQty
  executedQty := orderResponse.executedQty
  status := orderResponse.status
  type := orderResponse.type
  side := orderResponse.side
  fills := orderResponse.fills
  created_at := toSecond now
  symbol := orderResponse.symbol
  orderId := orderResponse.orderId
  cummulativeQuoteQty := orderResponse.cummulativeQuoteQty
  settled_price := settled_price

/-- After the exchange has accepted: the row, then the wallet if something was traded. -/
def record (userId : Nat) (orderResponse : OrderResponse) : Prog Response := do
  let now : Nat ← call .date
  let fill ← property orderResponse.fills.head?
  call (.insertInBinanceTrade (insertInBinanceTrade userId now orderResponse fill.price))
  if orderResponse.status = .FILLED ∨ orderResponse.status = .PARTIALLY_FILLED then
    call (.updateWalletQuery (walletQuery orderResponse.side orderResponse.symbol
      orderResponse.executedQty orderResponse.cummulativeQuoteQty userId))
  else pure ()
  let allOrders : List BinanceTrade ← call (.getAllUserOrderFromTable userId)
  pure ⟨true, "Order Placed Succesfully", some allOrders⟩

/-- The last `try` of `placeOrder`. -/
def submit (req : PlaceOrder) (newClientOrderId : String) : Prog Response :=
  Proc.tryCatch
    (do
      let orderResponse : OrderResponse ← call (.newOrder (newOrder req newClientOrderId))
      record req.userId orderResponse)
    fun err => pure (handleError err "Failed To place Order")

/-- The price, or the error that is kept in `is_error`. -/
def currentAvgPrice (symbol : String) : Prog (Except Err ℚ) :=
  Proc.tryCatch
    (do
      let price : ℚ ← call (.avgPrice symbol)
      pure (.ok price))
    fun err => pure (.error err)

def placeOrder (req : PlaceOrder) : Prog Response := do
  let closed ← listen
  match closed with
  | some answer => pure answer
  | none =>
    let newClientOrderId : String ← call .uniqid
    let avgPrice ← currentAvgPrice req.symbol
    match avgPrice with
    | .error err => pure (handleError err "Failed To fetch avg price")
    | .ok avgPrice =>
      let res ← checkAdminWalletBalance req.main_currency req.secondary_currency req.side
        req.quantity req.price avgPrice req.type
      if res.success = false then pure ⟨false, res.message, none⟩
      else if req.quantity.lt (.finite 0) then
        pure ⟨false, "Quantity can not be zero or less", none⟩
      else submit req newClientOrderId

/-- The item of a report. Its settled price compares the property `0`, which no
report has, so it is always that of the last trade. -/
def item (eventInfo : EventInfo) : Item where
  date := eventInfo.E
  orderId := eventInfo.i
  clientId := eventInfo.c
  price := eventInfo.p
  quantity := eventInfo.q
  side := eventInfo.S
  type := eventInfo.o
  symbol := eventInfo.s
  current_status := eventInfo.X
  cummulativeQuoteQty := eventInfo.Z
  settled_price := eventInfo.L

/-- The handler of the messages of the socket. -/
def onmessage (eventInfo : EventInfo) : Prog Unit :=
  if eventInfo.e = "executionReport" then
    let row : TradeEvent := ⟨(item eventInfo).clientId, item eventInfo, eventInfo⟩
    if eventInfo.x = "TRADE" ∧ eventInfo.x ≠ "FILLED" then do
      call (.insertEventData row)
      call (.addTrade (item eventInfo))
    else call (.insertEventData row)
  else pure ()

end BinanceController

/-- `TradeConsumer.processTrade`: the order is looked for by the client id of
the report in the place of the user. -/
def processTrade (row : Item) : Prog Unit := do
  let order : Option BinanceTrade ← call (.getOrderFromTable row.orderId row.clientId)
  match order with
  | none => pure ()
  | some order =>
    if order.status ≠ .FILLED then do
      call (.updateBinanceTrade row)
      call (.updateWalletQuery
        (walletQuery row.side row.symbol row.quantity row.cummulativeQuoteQty order.user_id))
    else pure ()

end Exchange.Binance
