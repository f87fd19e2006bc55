import Exchange.Wallets.Columns

/-!
# Orders at the exchange, in the database

What the exchange answers and reports, the tables of `BinanceController` and
`TradeConsumer`, and the methods of `DatabaseService` on them. The tables
`binance_trade`, `trade_event` and `listner_updated` have no entity: their rows
are what the statements write. Times are milliseconds.
-/

namespace Exchange.Binance

open Store Wallets

inductive Side where
  | BUY
  | SELL
  deriving DecidableEq

inductive OrderStatus where
  | NEW
  | PARTIALLY_FILLED
  | FILLED
  | CANCELED
  | REJECTED
  | EXPIRED
  deriving DecidableEq

/-- One trade of an order, in the answer to the order. -/
structure Fill where
  price : ℚ
  qty : ℚ
  deriving DecidableEq

/-- What the exchange answers to an order that it accepts. -/
structure OrderResponse where
  symbol : String
  orderId : Nat
  clientOrderId : String
  price : ℚ
  origQty : ℚ
  executedQty : ℚ
  cummulativeQuoteQty : ℚ
  status : OrderStatus
  type : String
  side : Side
  fills : List Fill
  deriving DecidableEq

/-- An execution report of the socket. -/
structure EventInfo where
  e : String
  E : Nat
  i : Nat
  c : String
  p : ℚ
  q : ℚ
  S : Side
  o : String
  s : String
  X : OrderStatus
  Z : ℚ
  L : ℚ
  x : String
  deriving DecidableEq

/-- The part of a report that a job carries. -/
structure Item where
  date : Nat
  orderId : Nat
  clientId : String
  price : ℚ
  quantity : ℚ
  side : Side
  type : String
  symbol : String
  current_status : OrderStatus
  cummulativeQuoteQty : ℚ
  settled_price : ℚ
  deriving DecidableEq

/-- A row of `binance_trade`. -/
structure BinanceTrade where
  user_id : Nat
  clientOrderId : String
  price : ℚ
  origQty : ℚ
  executedQty : ℚ
  status : OrderStatus
  type : String
  side : Side
  fills : List Fill
  created_at : Nat
  symbol : String
  orderId : Nat
  cummulativeQuoteQty : ℚ
  settled_price : ℚ
  deriving DecidableEq

/-- A row of `trade_event`. -/
structure TradeEvent where
  clientOrderId : String
  event : Item
  full_event : EventInfo
  deriving DecidableEq

structure Tables where
  tbl_wallet : Table Wallet Wallet.id
  binance_trade : List BinanceTrade
  trade_event : List TradeEvent
  listner_updated : List Nat

/-! ## The statement on the wallets -/

/-- The text before the first `pattern`, if it occurs. -/
def textBefore (pattern : List Char) : List Char → Option (List Char)
  | [] => none
  | c :: text =>
      if pattern.isPrefixOf (c :: text) then some [] else (textBefore pattern text).map (c :: ·)

/-- `symbol.substr(0, symbol.indexOf('USDT'))`: empty when there is no `USDT`. -/
def coinOf (symbol : String) : String :=
  String.ofList ((textBefore "USDT".toList symbol.toList).getD [])

def networkOf (coin : String) : String :=
  if coin = "BNB" ∨ coin = "DRNH" ∨ coin = "USDT" then "BEP20"
  else if coin = "ETH" then "Ethereum"
  else if coin = "BTC" then "Bitcoin"
  else "BEP20"

/-- `UPDATE tbl_wallet SET main_column = main_column + main, usdt_balance =
usdt_balance + usdt WHERE user_id AND network`. -/
structure WalletQuery where
  main_column : String
  main : ℚ
  usdt : ℚ
  user_id : Nat
  network : String
  deriving DecidableEq

/-- The statement that settles `base` of a symbol against `quote`. -/
def walletQuery (side : Side) (symbol : String) (base quote : ℚ) (user_id : Nat) : WalletQuery where
  main_column := mainColumn (coinOf symbol)
  main := match side with
    | .BUY => base
    | .SELL => -base
  usdt := match side with
    | .BUY => -quote
    | .SELL => quote
  user_id := user_id
  network := networkOf (coinOf symbol)

def WalletQuery.selects (q : WalletQuery) (r : Wallet) : Bool :=
  r.user_id = q.user_id ∧ r.network = q.network

theorem WalletQuery.selects_iff {q : WalletQuery} {r : Wallet} :
    q.selects r = true ↔ r.user_id = q.user_id ∧ r.network = q.network :=
  decide_eq_true_iff

/-- The assignments, from left to right. -/
def WalletQuery.assign (q : WalletQuery) (column : Column) (r : Wallet) : Option Wallet :=
  (r.increment column q.main).bind (·.increment .usdt_balance q.usdt)

theorem WalletQuery.of_assign {q : WalletQuery} {column : Column} {r r' : Wallet}
    (h : q.assign column r = some r') :
    ∃ r₁, r.increment column q.main = some r₁ ∧ r₁.increment .usdt_balance q.usdt = some r' :=
  Option.bind_eq_some_iff.mp h

theorem WalletQuery.id_assign {q : WalletQuery} {column : Column} {r r' : Wallet}
    (h : q.assign column r = some r') : r'.id = r.id := by
  obtain ⟨r₁, h₁, h₂⟩ := of_assign h
  exact (Wallet.id_increment h₂).trans (Wallet.id_increment h₁)

/-- The statement, unless it is refused: an unknown column, or a sum that does not fit. -/
def updateWalletQuery (tbl_wallet : Table Wallet Wallet.id) (q : WalletQuery) :
    Option (Table Wallet Wallet.id) :=
  (Column.ofName q.main_column).bind fun column =>
    tbl_wallet.update q.selects (q.assign column) fun _ _ h => WalletQuery.id_assign h

/-! ## Methods -/

/-- The start of the second, as it is stored. -/
def toSecond (time : Nat) : Nat := time / 1000 * 1000

/-- The day of a time. -/
def day (time : Nat) : Nat := time / 86400000

namespace Tables

def lastUpdatedTimeListener (db : Tables) : Option Nat := db.listner_updated.head?

def updateListenerTime (db : Tables) (now : Nat) : Tables :=
  { db with listner_updated := db.listner_updated.map fun _ => toSecond now }

def insertInBinanceTrade (db : Tables) (row : BinanceTrade) : Tables :=
  { db with binance_trade := db.binance_trade ++ [row] }

def updateWalletQuery (db : Tables) (q : WalletQuery) : Option Tables :=
  (Binance.updateWalletQuery db.tbl_wallet q).map fun t => { db with tbl_wallet := t }

def insertEventData (db : Tables) (row : TradeEvent) : Tables :=
  { db with trade_event := db.trade_event ++ [row] }

/-- `isUser` is the comparison of the column `user_id` with the text it is given. -/
def getOrderFromTable (db : Tables) (orderId : Nat) (isUser : Nat → Bool) (now : Nat) :
    Option BinanceTrade :=
  db.binance_trade.find? fun r =>
    r.orderId = orderId ∧ isUser r.user_id = true ∧ day r.created_at = day now

def getAllUserOrderFromTable (db : Tables) (user_id : Nat) : List BinanceTrade :=
  db.binance_trade.filter fun r => r.user_id = user_id

end Tables

end Exchange.Binance
