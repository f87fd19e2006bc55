import Exchange.OrderBook.Database
import Exchange.Async.Pool

/-!
# The world of the order book service

What `OrderBookService` acts on: the two tables, the field `order_books` with
the row objects behind it (arrays are shared by reference, so they live in a
heap), and the socket. `perform` answers one operation; the environment `Env`
says what time it is at the `n`-th external call and whether that call fails.

Three parts of the world are ghosts, read by no program: `journal` (accepted
writes with the tables they found), `captures` (what each matcher picked up)
and the argument `Execution` of the writes (the two orders as the matcher held
them when it decided to execute one against the other).
-/

namespace Exchange

open Async

/-- Result of `/` on numbers. -/
inductive Quotient where
  | finite (q : ℚ)
  | infinity
  | negInfinity
  | nan
  deriving DecidableEq

def Quotient.div (a b : ℚ) : Quotient :=
  if b ≠ 0 then .finite (a / b)
  else if a = 0 then .nan else if 0 < a then .infinity else .negInfinity

/-- The text `precentage_change`: a `+` or not, the formatted number, a `%`. -/
structure Percentage where
  plus : Bool
  value : Quotient
  deriving DecidableEq

/-- The object broadcast on `message`. Its two computed numbers, which nothing else
depends on, are taken without the roundings of their operations. -/
structure Message where
  buy_orders : List OrderBook
  sell_orders : List OrderBook
  trades : List Trade
  last_trade : Trade
  last_24_hour_data : Tables.DayData
  precentage_change : Percentage
  change_in_price : ℚ
  deriving DecidableEq

/-- The incoming and the resting order of an execution, as the matcher held them. -/
structure Execution where
  taker : OrderBook
  maker : OrderBook
  deriving DecidableEq

inductive Err where
  | rejected
  | typeError
  deriving DecidableEq

/-- The operations of the service: database calls, the socket, its own memory. -/
inductive Op where
  | saveOrderBook (order : NewOrder)
  | updateOrderBook (id : Nat) (update : OrderUpdate) (x : Execution)
  | saveTrade (trade : NewTrade) (x : Execution)
  | findOrders (side : Side) (symbol : String) (limit : Nat) (order_by : Direction)
  | getAllTrades (symbol : String) (limit : Nat)
  | getUserOrdersNoSide (user_id : Nat) (symbol : String) (limit : Nat)
  | last_24_hours_data
  | price_before_24_hour
  | emit (message : Message)
  | setOrderBooks (buy_orders sell_orders : List OrderBook)
  | orderBooks
  | capture (side : Side) (order : OrderBook)
  | length (orders : Nat)
  | get (orders i : Nat)
  | setSize (orders i : Nat) (size : ℚ)
  | now

namespace Op

def Res : Op → Type
  | saveOrderBook _ => OrderBook
  | findOrders .. => List OrderBook
  | getAllTrades .. => List Trade
  | getUserOrdersNoSide .. => List OrderBook
  | last_24_hours_data => Tables.DayData
  | price_before_24_hour => ℚ
  | orderBooks => List OrderBook × List OrderBook
  | capture .. | length _ | now => Nat
  | get .. => OrderBook
  | updateOrderBook .. | saveTrade .. | emit _ | setOrderBooks .. | setSize .. => Unit

/-- Database calls: the await points. -/
def awaits : Op → Bool
  | saveOrderBook _ | updateOrderBook .. | saveTrade .. | findOrders .. | getAllTrades .. => true
  | getUserOrdersNoSide .. | last_24_hours_data | price_before_24_hour => true
  | _ => false

/-- Calls that leave the process and can fail: the database and the socket. -/
def external : Op → Bool
  | emit _ => true
  | o => o.awaits

/-- The database accepts the values written. -/
def admissible : Op → Bool
  | saveOrderBook order => order.admissible
  | updateOrderBook _ update _ => update.admissible
  | saveTrade trade _ => trade.admissible
  | _ => true

end Op

/-- A write the database accepted. -/
inductive Write where
  | order (order : NewOrder) (now : Nat)
  | update (id : Nat) (update : OrderUpdate) (x : Execution)
  | trade (trade : NewTrade) (x : Execution)

def Tables.write (db : Tables) : Write → Tables
  | .order order now => (db.saveOrderBook order now).2
  | .update id update _ => db.updateOrderBook id update
  | .trade trade _ => db.saveTrade trade

/-- An accepted write and the tables it found. -/
structure Entry where
  before : Tables
  write : Write

/-- An order's matcher and the resting orders it picked up. -/
structure Capture where
  order : OrderBook
  orders : List OrderBook

/-- References to the two current arrays of resting orders. -/
structure OrderBooks where
  buy_orders : Nat
  sell_orders : Nat

structure World where
  db : Tables
  arrays : List (List OrderBook)
  order_books : OrderBooks
  calls : Nat
  sent : List Message
  journal : List Entry
  captures : List Capture

/-- The service just constructed, over given tables. -/
def World.start (db : Tables) : World where
  db := db
  arrays := [[], []]
  order_books := ⟨0, 1⟩
  calls := 0
  sent := []
  journal := []
  captures := []

structure Env where
  clock : Nat → Nat
  fails : Nat → Op → Bool

/-- Every database and socket call succeeds. -/
def Env.Reliable (env : Env) : Prop := ∀ n o, env.fails n o = false

/-- Exactly the writes that break a column constraint are refused. -/
def Env.Constrained (env : Env) : Prop := ∀ n o, env.fails n o = !o.admissible

/-- What the columns cannot hold is refused. -/
def Env.RefusesInadmissible (env : Env) : Prop :=
  ∀ n o, o.admissible = false → env.fails n o = true

theorem Env.Constrained.refuses {env : Env} (h : env.Constrained) : env.RefusesInadmissible :=
  fun n o ho => by rw [h, ho, Bool.not_false]

/-- No call fails; the time is the number of the call. -/
def Env.steady : Env := ⟨fun n => n, fun _ _ => false⟩

theorem Env.steady_reliable : Env.steady.Reliable := fun _ _ => rfl

/-- The database refuses what its columns cannot hold. -/
def Env.constrained : Env := ⟨fun n => n, fun _ o => !o.admissible⟩

theorem Env.constrained_constrained : Env.constrained.Constrained := fun _ _ => rfl

namespace World

def array (w : World) (orders : Nat) : List OrderBook := w.arrays.getD orders []

def side (w : World) : Side → Nat
  | .BUY => w.order_books.buy_orders
  | .SELL => w.order_books.sell_orders

/-- One more external call. -/
def tick (w : World) : World := { w with calls := w.calls + 1 }

/-- Perform an accepted write. -/
def commit (w : World) (write : Write) : World :=
  { w with
    db := w.db.write write
    journal := w.journal ++ [⟨w.db, write⟩] }

/-- Answer an operation that does not fail; `now` is the time. -/
def answer (now : Nat) : (o : Op) → World → Except Err o.Res × World
  | .saveOrderBook order, w =>
      (.ok (w.db.saveOrderBook order now).1, w.commit (.order order now))
  | .updateOrderBook id update x, w => (.ok (), w.commit (.update id update x))
  | .saveTrade trade x, w => (.ok (), w.commit (.trade trade x))
  | .findOrders side symbol limit order_by, w =>
      (.ok (w.db.findOrders side symbol limit order_by), w)
  | .getAllTrades symbol limit, w => (.ok (w.db.getAllTrades symbol limit), w)
  | .getUserOrdersNoSide user_id symbol limit, w =>
      (.ok (w.db.getUserOrdersNoSide user_id symbol limit), w)
  | .last_24_hours_data, w => (.ok (w.db.last_24_hours_data now), w)
  | .price_before_24_hour, w => (.ok (w.db.price_before_24_hour now), w)
  | .emit message, w => (.ok (), { w with sent := w.sent ++ [message] })
  | .setOrderBooks buy_orders sell_orders, w =>
      (.ok (), { w with
        arrays := w.arrays ++ [buy_orders, sell_orders]
        order_books := ⟨w.arrays.length, w.arrays.length + 1⟩ })
  | .orderBooks, w =>
      (.ok (w.array w.order_books.buy_orders, w.array w.order_books.sell_orders), w)
  | .capture side order, w =>
      (.ok (w.side side),
        { w with captures := w.captures ++ [⟨order, w.array (w.side side)⟩] })
  | .length orders, w => (.ok (w.array orders).length, w)
  | .get orders i, w =>
      match (w.array orders)[i]? with
      | some order => (.ok order, w)
      | none => (.error .typeError, w)
  | .setSize orders i size, w =>
      (.ok (), { w with
        arrays := w.arrays.modify orders fun l => l.modify i fun r => { r with size := size } })
  | .now, w => (.ok now, w)

@[simp] theorem answer_calls (now : Nat) (o : Op) (w : World) :
    (answer now o w).2.calls = w.calls := by
  cases o with
  | get orders i =>
    simp only [answer]
    split <;> rfl
  | _ => rfl

/-- Answer an operation: an external call counts, and may fail without effect. -/
def perform (env : Env) : Handler Op Op.Res Err World := fun o w =>
  if o.external then
    if env.fails w.calls o then (.error .rejected, w.tick)
    else answer (env.clock w.calls) o w.tick
  else answer (env.clock w.calls) o w

end World

/-- Programs of the service. -/
abbrev Prog := Proc Op Op.Res Err

end Exchange
