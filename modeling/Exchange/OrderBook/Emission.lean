import Exchange.OrderBook.Run

/-!
# What is broadcast for a symbol

`Tables.message` is the object that `emitSocketData` broadcasts, as a function of the
tables and of the times of its two queries on all trades; there is none when the symbol
has no trade, for then it raises. `price_before_24_hour` is the price of the latest of the
trades that are older than a day, whatever their symbol.
-/

namespace Exchange

open Async Proc OrderBookService Store

/-- No call fails; the clock says the time at the `n`-th. -/
def Env.reliable (clock : Nat → Nat) : Env := ⟨clock, fun _ _ => false⟩

/-- The latest trade, the first in the table of several. -/
def latest (trades : List Trade) : Option Trade :=
  firstBy (fun a b => b.created_at ≤ a.created_at) trades

namespace Tables

variable (db : Tables) (symbol : String) (now : Nat)

/-- The trades of the last day. -/
def recent : List Trade := db.tbl_trades.rows.filter fun t => hoursBetween now t.created_at ≤ 24

/-- The trades that are older than a day. -/
def old : List Trade := db.tbl_trades.rows.filter fun t => 24 < hoursBetween now t.created_at

/-- The object that is broadcast, `day` and `before` being the times of the two queries. -/
def message (day before : Nat) : Option Message :=
  match db.getAllTrades symbol 20 with
  | [] => none
  | last_trade :: trades =>
    let change_in_price := number last_trade.price - db.price_before_24_hour before
    some {
      buy_orders := db.findOrders .BUY symbol 100 .ASC
      sell_orders := db.findOrders .SELL symbol 100 .DESC
      trades := last_trade :: trades
      last_trade := last_trade
      last_24_hour_data := db.last_24_hours_data day
      precentage_change := percentage change_in_price (db.price_before_24_hour before)
      change_in_price := change_in_price }

theorem price_before_24_hour_eq :
    db.price_before_24_hour now = ((latest (db.old now)).map fun t => number t.price).getD 0 := by
  have hone := orderByLimit_one (fun a b : Trade => b.created_at ≤ a.created_at) (db.old now)
  unfold price_before_24_hour latest
  unfold old at hone ⊢
  simp only [hone]
  cases firstBy _ _ <;> rfl

end Tables

variable {clock : Nat → Nat} {w : World} {symbol : String}

/-- A query answers, and the next call is one later. -/
theorem wp_query {β : Type} {o : Op} (ho : o.external = true) {a : o.Res} {f : o.Res → Prog β}
    {Q : Except Err β → World → Prop}
    (ha : World.answer (clock w.calls) o w.tick = (.ok a, w.tick))
    (hf : wp (World.perform (.reliable clock)) (f a) Q w.tick) :
    wp (World.perform (.reliable clock)) (OrderBookService.call o >>= f) Q w := by
  rw [wp_bind, OrderBookService.call, wp_call]
  have hperform : World.perform (.reliable clock) o w = (.ok a, w.tick) := by
    rw [World.perform, if_pos ho]
    exact ha
  rw [hperform]
  exact hf

/-- The books are loaded with two queries. -/
theorem fillOrderBook_fills :
    wp (World.perform (.reliable clock)) (fillOrderBook symbol) (fun r w' =>
      r = .ok () ∧ w'.db = w.db ∧ w'.calls = w.calls + 2 ∧ w'.sent = w.sent ∧
        Loaded symbol w') w := by
  unfold fillOrderBook
  apply wp_query rfl rfl
  apply wp_query rfl rfl
  apply (wp_call _ _).mpr
  refine ⟨rfl, rfl, rfl, rfl, ?_⟩
  simp [World.perform, Op.external, Op.awaits, World.answer, Loaded, World.array, World.side,
    World.tick]

/-- **What `emitSocketData` does**: it broadcasts the object, or raises when the symbol has
no trade. -/
theorem emitSocketData_emits (clock : Nat → Nat) (symbol : String) (w : World) :
    wp (World.perform (.reliable clock)) (emitSocketData symbol) (fun r w' =>
      match w.db.message symbol (clock (w.calls + 3)) (clock (w.calls + 4)) with
      | some m => r = .ok () ∧ w'.sent = w.sent ++ [m]
      | none => r = .error .typeError ∧ w'.sent = w.sent) w := by
  unfold emitSocketData
  rw [wp_bind]
  apply wp_mono fillOrderBook_fills
  rintro _ w₁ ⟨rfl, hdb, hcalls, hsent, hbuy, hsell, -⟩
  apply wp_query rfl rfl
  apply wp_query rfl rfl
  apply wp_query rfl rfl
  -- the calls so far: two for the books, one for the trades, one for the day
  have hday : w₁.tick.calls = w.calls + 3 := congrArg (· + 1) hcalls
  have hbefore : w₁.tick.tick.calls = w.calls + 4 := congrArg (· + 2) hcalls
  rw [hday, hbefore]
  unfold Tables.message
  rw [← hdb]
  change wp _ (match w₁.db.getAllTrades symbol 20 with | [] => _ | t :: ts => _) _ _
  cases htrades : w₁.db.getAllTrades symbol 20 with
  | nil => exact ⟨rfl, hsent⟩
  | cons t ts =>
    apply (wp_bind _ _ _).mpr
    apply (wp_call _ _).mpr
    apply (wp_call _ _).mpr
    refine ⟨rfl, ?_⟩
    change w₁.sent ++ [_] = w.sent ++ [_]
    rw [hsent, ← hbuy, ← hsell, ← htrades]
    rfl

/-- The emission completes, and broadcasts just this message. -/
def Emits (clock : Nat → Nat) (symbol : String) (w : World) (m : Message) : Prop :=
  wp (World.perform (.reliable clock)) (emitSocketData symbol)
    (fun r w' => r = .ok () ∧ w'.sent = w.sent ++ [m]) w

theorem emits_iff {m : Message} :
    Emits clock symbol w m ↔
      w.db.message symbol (clock (w.calls + 3)) (clock (w.calls + 4)) = some m := by
  have hemit := emitSocketData_emits clock symbol w
  constructor
  · rintro ⟨hok, hsent⟩
    unfold wp at hemit
    split at hemit
    · rename_i m' hmessage
      have hsame := hsent.symm.trans hemit.2
      obtain rfl : m = m' := by simpa using hsame
      exact hmessage
    · cases hok.symm.trans hemit.1
  · intro hm
    rw [hm] at hemit
    exact hemit

theorem message_isSome_iff (db : Tables) (symbol : String) (day before : Nat) :
    (∃ m, db.message symbol day before = some m) ↔ db.HasTrade symbol := by
  unfold Tables.message
  cases htrades : db.getAllTrades symbol 20 with
  | nil => simp [Tables.not_hasTrade_of_getAllTrades htrades]
  | cons t ts => simp [Tables.hasTrade_of_getAllTrades htrades]

end Exchange
