import Exchange.OrderBook.Emission

/-!
# Market data from the gateway

`SocketGateway.listenForOrder` broadcasts the market data of a symbol when a client asks
for them, and `emitSocketData` after every write. The two are written separately: the
first guards an empty list of trades and a price that is not positive, the second
neither.

Proved here: they broadcast the same iff the symbol has a trade and the latest of the
trades that are older than a day has a positive price (`agree_iff`).
-/

namespace Exchange

open Async Proc OrderBookService Store

/-- The text `precentage_change`: of a percentage, or `'0'`. -/
inductive ChangeText where
  | percentage (p : Percentage)
  | zero
  deriving DecidableEq

/-- The object that either path broadcasts on `message`. -/
structure Payload where
  buy_orders : List OrderBook
  sell_orders : List OrderBook
  trades : List Trade
  last_trade : Option Trade
  last_24_hour_data : Tables.DayData
  precentage_change : ChangeText
  change_in_price : ℚ
  deriving DecidableEq

def Message.payload (m : Message) : Payload where
  buy_orders := m.buy_orders
  sell_orders := m.sell_orders
  trades := m.trades
  last_trade := some m.last_trade
  last_24_hour_data := m.last_24_hour_data
  precentage_change := .percentage m.precentage_change
  change_in_price := m.change_in_price

namespace SocketGateway

inductive Op where
  | database (o : Exchange.Op)
  | emit (payload : Payload)

def Op.Res : Op → Type
  | database o => o.Res
  | emit _ => Unit

/-- The world with what the gateway has broadcast. -/
structure Server where
  world : World
  sent : List Payload

def perform (env : Env) : Handler Op Op.Res Err Server
  | .database o, s =>
      ((World.perform env o s.world).1, { s with world := (World.perform env o s.world).2 })
  | .emit payload, s => (.ok (), { s with sent := s.sent ++ [payload] })

/-- What a client sends with `get_data`. -/
structure GetData where
  symbol : String

def query (o : Exchange.Op) : Proc Op Op.Res Err o.Res := Proc.call (Op.database o)

def listenForOrder (payload : GetData) : Proc Op Op.Res Err Unit := do
  let buy_orders : List OrderBook ← query (.findOrders .BUY payload.symbol 100 .ASC)
  let sell_orders : List OrderBook ← query (.findOrders .SELL payload.symbol 100 .DESC)
  let trades : List Trade ← query (.getAllTrades payload.symbol 20)
  let last_24_hour_data : Tables.DayData ← query .last_24_hours_data
  let price_before_24_hour : ℚ ← query .price_before_24_hour
  let change_in_price : ℚ :=
    match trades with
    | last_trade :: _ => number last_trade.price - price_before_24_hour
    | [] => 0
  let precentage_change : ChangeText :=
    if 0 < price_before_24_hour then
      .percentage {
        plus := 0 < change_in_price
        value := .div (change_in_price * 100) price_before_24_hour }
    else .zero
  Proc.call (Op.emit {
    buy_orders := buy_orders
    sell_orders := sell_orders
    trades := trades
    last_trade := trades.head?
    last_24_hour_data := last_24_hour_data
    precentage_change := precentage_change
    change_in_price := change_in_price })

end SocketGateway

open SocketGateway

/-- The object that the gateway broadcasts, `day` and `before` being the times of the queries. -/
def Tables.data (db : Tables) (symbol : String) (day before : Nat) : Payload :=
  let trades := db.getAllTrades symbol 20
  let change_in_price : ℚ :=
    match trades with
    | last_trade :: _ => number last_trade.price - db.price_before_24_hour before
    | [] => 0
  { buy_orders := db.findOrders .BUY symbol 100 .ASC
    sell_orders := db.findOrders .SELL symbol 100 .DESC
    trades := trades
    last_trade := trades.head?
    last_24_hour_data := db.last_24_hours_data day
    precentage_change :=
      if 0 < db.price_before_24_hour before then
        .percentage {
          plus := 0 < change_in_price
          value := .div (change_in_price * 100) (db.price_before_24_hour before) }
      else .zero
    change_in_price := change_in_price }

/-- The percentage is not the result of a division by zero. -/
def Payload.Finite (p : Payload) : Prop :=
  ∀ c, p.precentage_change = .percentage c → ∃ q, c.value = .finite q

/-- Both paths complete, with the same message, and neither divides by zero. -/
def Agree (clock : Nat → Nat) (symbol : String) (w : World) : Prop :=
  ∃ m : Message,
    Emits clock symbol w m ∧
    wp (SocketGateway.perform (.reliable clock)) (listenForOrder ⟨symbol⟩)
      (fun r s => r = .ok () ∧ s.sent = [m.payload]) ⟨w, []⟩ ∧
    m.payload.Finite

variable {clock : Nat → Nat} {w : World} {symbol : String}

theorem Quotient.div_finite_iff {a b : ℚ} : (∃ q, Quotient.div a b = .finite q) ↔ b ≠ 0 := by
  unfold Quotient.div
  by_cases hb : b = 0
  · rw [if_neg (not_not.mpr hb)]
    refine ⟨fun ⟨q, hq⟩ => ?_, fun h => (h hb).elim⟩
    split_ifs at hq
  · simp [hb]

/-- A query of the gateway. -/
theorem wp_gateway {β : Type} {s : Server} {o : Exchange.Op} (ho : o.external = true) {a : o.Res}
    {f : o.Res → Proc SocketGateway.Op SocketGateway.Op.Res Err β}
    {Q : Except Err β → Server → Prop}
    (ha : World.answer (clock s.world.calls) o s.world.tick = (.ok a, s.world.tick))
    (hf : wp (SocketGateway.perform (.reliable clock)) (f a) Q { s with world := s.world.tick }) :
    wp (SocketGateway.perform (.reliable clock)) (query o >>= f) Q s := by
  have hperform : SocketGateway.perform (.reliable clock) (.database o) s =
      (.ok a, { s with world := s.world.tick }) := by
    have hworld : World.perform (.reliable clock) o s.world = (.ok a, s.world.tick) := by
      rw [World.perform, if_pos ho]
      exact ha
    simp only [SocketGateway.perform, hworld]
    rfl
  apply (wp_bind _ _ _).mpr
  apply (wp_call (SocketGateway.Op.database o) _).mpr
  rw [hperform]
  exact hf

/-- **What `listenForOrder` does**: it always broadcasts the data. -/
theorem listenForOrder_emits (clock : Nat → Nat) (symbol : String) (s : Server) :
    wp (SocketGateway.perform (.reliable clock)) (listenForOrder ⟨symbol⟩) (fun r s' =>
      r = .ok () ∧ s'.sent = s.sent ++ [s.world.db.data symbol (clock (s.world.calls + 3))
        (clock (s.world.calls + 4))]) s := by
  unfold listenForOrder
  apply wp_gateway rfl rfl
  apply wp_gateway rfl rfl
  apply wp_gateway rfl rfl
  apply wp_gateway rfl rfl
  apply wp_gateway rfl rfl
  apply (wp_call _ _).mpr
  exact ⟨rfl, rfl⟩

/-- The two objects are the same iff the earlier price is positive. -/
theorem payload_eq_data_iff {db : Tables} {day before : Nat} {m : Message}
    (hm : db.message symbol day before = some m) :
    m.payload = db.data symbol day before ↔ 0 < db.price_before_24_hour before := by
  unfold Tables.message at hm
  unfold Tables.data
  cases htrades : db.getAllTrades symbol 20 with
  | nil =>
    rw [htrades] at hm
    cases hm
  | cons t ts =>
    rw [htrades] at hm
    cases hm
    by_cases hpos : 0 < db.price_before_24_hour before
    · simp [Message.payload, percentage, hpos]
    · simp [Message.payload, hpos]

theorem payload_finite_iff {db : Tables} {day before : Nat} {m : Message}
    (hm : db.message symbol day before = some m) :
    m.payload.Finite ↔ db.price_before_24_hour before ≠ 0 := by
  unfold Tables.message at hm
  split at hm
  · cases hm
  · cases hm
    simp [Payload.Finite, Message.payload, percentage, Quotient.div_finite_iff]

theorem price_before_pos_iff {db : Tables} {now : Nat} :
    0 < db.price_before_24_hour now ↔
      ∃ t, latest (db.old now) = some t ∧ 0 < number t.price := by
  rw [Tables.price_before_24_hour_eq]
  cases latest (db.old now) <;> simp

/-- **When the two paths agree**: the symbol has a trade, and the latest of the trades older
than a day, of any symbol, has a positive price. -/
theorem agree_iff :
    Agree clock symbol w ↔
      w.db.HasTrade symbol ∧
        ∃ t, latest (w.db.old (clock (w.calls + 4))) = some t ∧ 0 < number t.price := by
  have hlisten := listenForOrder_emits clock symbol ⟨w, []⟩
  rw [← price_before_pos_iff,
    ← message_isSome_iff w.db symbol (clock (w.calls + 3)) (clock (w.calls + 4))]
  constructor
  · rintro ⟨m, hm, hp, -⟩
    have hsame : m.payload = w.db.data symbol (clock (w.calls + 3)) (clock (w.calls + 4)) := by
      have hsent := hp.2.symm.trans hlisten.2
      simpa using hsent
    have hmessage := emits_iff.mp hm
    exact ⟨⟨m, hmessage⟩, (payload_eq_data_iff hmessage).mp hsame⟩
  · rintro ⟨⟨m, hm⟩, hpos⟩
    refine ⟨m, emits_iff.mpr hm, ?_, (payload_finite_iff hm).mpr hpos.ne'⟩
    rw [(payload_eq_data_iff hm).mpr hpos]
    exact hlisten

/-- What the two paths have broadcast, from an empty start. -/
theorem Agree.same (h : Agree clock symbol w) (hw : w.sent = []) :
    (run (World.perform (.reliable clock)) (emitSocketData symbol) w).2.sent.map Message.payload =
      (run (SocketGateway.perform (.reliable clock)) (listenForOrder ⟨symbol⟩) ⟨w, []⟩).2.sent := by
  obtain ⟨m, ⟨-, hsent⟩, ⟨-, hsent'⟩, -⟩ := h
  rw [hsent, hsent', hw]
  rfl

/-- The first trade of all: after it every percentage is divided by zero, and the gateway
broadcasts `'0'`. Before it the gateway answers and `emitSocketData` raises. -/
theorem first_trade_disagrees :
    ¬ Agree (fun _ => 2) "BTC/USDT" (.start .traded) ∧
      (run (World.perform (.reliable fun _ => 2)) (emitSocketData "BTC/USDT")
        (.start .traded)).2.sent.map (fun m => m.precentage_change) = [⟨false, .infinity⟩] ∧
      (run (SocketGateway.perform (.reliable fun _ => 2)) (listenForOrder ⟨"BTC/USDT"⟩)
        ⟨.start .traded, []⟩).2.sent.map (fun p => p.precentage_change) = [.zero] ∧
      ¬ Agree (fun _ => 2) "BTC/USDT" (.start .empty) := by
  refine ⟨fun h => ?_, by decide +kernel, by decide +kernel, fun h => ?_⟩
  · exact absurd (h.same rfl) (by decide +kernel)
  · exact absurd (h.same rfl) (by decide +kernel)

end Exchange
