import Exchange.Binance.Placing

/-!
# Recording what the exchange accepted

The exchange is called first; the row, the column of the wallet and its
statement come after, and one `catch` answers for all of them.
`recordedOrRefused_iff` says exactly when an accepted order is recorded and
settled and a refused request leaves the tables alone. An order that rests in
the book of the exchange is accepted and lost (`resting_order_lost`).
-/

namespace Exchange.Binance

open Async Proc Wallets Store

/-- An answer of the exchange: a new order has no fills, a filled one has some,
and they add up. -/
structure OrderResponse.Consistent (o : OrderResponse) : Prop where
  status : (o.status = .NEW ∧ o.fills = []) ∨
    ((o.status = .PARTIALLY_FILLED ∨ o.status = .FILLED) ∧ o.fills ≠ [])
  qty : ∀ fill ∈ o.fills, 0 < fill.qty
  price : ∀ fill ∈ o.fills, 0 < fill.price
  executedQty : o.executedQty = (o.fills.map Fill.qty).sum
  cummulativeQuoteQty : o.cummulativeQuoteQty = (o.fills.map fun fill => fill.price * fill.qty).sum

theorem OrderResponse.Consistent.executed {o : OrderResponse} (h : o.Consistent)
    (hfills : o.fills ≠ []) : 0 < o.executedQty := by
  rw [h.executedQty]
  apply List.sum_pos
  · intro q hq
    obtain ⟨fill, hfill, rfl⟩ := List.mem_map.mp hq
    exact h.qty fill hfill
  · simpa using hfills

theorem OrderResponse.Consistent.filled {o : OrderResponse} (h : o.Consistent)
    (hfills : o.fills ≠ []) : o.filled = true := by
  obtain ⟨-, hnil⟩ | ⟨hstatus, -⟩ := h.status
  · exact absurd hnil hfills
  · simpa [OrderResponse.filled, or_comm] using hstatus

/-- A wallet row of the user, on the network of the coin, has moved by the
amounts of the order. -/
def Settled (userId : Nat) (o : OrderResponse) (before after : Table Wallet Wallet.id) : Prop :=
  ∃ column, Column.ofName (mainColumn (coinOf o.symbol)) = some column ∧
    ∃ r ∈ before.rows, (r.user_id = userId ∧ r.network = networkOf (coinOf o.symbol)) ∧
      ∃ r' ∈ after.rows, (o.query userId).assign column r = some r'

/-- The order that is accepted is in `binance_trade`, with the wallet moved by
what it executed; what answers without success accepted nothing and changed no
table. -/
structure RecordedOrRefused (a : Answers) (w : World) (req : PlaceOrder)
    (r : Except Err Response) (w' : World) : Prop where
  recorded : ∀ o, w'.orders = w.orders ++ [o] →
    (∃ row, w'.db.binance_trade = w.db.binance_trade ++ [row] ∧
      row.user_id = req.userId ∧ row.orderId = o.orderId ∧ row.clientOrderId = o.clientOrderId) ∧
    (0 < o.executedQty → Settled req.userId o w.db.tbl_wallet w'.db.tbl_wallet)
  refused : ∀ answer, r = .ok answer → answer.success = false →
    w'.orders = w.orders ∧ w'.db = w.db

/-- Without an order, the request raises or the times of the listener stay;
with one, nothing fails after it and the user has a wallet on the network. -/
def World.records (a : Answers) (w : World) (req : PlaceOrder) : Prop :=
  match w.accepts a req with
  | none => w.gate a req = .raises ∨ (w.renewed a).db.listner_updated = w.db.listner_updated
  | some o => a.completes req.userId o w.db.tbl_wallet = true ∧
      ∃ r ∈ w.db.tbl_wallet.rows, r.user_id = req.userId ∧ r.network = networkOf (coinOf o.symbol)

section Request

variable {a : Answers} {w : World} {req : PlaceOrder}

theorem renewed_db : (w.renewed a).db = w.db ↔
    (w.renewed a).db.listner_updated = w.db.listner_updated := by
  unfold World.renewed
  split
  · obtain ⟨⟨tbl_wallet, binance_trade, trade_event, listner_updated⟩, ws, orders, queue⟩ := w
    simp [Tables.updateListenerTime]
  · simp

theorem inserts_eq_some {userId : Nat} {o : OrderResponse} {row : BinanceTrade}
    (h : a.inserts userId o = some row) :
    o.fills ≠ [] ∧ ∃ price, row = BinanceController.insertInBinanceTrade userId a.now o price := by
  obtain ⟨fill, hfill, hrow⟩ := Option.bind_eq_some_iff.mp h
  refine ⟨fun hnil => by simp [hnil] at hfill, fill.price, ?_⟩
  dsimp only at hrow
  split at hrow
  · exact (Option.some.inj hrow).symm
  · cases hrow

/-- An accepted statement moves every row that it selects. -/
theorem settled_of_statement {userId : Nat} {o : OrderResponse} {t t' : Table Wallet Wallet.id}
    {r : Wallet} (h : a.statement (o.query userId) t = some t') (hr : r ∈ t.rows)
    (hs : r.user_id = userId ∧ r.network = networkOf (coinOf o.symbol)) :
    Settled userId o t t' := by
  unfold Answers.statement at h
  split at h
  · obtain ⟨column, hcolumn, hupdate⟩ := Option.bind_eq_some_iff.mp h
    have hselects : (o.query userId).selects r = true := WalletQuery.selects_iff.mpr hs
    obtain ⟨r', hr'⟩ := Table.accepts_of_update hupdate r hr hselects
    exact ⟨column, hcolumn, r, hr, hs, r',
      Table.mem_update_selected hupdate hr hselects hr', hr'⟩
  · cases h

theorem recordedOrRefused_of_refused {r : Except Err Response} (hno : w.accepts a req = none)
    (hr : if w.gate a req = .raises then ∃ e, r = .error e
      else ∃ answer, r = .ok answer ∧ answer.success = false) :
    RecordedOrRefused a w req r (w.renewed a) ↔ w.records a req := by
  have horders : (w.renewed a).orders = w.orders := renewed_tables.2.2.1
  have hrecords : w.records a req ↔ w.gate a req = .raises ∨ (w.renewed a).db = w.db := by
    rw [renewed_db, World.records, hno]
  have hnone : ∀ o, (w.renewed a).orders ≠ w.orders ++ [o] := by
    intro o ho
    rw [horders] at ho
    simpa using congrArg List.length ho
  rw [hrecords]
  constructor
  · intro h
    by_cases hraises : w.gate a req = .raises
    · exact .inl hraises
    · obtain ⟨answer, hok, hanswer⟩ := (if_neg hraises).mp hr
      exact .inr (h.refused answer hok hanswer).2
  · intro h
    refine ⟨fun o ho => absurd ho (hnone o), fun answer hok hanswer => ⟨horders, ?_⟩⟩
    rcases h with hraises | hdb
    · obtain ⟨e, he⟩ := (if_pos hraises).mp hr
      rw [he] at hok
      cases hok
    · exact hdb

theorem recordedOrRefused_of_accepted {o : OrderResponse} {answer : Response} {w' : World}
    (hconsistent : o.Consistent) (ho : w.accepts a req = some o)
    (horders : w'.orders = w.orders ++ [o]) (hstored : Stored a req.userId o w w')
    (hanswer : answer.success = a.completes req.userId o w.db.tbl_wallet) :
    RecordedOrRefused a w req (.ok answer) w' ↔ w.records a req := by
  have hrecords : w.records a req ↔ a.completes req.userId o w.db.tbl_wallet = true ∧
      ∃ r ∈ w.db.tbl_wallet.rows,
        r.user_id = req.userId ∧ r.network = networkOf (coinOf o.symbol) := by
    rw [World.records, ho]
  rw [hrecords]
  constructor
  · intro h
    have hcompletes : a.completes req.userId o w.db.tbl_wallet = true := by
      by_contra hnot
      have hsame : w'.orders = w.orders :=
        (h.refused answer rfl (hanswer.trans (Bool.eq_false_iff.mpr hnot))).1
      rw [horders] at hsame
      simpa using congrArg List.length hsame
    refine ⟨hcompletes, ?_⟩
    have hinserts : (a.inserts req.userId o).isSome = true := by
      simp only [Answers.completes, Bool.and_eq_true] at hcompletes
      exact hcompletes.1.1
    obtain ⟨row, hrow⟩ := Option.isSome_iff_exists.mp hinserts
    have hexecuted : 0 < o.executedQty := hconsistent.executed (inserts_eq_some hrow).1
    obtain ⟨-, -, r, hr, hs, -⟩ := (h.recorded o horders).2 hexecuted
    exact ⟨r, hr, hs⟩
  · rintro ⟨hcompletes, r, hr, hs⟩
    have hall := hcompletes
    simp only [Answers.completes, Bool.and_eq_true, Bool.or_eq_true] at hall
    obtain ⟨⟨hinserts, hsettles⟩, -⟩ := hall
    obtain ⟨row, hrow⟩ := Option.isSome_iff_exists.mp hinserts
    obtain ⟨hfills, price, rfl⟩ := inserts_eq_some hrow
    have hfilled : o.filled = true := hconsistent.filled hfills
    refine ⟨?_, fun answer' hok hfalse => ?_⟩
    · intro o' ho'
      obtain rfl : o = o' := by
        rw [horders] at ho'
        simpa using ho'
      refine ⟨⟨_, by rw [hstored.binance_trade, hrow]; rfl, rfl, rfl, rfl⟩, fun _ => ?_⟩
      obtain ⟨t, ht⟩ : ∃ t, a.settles req.userId o w.db.tbl_wallet = some t := by
        apply Option.isSome_iff_exists.mp
        simpa [hfilled] using hsettles
      have hstatement : a.statement (o.query req.userId) w.db.tbl_wallet = some t := by
        rw [← ht, Answers.settles, if_pos ⟨hinserts, hfilled⟩]
      rw [hstored.tbl_wallet, ht]
      exact settled_of_statement hstatement hr hs
    · obtain rfl : answer = answer' := by simpa using hok
      rw [hanswer, hcompletes] at hfalse
      cases hfalse

end Request

/-- **Every accepted order is recorded and settled, or none was placed**, iff
nothing fails after an accepted order and no other request renews the listener. -/
theorem recordedOrRefused_iff (a : Answers) (w : World) (req : PlaceOrder)
    (hconsistent : ∀ n o, a.newOrder n = .ok o → o.Consistent) :
    RecordedOrRefused a w req ((BinanceController.placeOrder req).run (World.perform a) w).1
      ((BinanceController.placeOrder req).run (World.perform a) w).2 ↔ w.records a req := by
  have hplaced : Placed a req w _ _ := placeOrder_placed req
  unfold Placed at hplaced
  cases ho : w.accepts a req with
  | none =>
    rw [ho] at hplaced
    obtain ⟨hw', hr⟩ := hplaced
    rw [hw']
    exact recordedOrRefused_of_refused ho hr
  | some o =>
    rw [ho] at hplaced
    obtain ⟨horders, hstored, answer, hr, hanswer⟩ := hplaced
    obtain ⟨n, hn⟩ := answered_of_accepts ho
    rw [hr]
    exact recordedOrRefused_of_accepted (hconsistent n o hn) ho horders hstored hanswer

/-! ## A market order and a limit order -/

/-- User 1 holds 1000 USDT on the network of BTC. -/
def World.funded : World where
  db := {
    tbl_wallet := (Table.empty Wallet.id).insert
      ⟨1, 1, "Bitcoin", some "bc1", some "key", 1000, 0, 0, 0, 0⟩ rfl
    binance_trade := []
    trade_event := []
    listner_updated := [1000000] }
  ws := true
  orders := []
  trade_queue := []

/-- The exchange accepts every order with the answer `o`, and nothing fails. -/
def Answers.accepting (o : OrderResponse) : Answers where
  now := 1000000
  uniqid := "lk2f9"
  fails := fun _ => none
  readyState := .OPEN
  avgPrice := fun _ => .ok 100
  account := .ok [⟨"BTC", 10⟩, ⟨"USDT", 100000⟩]
  newOrder := fun _ => .ok o
  isUser := fun _ _ => false

/-- User 1 buys one BTC for USDT. -/
def PlaceOrder.buy (type : String) : PlaceOrder where
  userId := 1
  symbol := "BTCUSDT"
  side := "BUY"
  type := type
  price := .finite 100
  quantity := .finite 1
  main_currency := "BTC"
  secondary_currency := "USDT"

def OrderResponse.filledBuy : OrderResponse :=
  ⟨"BTCUSDT", 7, "lk2f9", 0, 1, 1, 100, .FILLED, "MARKET", .BUY, [⟨100, 1⟩]⟩

def OrderResponse.restingBuy : OrderResponse :=
  ⟨"BTCUSDT", 8, "lk2f9", 100, 1, 0, 0, .NEW, "LIMIT", .BUY, []⟩

theorem OrderResponse.filledBuy_consistent : filledBuy.Consistent where
  status := .inr ⟨.inr rfl, by decide⟩
  qty := by decide +kernel
  price := by decide +kernel
  executedQty := by decide +kernel
  cummulativeQuoteQty := by decide +kernel

theorem OrderResponse.restingBuy_consistent : restingBuy.Consistent where
  status := .inl ⟨rfl, rfl⟩
  qty := by decide
  price := by decide
  executedQty := rfl
  cummulativeQuoteQty := rfl

theorem recordedOrRefused_market :
    RecordedOrRefused (.accepting .filledBuy) .funded (.buy "MARKET")
      ((BinanceController.placeOrder (.buy "MARKET")).run
        (World.perform (.accepting .filledBuy)) .funded).1
      ((BinanceController.placeOrder (.buy "MARKET")).run
        (World.perform (.accepting .filledBuy)) .funded).2 := by
  apply (recordedOrRefused_iff _ _ _ ?_).mpr
  · have haccepts : World.funded.accepts (.accepting .filledBuy) (.buy "MARKET") =
        some .filledBuy := by decide +kernel
    rw [World.records, haccepts]
    decide +kernel
  · rintro n o ho
    cases ho
    exact OrderResponse.filledBuy_consistent

/-- A limit order that rests in the book of the exchange: it is accepted, no row
is written and the user is told that it failed. -/
theorem resting_order_lost :
    OrderResponse.restingBuy.Consistent ∧
      let end_ := (BinanceController.placeOrder (.buy "LIMIT")).run
        (World.perform (.accepting .restingBuy)) .funded
      (end_.1 = .ok ⟨false, "Failed To place Order", none⟩ ∧
        end_.2.orders = [.restingBuy] ∧ end_.2.db.binance_trade = []) ∧
      ¬RecordedOrRefused (.accepting .restingBuy) .funded (.buy "LIMIT") end_.1 end_.2 := by
  dsimp only
  have hrun : ((BinanceController.placeOrder (.buy "LIMIT")).run
        (World.perform (.accepting .restingBuy)) .funded).1 =
        .ok ⟨false, "Failed To place Order", none⟩ ∧
      ((BinanceController.placeOrder (.buy "LIMIT")).run
        (World.perform (.accepting .restingBuy)) .funded).2.orders = [.restingBuy] ∧
      ((BinanceController.placeOrder (.buy "LIMIT")).run
        (World.perform (.accepting .restingBuy)) .funded).2.db.binance_trade = [] := by
    decide +kernel
  refine ⟨OrderResponse.restingBuy_consistent, hrun, fun h => ?_⟩
  obtain ⟨horders, -⟩ := h.refused _ hrun.1 rfl
  rw [hrun.2.1] at horders
  exact List.cons_ne_nil _ _ horders

end Exchange.Binance
