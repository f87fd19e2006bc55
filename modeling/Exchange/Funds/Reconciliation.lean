import Exchange.Funds.Conduct
import Exchange.Store.Rowwise

/-!
# Reconciling the wallets with the trades

Every request that is accepted by the exchange, every row of `binance_trade` and every
statement on a wallet is accounted for, in every interleaving: an order is of one
request, a row is of one order, a row is settled at most once, and rows are deleted by
cancellations that the exchange has confirmed. So the balances are explained by the rows
(`balances_reconciled`): what a wallet has gained since the start is the sum over rows that
were settled, also those deleted since, and nothing else moves it.
-/

namespace Exchange.Funds

open Async Async.Proc Store Wallets Binance Settlement

/-! ## What a row adds to a wallet -/

/-- What the statement adds to a column of the rows that it selects. -/
def adds (q : WalletQuery) (c : Column) : ℚ :=
  (if Column.ofName q.main_column = some c then q.main else 0) +
    if c = .usdt_balance then q.usdt else 0

/-- What settled rows add to a column of a wallet. -/
def gained (settled : List BinanceTrade) (r : Wallet) (c : Column) : ℚ :=
  ((settled.filter fun row => (query row).selects r).map fun row => adds (query row) c).sum

/-- All but the balances is as it was. -/
def SameWallet (r r' : Wallet) : Prop :=
  r' = { r with
    usdt_balance := r'.usdt_balance
    bnb_balance := r'.bnb_balance
    eth_balance := r'.eth_balance
    btc_balance := r'.btc_balance
    drnh_balance := r'.drnh_balance }

/-- The wallet has gained what the rows add, in every column. -/
structure Booked (settled : List BinanceTrade) (r r' : Wallet) : Prop where
  same : SameWallet r r'
  balance : ∀ c, r'.get c = r.get c + gained settled r c

section Rows

variable {r r' r'' : Wallet} {column : Column} {amount : ℚ} {q : WalletQuery}
  {settled : List BinanceTrade} {row : BinanceTrade}

theorem SameWallet.refl (r : Wallet) : SameWallet r r := rfl

theorem SameWallet.trans (h : SameWallet r r') (h' : SameWallet r' r'') : SameWallet r r'' := by
  unfold SameWallet at *
  rw [h', h]

theorem sameWallet_set (r : Wallet) (c : Column) (value : ℚ) : SameWallet r (r.set c value) := by
  cases c <;> rfl

theorem SameWallet.selects (h : SameWallet r r') (q : WalletQuery) :
    q.selects r' = q.selects r := by
  unfold SameWallet at h
  rw [h]
  rfl

theorem increment_adds (h : r.increment column amount = some r') (hr : r.Decimal)
    (ha : IsDecimal 8 amount) : SameWallet r r' ∧ r'.Decimal ∧
      ∀ c, r'.get c = r.get c + if c = column then amount else 0 := by
  have hset : r' = r.set column (r.get column + amount) := by
    rw [Wallet.of_increment h, ((hr column).add ha).roundTo_eq]
  rw [hset]
  refine ⟨sameWallet_set .., fun c => ?_, fun c => ?_⟩
  · by_cases hc : c = column
    · rw [hc, Wallet.get_set_self]
      exact (hr column).add ha
    · rw [Wallet.get_set_of_ne _ hc]
      exact hr c
  · by_cases hc : c = column
    · rw [hc, Wallet.get_set_self, if_pos rfl]
    · rw [Wallet.get_set_of_ne _ hc, if_neg hc, add_zero]

theorem assign_books (h : q.assign column r = some r')
    (hcolumn : Column.ofName q.main_column = some column)
    (hr : r.Decimal) (hmain : IsDecimal 8 q.main) (husdt : IsDecimal 8 q.usdt) :
    SameWallet r r' ∧ r'.Decimal ∧ ∀ c, r'.get c = r.get c + adds q c := by
  obtain ⟨r₁, h₁, h₂⟩ := WalletQuery.of_assign h
  obtain ⟨hsame₁, hdecimal₁, hget₁⟩ := increment_adds h₁ hr hmain
  obtain ⟨hsame₂, hdecimal₂, hget₂⟩ := increment_adds h₂ hdecimal₁ husdt
  refine ⟨hsame₁.trans hsame₂, hdecimal₂, fun c => ?_⟩
  have hcolumns : (c = column) = (Column.ofName q.main_column = some c) := by
    rw [hcolumn, Option.some.injEq]
    exact propext eq_comm
  rw [hget₂, hget₁, adds, add_assoc]
  simp only [hcolumns]

theorem Booked.start (r : Wallet) : Booked [] r r where
  same := .refl r
  balance := fun c => by simp [gained]

/-- One more row is settled, and the wallet is not among those that it selects. -/
theorem Booked.other (h : Booked settled r r') (hs : ¬(query row).selects r' = true) :
    Booked (settled ++ [row]) r r' where
  same := h.same
  balance := fun c => by
    rw [h.same.selects] at hs
    rw [h.balance, gained, gained, List.filter_append]
    simp [hs]

/-- One more row is settled, in this wallet. -/
theorem Booked.settle (h : Booked settled r r') (hs : (query row).selects r' = true)
    (hsame : SameWallet r' r'') (hget : ∀ c, r''.get c = r'.get c + adds (query row) c) :
    Booked (settled ++ [row]) r r'' where
  same := h.same.trans hsame
  balance := fun c => by
    rw [h.same.selects] at hs
    rw [hget, h.balance, gained, gained, List.filter_append]
    simp [hs, add_assoc]

end Rows

/-! ## What a call does -/

/-- What the accounts are about. -/
structure SameBooks (w w' : World) : Prop where
  wallets : w'.tbl_wallet = w.tbl_wallet
  trades : w'.binance.db.binance_trade = w.binance.db.binance_trade
  orders : w'.binance.orders = w.binance.orders
  cancelled : w'.cancelled = w.cancelled
  arrived : w'.arrived = w.arrived

/-- The calls that change them. -/
def Books : Op → Prop
  | .exchange (.newOrder _) | .exchange (.insertInBinanceTrade _)
  | .exchange (.updateWalletQuery _) | .cancelling _ => True
  | _ => False

section Calls

variable {a : Answers} {w : World} {s : Phase}

theorem exchange_books {o : Binance.Op} (ho : ¬Books (.exchange o)) :
    SameBooks w (answer a (.exchange o) w).2 := by
  have hreply : ∀ {α : Type} (o' : Binance.Op) (r : α) (b : Binance.World),
      b.db.tbl_wallet = w.orders.db.tbl_wallet → b.db.binance_trade = w.orders.db.binance_trade →
      b.orders = w.orders.orders →
      SameBooks w { w with toWorld := w.withOrders (a.exchange.reply o' w.orders r b).2 } := by
    intro α o' r b hwallets htrades horders
    unfold Binance.Answers.reply
    split
    · exact ⟨rfl, rfl, rfl, rfl, rfl⟩
    · exact ⟨hwallets, htrades, horders, rfl, rfl⟩
  cases o with
  | newOrder order => exact absurd trivial ho
  | insertInBinanceTrade row => exact absurd trivial ho
  | updateWalletQuery q => exact absurd trivial ho
  | date => exact ⟨rfl, rfl, rfl, rfl, rfl⟩
  | uniqid => exact ⟨rfl, rfl, rfl, rfl, rfl⟩
  | ws => exact ⟨rfl, rfl, rfl, rfl, rfl⟩
  | connect => exact ⟨rfl, rfl, rfl, rfl, rfl⟩
  | avgPrice symbol => exact ⟨rfl, rfl, rfl, rfl, rfl⟩
  | account => exact ⟨rfl, rfl, rfl, rfl, rfl⟩
  | updateBinanceTrade item => exact ⟨rfl, rfl, rfl, rfl, rfl⟩
  | _ => exact hreply _ _ _ rfl rfl rfl

theorem withdrawing_books (o : Wallets.Op) : SameBooks w (answer a (.withdrawing o) w).2 := by
  have hwallets : (Wallets.World.perform a.withdrawing o w.settlement.wallets).2.db.tbl_wallet =
      w.settlement.wallets.db.tbl_wallet := by
    cases o with
    | transfer t => rfl
    | startWithdrawalCron | saveError => rfl
    | _ =>
      simp only [Wallets.World.perform, Wallets.Answers.reply]
      split <;> rfl
  exact ⟨hwallets, rfl, rfl, rfl, rfl⟩

/-- A statement on the wallets that names no column, or no number, is refused. -/
theorem incrementWallet_refused (t : Table Wallet Wallet.id) (c : WalletWhere) {column : String}
    {amount : Option ℚ} (h : Column.ofName column = none ∨ amount = none) :
    incrementWallet t c column amount = none := by
  rcases h with h | rfl
  · simp [incrementWallet, h]
  · exact incrementWallet_none t c column

theorem settlement_books {o : Settlement.Op} (ho : Decides o) :
    SameBooks w (answer a (.settlement o) w).2 := by
  have hwallets : (Settlement.World.perform a.settlement o w.settlement).2.wallets.db.tbl_wallet =
      w.settlement.wallets.db.tbl_wallet := by
    cases o with
    | incrementWallet c column amount =>
      simp only [Settlement.World.perform, incrementWallet_refused _ c ho]
      rfl
    | decrementWallet c column amount =>
      have hnone : Column.ofName column = none ∨ amount.map (- ·) = none := by
        rcases ho with h | rfl
        · exact .inl h
        · exact .inr rfl
      simp only [Settlement.World.perform, incrementWallet_refused _ c hnone]
      rfl
    | receipt transaction_hash from_address network => rfl
    | findTransactionForDeposit v => rfl
    | date => rfl
    | incrementAddress c amount =>
      simp only [Settlement.World.perform, Settlement.World.statement, Settlement.World.reply]
      cases Settlement.incrementAddress w.settlement.wallets.db.address_balance c amount with
      | none => rfl
      | some t =>
        dsimp only [Option.map_some]
        split <;> rfl
    | decrementAddress c amount =>
      simp only [Settlement.World.perform, Settlement.World.statement, Settlement.World.reply]
      cases Settlement.incrementAddress w.settlement.wallets.db.address_balance c
          (amount.map (- ·)) with
      | none => rfl
      | some t =>
        dsimp only [Option.map_some]
        split <;> rfl
    | saveError => rfl
    | _ =>
      simp only [Settlement.World.perform, Settlement.World.reply]
      split <;> rfl
  exact ⟨hwallets, rfl, rfl, rfl, rfl⟩

/-- Every other call leaves the accounts as they are. -/
theorem answer_books {o : Op} (hmay : may s o) (ho : ¬Books o) :
    SameBooks w (answer a o w).2 := by
  cases o with
  | exchange o => exact exchange_books ho
  | cancelling o => exact absurd trivial ho
  | withdrawing o => exact withdrawing_books o
  | settlement o => exact settlement_books hmay

end Calls

/-! ## The accounts -/

/-- The amounts of an order have eight places. -/
structure Decimal (o : OrderResponse) : Prop where
  executedQty : IsDecimal 8 o.executedQty
  cummulativeQuoteQty : IsDecimal 8 o.cummulativeQuoteQty

/-- The exchange answers amounts of eight places. -/
def Answers.Decimal (a : Answers) : Prop := ∀ n o, a.exchange.newOrder n = .ok o → Funds.Decimal o

/-- The order that a request asks for. -/
def Request.order : Request → Option PlaceOrder
  | placeOrder req => some req
  | _ => none

/-- The cancellation that a request asks for. -/
def Request.cancels : Request → Option CancelOrder
  | cancelOrder req => some req
  | _ => none

/-- A request that has not been answered by the exchange. -/
def Phase.unplaced : Phase → Option PlaceOrder
  | placing req => some req
  | _ => none

/-- An order whose row is not inserted yet. -/
def Phase.unrecorded : Phase → Option (PlaceOrder × OrderResponse)
  | ordered req o => some (req, o)
  | _ => none

/-- A row that is not settled yet. -/
def Phase.unsettled : Phase → Option BinanceTrade
  | recorded row => some row
  | _ => none

/-- A cancellation that has not been answered by the exchange. -/
def Phase.uncancelled : Phase → Option CancelOrder
  | cancelling req => some req
  | _ => none

/-- A cancellation whose rows are not deleted yet. -/
def Phase.undeleted : Phase → Option CancelOrder
  | cancelled req => some req
  | _ => none

/-- The phases hold the same. -/
structure SameHolds (s s' : Phase) : Prop where
  unplaced : s'.unplaced = s.unplaced
  unrecorded : s'.unrecorded = s.unrecorded
  unsettled : s'.unsettled = s.unsettled
  uncancelled : s'.uncancelled = s.uncancelled
  undeleted : s'.undeleted = s.undeleted

/-- What has become of requests, orders, rows and cancellations: each list with what was
lost on the way. -/
structure Accounts where
  placed : List (PlaceOrder × OrderResponse)
  refused : List PlaceOrder
  recorded : List (PlaceOrder × OrderResponse)
  failed : List (PlaceOrder × OrderResponse)
  rows : List BinanceTrade
  settled : List BinanceTrade
  skipped : List BinanceTrade
  cancelled : List CancelOrder
  rejected : List CancelOrder
  deleted : List (CancelOrder × List BinanceTrade)
  kept : List CancelOrder

section Parts

variable (w₀ : Solvency.World) (b : Accounts) (w : World) (phases : List Phase)

/-- Each order is of another request. -/
structure OrdersRight (placed : List (PlaceOrder × OrderResponse)) (refused : List PlaceOrder) :
    Prop where
  requests : Accounted Phase.unplaced phases (placed.map Prod.fst) refused
    (w.arrived.filterMap Request.order)
  orders : w.binance.orders = w₀.binance.orders ++ placed.map Prod.snd
  decimal : ∀ p ∈ placed, Decimal p.2

/-- Each row is of another order, and was not deleted or only once. -/
structure RowsRight (placed recorded failed : List (PlaceOrder × OrderResponse))
    (rows : List BinanceTrade) (deleted : List (CancelOrder × List BinanceTrade)) : Prop where
  accepted : Accounted Phase.unrecorded phases recorded failed placed
  records : List.Forall₂ Records recorded rows
  amounts : ∀ row ∈ rows, IsDecimal 8 (query row).main ∧ IsDecimal 8 (query row).usdt
  trades : (w.binance.db.binance_trade ++ (deleted.map Prod.snd).flatten).Perm
    (w₀.binance.db.binance_trade ++ rows)

/-- Rows are deleted once for each cancellation, after the exchange has confirmed it. -/
structure CancellationsRight (cancelled rejected : List CancelOrder)
    (deleted : List (CancelOrder × List BinanceTrade)) (kept : List CancelOrder) : Prop where
  requests : Accounted Phase.uncancelled phases cancelled rejected
    (w.arrived.filterMap Request.cancels)
  confirmed : w.cancelled = cancelled.map fun req => (req.symbol, req.orderId)
  deleted : Accounted Phase.undeleted phases (deleted.map Prod.fst) kept cancelled

/-- Each row is settled at most once, and the wallets are what settled rows make of them. -/
structure WalletsRight (rows settled skipped : List BinanceTrade) : Prop where
  inserted : Accounted Phase.unsettled phases settled skipped rows
  executed : ∀ row ∈ settled, Executed row
  wallets : ∀ r ∈ w.tbl_wallet.rows, r.Decimal
  booked : List.Forall₂ (Booked settled) w₀.tbl_wallet.rows w.tbl_wallet.rows

/-- The accounts of a run that started with `w₀`. -/
structure Balanced : Prop where
  orders : OrdersRight w₀ w phases b.placed b.refused
  rows : RowsRight w₀ w phases b.placed b.recorded b.failed b.rows b.deleted
  cancellations : CancellationsRight w phases b.cancelled b.rejected b.deleted b.kept
  wallets : WalletsRight w₀ w phases b.rows b.settled b.skipped

end Parts

theorem Records.decimal {req : PlaceOrder} {o : OrderResponse} {row : BinanceTrade}
    (h : Records (req, o) row) (ho : Decimal o) :
    IsDecimal 8 (query row).main ∧ IsDecimal 8 (query row).usdt := by
  obtain ⟨now, fill, -, rfl⟩ := h
  simp only [query, walletQuery, BinanceController.insertInBinanceTrade]
  cases o.side with
  | BUY => exact ⟨ho.executedQty, ho.cummulativeQuoteQty.neg⟩
  | SELL => exact ⟨ho.executedQty.neg, ho.cummulativeQuoteQty⟩

section Steps

variable {w₀ : Solvency.World} {b : Accounts} {w w' : World} {phases : List Phase} {i : Nat}
  {s s' : Phase} {a : Answers}

theorem Balanced.start (h : ∀ r ∈ w₀.tbl_wallet.rows, r.Decimal) :
    Balanced w₀ ⟨[], [], [], [], [], [], [], [], [], [], []⟩ (.start w₀) [] where
  orders := ⟨.nil, (List.append_nil _).symm, by simp⟩
  rows := by
    refine ⟨.nil, .nil, by simp, ?_⟩
    show (w₀.binance.db.binance_trade ++ []).Perm (w₀.binance.db.binance_trade ++ [])
    rfl
  cancellations := ⟨.nil, rfl, .nil⟩
  wallets := ⟨.nil, by simp, h, List.forall₂_same.mpr fun r _ => Booked.start r⟩

/-! What a step leaves as it is. -/

section Same

variable {placed recorded failed : List (PlaceOrder × OrderResponse)} {refused : List PlaceOrder}
  {rows settled skipped : List BinanceTrade} {cancelled rejected kept : List CancelOrder}
  {deleted : List (CancelOrder × List BinanceTrade)}

theorem OrdersRight.same (h : OrdersRight w₀ w phases placed refused) (hi : phases[i]? = some s)
    (hs : s'.unplaced = s.unplaced) (harrived : w'.arrived = w.arrived)
    (horders : w'.binance.orders = w.binance.orders) :
    OrdersRight w₀ w' (phases.set i s') placed refused where
  requests := by
    rw [harrived]
    exact h.requests.same hi hs
  orders := horders.trans h.orders
  decimal := h.decimal

theorem RowsRight.same (h : RowsRight w₀ w phases placed recorded failed rows deleted)
    (hi : phases[i]? = some s) (hs : s'.unrecorded = s.unrecorded)
    (htrades : w'.binance.db.binance_trade = w.binance.db.binance_trade) :
    RowsRight w₀ w' (phases.set i s') placed recorded failed rows deleted where
  accepted := h.accepted.same hi hs
  records := h.records
  amounts := h.amounts
  trades := by
    rw [htrades]
    exact h.trades

theorem CancellationsRight.same (h : CancellationsRight w phases cancelled rejected deleted kept)
    (hi : phases[i]? = some s) (hs : s'.uncancelled = s.uncancelled)
    (hs' : s'.undeleted = s.undeleted) (harrived : w'.arrived = w.arrived)
    (hcancelled : w'.cancelled = w.cancelled) :
    CancellationsRight w' (phases.set i s') cancelled rejected deleted kept where
  requests := by
    rw [harrived]
    exact h.requests.same hi hs
  confirmed := hcancelled.trans h.confirmed
  deleted := h.deleted.same hi hs'

theorem WalletsRight.same (h : WalletsRight w₀ w phases rows settled skipped)
    (hi : phases[i]? = some s) (hs : s'.unsettled = s.unsettled)
    (hwallets : w'.tbl_wallet = w.tbl_wallet) :
    WalletsRight w₀ w' (phases.set i s') rows settled skipped where
  inserted := h.inserted.same hi hs
  executed := h.executed
  wallets := hwallets ▸ h.wallets
  booked := hwallets ▸ h.booked

end Same

/-- A step that changes no account: the program holds what it held. -/
theorem Balanced.same (h : Balanced w₀ b w phases) (hw : SameBooks w w')
    (hi : phases[i]? = some s) (hs : SameHolds s s') : Balanced w₀ b w' (phases.set i s') where
  orders := h.orders.same hi hs.unplaced hw.arrived hw.orders
  rows := h.rows.same hi hs.unrecorded hw.trades
  cancellations := h.cancellations.same hi hs.uncancelled hs.undeleted hw.arrived hw.cancelled
  wallets := h.wallets.same hi hs.unsettled hw.wallets

/-! What a step does to an order. -/

section Orders

variable {req : PlaceOrder} {o : OrderResponse}

/-- The exchange refuses it. -/
theorem Balanced.refuse (h : Balanced w₀ b w phases) (hi : phases[i]? = some (.placing req))
    (hw : SameBooks w w') :
    Balanced w₀ { b with refused := b.refused ++ [req] } w' (phases.set i .closed) where
  orders := by
    refine ⟨?_, hw.orders.trans h.orders.orders, h.orders.decimal⟩
    rw [hw.arrived]
    exact h.orders.requests.lose hi rfl rfl
  rows := h.rows.same hi rfl hw.trades
  cancellations := h.cancellations.same hi rfl rfl hw.arrived hw.cancelled
  wallets := h.wallets.same hi rfl hw.wallets

/-- The exchange accepts it. -/
theorem Balanced.place (h : Balanced w₀ b w phases) (hi : phases[i]? = some (.placing req))
    (ho : Decimal o) (hwallets : w'.tbl_wallet = w.tbl_wallet)
    (htrades : w'.binance.db.binance_trade = w.binance.db.binance_trade)
    (horders : w'.binance.orders = w.binance.orders ++ [o])
    (hcancelled : w'.cancelled = w.cancelled)
    (harrived : w'.arrived = w.arrived) :
    Balanced w₀ { b with placed := b.placed ++ [(req, o)] } w' (phases.set i (.ordered req o)) where
  orders := by
    constructor
    · rw [harrived, List.map_append]
      exact h.orders.requests.pass hi rfl rfl
    · rw [horders, h.orders.orders, List.map_append, List.append_assoc]
      rfl
    · exact List.forall_mem_append.mpr ⟨h.orders.decimal, List.forall_mem_singleton.mpr ho⟩
  rows := by
    refine ⟨h.rows.accepted.take hi rfl rfl, h.rows.records, h.rows.amounts, ?_⟩
    rw [htrades]
    exact h.rows.trades
  cancellations := h.cancellations.same hi rfl rfl harrived hcancelled
  wallets := h.wallets.same hi rfl hwallets

/-- Its row is not inserted. -/
theorem Balanced.fail (h : Balanced w₀ b w phases) (hi : phases[i]? = some (.ordered req o))
    (hw : SameBooks w w') :
    Balanced w₀ { b with failed := b.failed ++ [(req, o)] } w' (phases.set i .closed) where
  orders := h.orders.same hi rfl hw.arrived hw.orders
  rows := by
    refine ⟨h.rows.accepted.lose hi rfl rfl, h.rows.records, h.rows.amounts, ?_⟩
    rw [hw.trades]
    exact h.rows.trades
  cancellations := h.cancellations.same hi rfl rfl hw.arrived hw.cancelled
  wallets := h.wallets.same hi rfl hw.wallets

/-- Its row is inserted. -/
theorem Balanced.record {row : BinanceTrade} (h : Balanced w₀ b w phases)
    (hi : phases[i]? = some (.ordered req o)) (hrow : Records (req, o) row)
    (hwallets : w'.tbl_wallet = w.tbl_wallet)
    (htrades : w'.binance.db.binance_trade = w.binance.db.binance_trade ++ [row])
    (horders : w'.binance.orders = w.binance.orders) (hcancelled : w'.cancelled = w.cancelled)
    (harrived : w'.arrived = w.arrived) :
    Balanced w₀ { b with recorded := b.recorded ++ [(req, o)], rows := b.rows ++ [row] } w'
      (phases.set i (.recorded row)) where
  orders := h.orders.same hi rfl harrived horders
  rows := by
    have ho : Decimal o := h.orders.decimal _ (h.rows.accepted.mem_held hi rfl)
    constructor
    · exact h.rows.accepted.pass hi rfl rfl
    · exact List.rel_append h.rows.records (.cons hrow .nil)
    · exact List.forall_mem_append.mpr
        ⟨h.rows.amounts, List.forall_mem_singleton.mpr (hrow.decimal ho)⟩
    · rw [htrades]
      calc w.binance.db.binance_trade ++ [row] ++ (b.deleted.map Prod.snd).flatten
        _ |>.Perm ([row] ++ (w.binance.db.binance_trade ++ (b.deleted.map Prod.snd).flatten)) := by
            simp
        _ |>.Perm ([row] ++ (w₀.binance.db.binance_trade ++ b.rows)) :=
            h.rows.trades.append_left _
        _ |>.Perm (w₀.binance.db.binance_trade ++ b.rows ++ [row]) := List.perm_append_comm
        _ = w₀.binance.db.binance_trade ++ (b.rows ++ [row]) := List.append_assoc ..
  cancellations := h.cancellations.same hi rfl rfl harrived hcancelled
  wallets :=
    ⟨h.wallets.inserted.take hi rfl rfl, h.wallets.executed, hwallets ▸ h.wallets.wallets,
      hwallets ▸ h.wallets.booked⟩

end Orders

/-! What a step does to a row. -/

section Settles

variable {row : BinanceTrade}

/-- It is not settled. -/
theorem Balanced.skip (h : Balanced w₀ b w phases) (hi : phases[i]? = some (.recorded row))
    (hw : SameBooks w w') :
    Balanced w₀ { b with skipped := b.skipped ++ [row] } w' (phases.set i .closed) where
  orders := h.orders.same hi rfl hw.arrived hw.orders
  rows := h.rows.same hi rfl hw.trades
  cancellations := h.cancellations.same hi rfl rfl hw.arrived hw.cancelled
  wallets :=
    ⟨h.wallets.inserted.lose hi rfl rfl, h.wallets.executed, hw.wallets ▸ h.wallets.wallets,
      hw.wallets ▸ h.wallets.booked⟩

/-- The statement that settles a row books it, in every wallet. -/
theorem WalletsRight.statement {rows settled skipped : List BinanceTrade}
    {t : Table Wallet Wallet.id}
    (h : WalletsRight w₀ w phases rows settled skipped) (hmain : IsDecimal 8 (query row).main)
    (husdt : IsDecimal 8 (query row).usdt)
    (hstatement : Binance.updateWalletQuery w.tbl_wallet (query row) = some t) :
    (∀ r ∈ t.rows, r.Decimal) ∧
      List.Forall₂ (Booked (settled ++ [row])) w₀.tbl_wallet.rows t.rows := by
  obtain ⟨column, hcolumn, hupdate⟩ := Option.bind_eq_some_iff.mp hstatement
  have hbooks : ∀ r ∈ w.tbl_wallet.rows, (query row).selects r = true →
      let r' := Table.rewritten (query row).selects ((query row).assign column) r
      SameWallet r r' ∧ r'.Decimal ∧ ∀ c, r'.get c = r.get c + adds (query row) c := by
    intro r hr hs
    obtain ⟨r', hr'⟩ := Table.accepts_of_update hupdate r hr hs
    have hrewritten : Table.rewritten (query row).selects ((query row).assign column) r = r' := by
      rw [Table.rewritten, if_pos hs, hr']
      rfl
    dsimp only
    rw [hrewritten]
    exact assign_books hr' hcolumn (h.wallets r hr) hmain husdt
  constructor
  · intro r' hr'
    obtain ⟨r, hr, rfl⟩ := (Table.mem_update hupdate).mp hr'
    by_cases hs : (query row).selects r = true
    · exact (hbooks r hr hs).2.1
    · rw [Table.rewritten, if_neg hs]
      exact h.wallets r hr
  · rw [Table.rows_update hupdate]
    apply List.forall₂_map_right_iff.mpr
    have hmem : List.Forall₂ (fun r r' => r' ∈ w.tbl_wallet.rows ∧ Booked settled r r')
        w₀.tbl_wallet.rows w.tbl_wallet.rows :=
      ((List.forall₂_and_left _ _).mpr ⟨fun _ hr => hr, h.booked.flip⟩).flip
    refine hmem.imp fun r r' hr => ?_
    obtain ⟨hr', hbooked⟩ := hr
    by_cases hs : (query row).selects r' = true
    · obtain ⟨hsame, -, hget⟩ := hbooks r' hr' hs
      exact hbooked.settle hs hsame hget
    · rw [Table.rewritten, if_neg hs]
      exact hbooked.other hs

/-- It is settled: its statement has been run. -/
theorem Balanced.settle {t : Table Wallet Wallet.id} (h : Balanced w₀ b w phases)
    (hi : phases[i]? = some (.recorded row)) (hrow : Executed row)
    (hstatement : Binance.updateWalletQuery w.tbl_wallet (query row) = some t)
    (hwallets : w'.tbl_wallet = t)
    (htrades : w'.binance.db.binance_trade = w.binance.db.binance_trade)
    (horders : w'.binance.orders = w.binance.orders) (hcancelled : w'.cancelled = w.cancelled)
    (harrived : w'.arrived = w.arrived) :
    Balanced w₀ { b with settled := b.settled ++ [row] } w' (phases.set i .closed) where
  orders := h.orders.same hi rfl harrived horders
  rows := h.rows.same hi rfl htrades
  cancellations := h.cancellations.same hi rfl rfl harrived hcancelled
  wallets := by
    obtain ⟨hmain, husdt⟩ := h.rows.amounts row (h.wallets.inserted.mem_held hi rfl)
    obtain ⟨hdecimal, hbooked⟩ := h.wallets.statement hmain husdt hstatement
    rw [← hwallets] at hdecimal hbooked
    have hexecuted : ∀ r ∈ b.settled ++ [row], Executed r :=
      List.forall_mem_append.mpr ⟨h.wallets.executed, List.forall_mem_singleton.mpr hrow⟩
    exact ⟨h.wallets.inserted.pass hi rfl rfl, hexecuted, hdecimal, hbooked⟩

end Settles

/-! What a step does to a cancellation. -/

section Cancels

variable {req : CancelOrder}

/-- The exchange refuses it. -/
theorem Balanced.reject (h : Balanced w₀ b w phases) (hi : phases[i]? = some (.cancelling req))
    (hw : SameBooks w w') :
    Balanced w₀ { b with rejected := b.rejected ++ [req] } w' (phases.set i .closed) where
  orders := h.orders.same hi rfl hw.arrived hw.orders
  rows := h.rows.same hi rfl hw.trades
  cancellations := by
    refine ⟨?_, hw.cancelled.trans h.cancellations.confirmed, h.cancellations.deleted.same hi rfl⟩
    rw [hw.arrived]
    exact h.cancellations.requests.lose hi rfl rfl
  wallets := h.wallets.same hi rfl hw.wallets

/-- The exchange confirms it. -/
theorem Balanced.cancel (h : Balanced w₀ b w phases) (hi : phases[i]? = some (.cancelling req))
    (hwallets : w'.tbl_wallet = w.tbl_wallet)
    (htrades : w'.binance.db.binance_trade = w.binance.db.binance_trade)
    (horders : w'.binance.orders = w.binance.orders)
    (hcancelled : w'.cancelled = w.cancelled ++ [(req.symbol, req.orderId)])
    (harrived : w'.arrived = w.arrived) :
    Balanced w₀ { b with cancelled := b.cancelled ++ [req] } w'
      (phases.set i (.cancelled req)) where
  orders := h.orders.same hi rfl harrived horders
  rows := h.rows.same hi rfl htrades
  cancellations := by
    constructor
    · rw [harrived]
      exact h.cancellations.requests.pass hi rfl rfl
    · rw [hcancelled, h.cancellations.confirmed, List.map_append]
      rfl
    · exact h.cancellations.deleted.take hi rfl rfl
  wallets := h.wallets.same hi rfl hwallets

/-- Its rows are not deleted. -/
theorem Balanced.keep (h : Balanced w₀ b w phases) (hi : phases[i]? = some (.cancelled req))
    (hw : SameBooks w w') :
    Balanced w₀ { b with kept := b.kept ++ [req] } w' (phases.set i .closed) where
  orders := h.orders.same hi rfl hw.arrived hw.orders
  rows := h.rows.same hi rfl hw.trades
  cancellations := by
    refine ⟨?_, hw.cancelled.trans h.cancellations.confirmed,
      h.cancellations.deleted.lose hi rfl rfl⟩
    rw [hw.arrived]
    exact h.cancellations.requests.same hi rfl
  wallets := h.wallets.same hi rfl hw.wallets

/-- Its rows are deleted. -/
theorem Balanced.delete {selects : BinanceTrade → Bool} (h : Balanced w₀ b w phases)
    (hi : phases[i]? = some (.cancelled req)) (hwallets : w'.tbl_wallet = w.tbl_wallet)
    (htrades : w'.binance.db.binance_trade =
      w.binance.db.binance_trade.filter fun r => !selects r)
    (horders : w'.binance.orders = w.binance.orders) (hcancelled : w'.cancelled = w.cancelled)
    (harrived : w'.arrived = w.arrived) :
    Balanced w₀
      { b with deleted := b.deleted ++ [(req, w.binance.db.binance_trade.filter selects)] } w'
      (phases.set i .closed) where
  orders := h.orders.same hi rfl harrived horders
  rows := by
    refine ⟨h.rows.accepted.same hi rfl, h.rows.records, h.rows.amounts, ?_⟩
    rw [htrades]
    dsimp only
    simp only [List.map_append, List.flatten_append, List.map_cons, List.map_nil,
      List.flatten_cons, List.flatten_nil, List.append_nil]
    -- the rows that went and the rows that stayed are the rows that there were
    have hparts : (w.binance.db.binance_trade.filter (fun r => !selects r) ++
        w.binance.db.binance_trade.filter selects).Perm w.binance.db.binance_trade :=
      List.perm_append_comm.trans (List.filter_append_perm selects _)
    calc w.binance.db.binance_trade.filter (fun r => !selects r) ++
          ((b.deleted.map Prod.snd).flatten ++ w.binance.db.binance_trade.filter selects)
      _ |>.Perm (w.binance.db.binance_trade.filter (fun r => !selects r) ++
            (w.binance.db.binance_trade.filter selects ++ (b.deleted.map Prod.snd).flatten)) :=
          List.perm_append_comm.append_left _
      _ = w.binance.db.binance_trade.filter (fun r => !selects r) ++
            w.binance.db.binance_trade.filter selects ++ (b.deleted.map Prod.snd).flatten :=
          (List.append_assoc ..).symm
      _ |>.Perm (w.binance.db.binance_trade ++ (b.deleted.map Prod.snd).flatten) :=
          hparts.append_right _
      _ |>.Perm (w₀.binance.db.binance_trade ++ b.rows) := h.rows.trades
  cancellations := by
    constructor
    · rw [harrived]
      exact h.cancellations.requests.same hi rfl
    · exact hcancelled.trans h.cancellations.confirmed
    · rw [List.map_append]
      exact h.cancellations.deleted.pass hi rfl rfl
  wallets := h.wallets.same hi rfl hwallets

end Cancels

/-! The calls. -/

/-- The exchange answers an order. -/
theorem Balanced.newOrder (h : Balanced w₀ b w phases) {req : PlaceOrder}
    (hi : phases[i]? = some (.placing req)) (ha : a.Decimal) (order : Binance.NewOrder) :
    ∃ b', Balanced w₀ b' (answer a (.exchange (.newOrder order)) w).2
      (phases.set i (next (.placing req) (.exchange (.newOrder order))
        (answer a (.exchange (.newOrder order)) w).1)) := by
  simp only [answer, Binance.World.perform]
  cases hanswer : a.exchange.newOrder order with
  | error e => exact ⟨_, h.refuse hi ⟨rfl, rfl, rfl, rfl, rfl⟩⟩
  | ok o => exact ⟨_, h.place hi (ha order o hanswer) rfl rfl rfl rfl rfl⟩

theorem Balanced.insertInBinanceTrade (h : Balanced w₀ b w phases) {req : PlaceOrder}
    {o : OrderResponse} {row : BinanceTrade} (hi : phases[i]? = some (.ordered req o))
    (hrow : Records (req, o) row) (a : Answers) :
    ∃ b', Balanced w₀ b' (answer a (.exchange (.insertInBinanceTrade row)) w).2
      (phases.set i (next (.ordered req o) (.exchange (.insertInBinanceTrade row))
        (answer a (.exchange (.insertInBinanceTrade row)) w).1)) := by
  simp only [answer, Binance.World.perform, Binance.Answers.reply]
  cases a.exchange.fails (.insertInBinanceTrade row) with
  | some e => exact ⟨_, h.fail hi ⟨rfl, rfl, rfl, rfl, rfl⟩⟩
  | none => exact ⟨_, h.record hi hrow rfl rfl rfl rfl rfl⟩

theorem Balanced.updateWalletQuery (h : Balanced w₀ b w phases) {row : BinanceTrade}
    (hi : phases[i]? = some (.recorded row)) (hrow : Executed row) (a : Answers) :
    ∃ b', Balanced w₀ b' (answer a (.exchange (.updateWalletQuery (query row))) w).2
      (phases.set i .closed) := by
  have hskip : ∀ {w' : World}, SameBooks w w' → ∃ b', Balanced w₀ b' w' (phases.set i .closed) :=
    fun hw => ⟨_, h.skip hi hw⟩
  simp only [answer, Binance.World.perform, Binance.Tables.updateWalletQuery]
  cases hstatement : Binance.updateWalletQuery w.tbl_wallet (query row) with
  | none =>
    have hnone : Binance.updateWalletQuery w.orders.db.tbl_wallet (query row) = none := hstatement
    rw [hnone]
    exact hskip ⟨rfl, rfl, rfl, rfl, rfl⟩
  | some t =>
    have hsome : Binance.updateWalletQuery w.orders.db.tbl_wallet (query row) = some t := hstatement
    rw [hsome]
    simp only [Option.map_some, Binance.Answers.reply]
    cases a.exchange.fails (.updateWalletQuery (query row)) with
    | some e => exact hskip ⟨rfl, rfl, rfl, rfl, rfl⟩
    | none => exact ⟨_, h.settle hi hrow hstatement rfl rfl rfl rfl rfl⟩

/-- The exchange answers a cancellation. -/
theorem Balanced.cancelOrder (h : Balanced w₀ b w phases) {req : CancelOrder}
    (hi : phases[i]? = some (.cancelling req)) (a : Answers) :
    ∃ b', Balanced w₀ b' (answer a (.cancelling (.cancelOrder req.symbol req.orderId)) w).2
      (phases.set i (next (.cancelling req) (.cancelling (.cancelOrder req.symbol req.orderId))
        (answer a (.cancelling (.cancelOrder req.symbol req.orderId)) w).1)) := by
  simp only [answer, Binance.World.performCancel, World.cancels]
  cases a.cancelling.cancelOrder req.symbol req.orderId with
  | error e => exact ⟨_, h.reject hi ⟨rfl, rfl, rfl, rfl, rfl⟩⟩
  | ok data => exact ⟨_, h.cancel hi rfl rfl rfl rfl rfl⟩

theorem Balanced.deleteOrder (h : Balanced w₀ b w phases) {req : CancelOrder}
    (hi : phases[i]? = some (.cancelled req)) (a : Answers) :
    ∃ b', Balanced w₀ b' (answer a (.cancelling (.deleteOrder req.orderId req.user_id)) w).2
      (phases.set i .closed) := by
  simp only [answer, Binance.World.performCancel]
  cases a.cancelling.fails (.deleteOrder req.orderId req.user_id) with
  | some e => exact ⟨_, h.keep hi ⟨rfl, rfl, rfl, rfl, rfl⟩⟩
  | none => exact ⟨_, h.delete hi rfl rfl rfl rfl rfl⟩

/-- The phase after a call that is none of these holds what it held. -/
theorem next_holds {o : Op} (r : Except Empty o.Res) (hmay : may s o) (ho : ¬Books o) :
    SameHolds s (next s o r) := by
  have hmove := next_move r hmay
  generalize next s o r = s' at hmove
  cases hmove <;> first | exact ⟨rfl, rfl, rfl, rfl, rfl⟩ | exact absurd trivial ho

/-- Whatever is called and answered, the accounts stay balanced. -/
theorem Balanced.answer (h : Balanced w₀ b w phases) (hi : phases[i]? = some s) {o : Op}
    (hmay : may s o) (ha : a.Decimal) :
    ∃ b', Balanced w₀ b' (Funds.answer a o w).2
      (phases.set i (next s o (Funds.answer a o w).1)) := by
  by_cases ho : Books o
  · cases o with
    | exchange o =>
      cases o with
      | newOrder order =>
        obtain ⟨req, rfl⟩ := hmay
        exact h.newOrder hi ha order
      | insertInBinanceTrade row =>
        obtain ⟨req, o, rfl, hrow⟩ := hmay
        exact h.insertInBinanceTrade hi hrow a
      | updateWalletQuery q =>
        obtain ⟨row, rfl, hrow, rfl⟩ := hmay
        exact h.updateWalletQuery hi hrow a
      | _ => exact ho.elim
    | cancelling o =>
      cases o with
      | cancelOrder symbol orderId =>
        obtain ⟨req, rfl, rfl, rfl⟩ := hmay
        exact h.cancelOrder hi a
      | deleteOrder orderId user_id =>
        obtain ⟨req, rfl, rfl, rfl⟩ := hmay
        exact h.deleteOrder hi a
    | withdrawing o => exact ho.elim
    | settlement o => exact ho.elim
  · exact ⟨b, h.same (answer_books hmay ho) hi (next_holds _ hmay ho)⟩

/-- A request arrives. -/
theorem Balanced.happen (h : Balanced w₀ b w phases) {c : Request} {started : List Thread}
    (hc : Arrives c w w' started) : Balanced w₀ b w' (phases ++ [c.phase]) := by
  have hwallets : w'.tbl_wallet = w.tbl_wallet := by
    unfold Solvency.World.tbl_wallet
    rw [hc.settlement]
  have htrades : w'.binance.db.binance_trade = w.binance.db.binance_trade := by
    rw [hc.binance]
  have hunrecorded : c.phase.unrecorded = none := by cases c <;> rfl
  have hunsettled : c.phase.unsettled = none := by cases c <;> rfl
  have hundeleted : c.phase.undeleted = none := by cases c <;> rfl
  constructor
  · refine ⟨?_, by rw [hc.binance]; exact h.orders.orders, h.orders.decimal⟩
    have hphase : [c].filterMap Request.order = c.phase.unplaced.toList := by
      cases c <;> rfl
    rw [hc.arrived, List.filterMap_append, hphase]
    exact h.orders.requests.start c.phase
  · refine ⟨?_, h.rows.records, h.rows.amounts, ?_⟩
    · simpa [hunrecorded] using h.rows.accepted.start c.phase
    · rw [htrades]
      exact h.rows.trades
  · refine ⟨?_, hc.cancelled.trans h.cancellations.confirmed, ?_⟩
    · have hphase : [c].filterMap Request.cancels = c.phase.uncancelled.toList := by
        cases c <;> rfl
      rw [hc.arrived, List.filterMap_append, hphase]
      exact h.cancellations.requests.start c.phase
    · simpa [hundeleted] using h.cancellations.deleted.start c.phase
  · refine ⟨?_, h.wallets.executed, hwallets ▸ h.wallets.wallets, hwallets ▸ h.wallets.booked⟩
    simpa [hunsettled] using h.wallets.inserted.start c.phase

end Steps

/-! ## Runs -/

/-- Requests, orders, rows, cancellations and balances agree: each order is of another
request, each row of another order, each settled row is settled once, rows are deleted for
another confirmed cancellation each time, and the wallets have gained what the settled
rows add. -/
structure Reconciled (w₀ : Solvency.World) (b : Accounts) (w : World) : Prop where
  placed : (b.placed.map Prod.fst).Subperm (w.arrived.filterMap Request.order)
  orders : w.binance.orders = w₀.binance.orders ++ b.placed.map Prod.snd
  recorded : b.recorded.Subperm b.placed
  records : List.Forall₂ Records b.recorded b.rows
  cancelled : b.cancelled.Subperm (w.arrived.filterMap Request.cancels)
  confirmed : w.cancelled = b.cancelled.map fun req => (req.symbol, req.orderId)
  deleted : (b.deleted.map Prod.fst).Subperm b.cancelled
  trades : (w.binance.db.binance_trade ++ (b.deleted.map Prod.snd).flatten).Perm
    (w₀.binance.db.binance_trade ++ b.rows)
  settled : b.settled.Subperm b.rows
  executed : ∀ row ∈ b.settled, Executed row
  wallets : List.Forall₂ (Booked b.settled) w₀.tbl_wallet.rows w.tbl_wallet.rows

theorem Balanced.reconciled {w₀ : Solvency.World} {b : Accounts} {w : World} {phases : List Phase}
    (h : Balanced w₀ b w phases) : Reconciled w₀ b w where
  placed := h.orders.requests.subperm
  orders := h.orders.orders
  recorded := h.rows.accepted.subperm
  records := h.rows.records
  cancelled := h.cancellations.requests.subperm
  confirmed := h.cancellations.confirmed
  deleted := h.cancellations.deleted.subperm
  trades := h.rows.trades
  settled := h.wallets.inserted.subperm
  executed := h.wallets.executed
  wallets := h.wallets.booked

/-- **The wallets are explained by the trades**, in every state of every run, whatever
else is requested, in whatever order the calls are answered, and whichever fail. -/
theorem balances_reconciled (w₀ : Solvency.World) (turns : List Turn)
    (hwallets : ∀ r ∈ w₀.tbl_wallet.rows, r.Decimal)
    (hturns : ∀ t ∈ turns, ∀ i a, t = .perform i a → a.Decimal) :
    ∃ b, Reconciled w₀ b (loop.run (State.start w₀) turns).world := by
  have hrun : ∃ phases, Phased protocol Honest (loop.run (State.start w₀) turns).threads phases ∧
      ∃ b, Balanced w₀ b (loop.run (State.start w₀) turns).world phases := by
    refine run_keeps (fun w phases => ∃ b, Balanced w₀ b w phases) .nil ?_ ?_ ?_ hturns
    · exact ⟨_, .start hwallets⟩
    · rintro c w w' started phases hc ⟨b, hb⟩
      exact ⟨b, hb.happen hc⟩
    · rintro a o w phases i s ha ⟨b, hb⟩ hi hmay
      exact hb.answer hi hmay ha
  obtain ⟨phases, -, b, hb⟩ := hrun
  exact ⟨b, hb.reconciled⟩

/-! ## Two orders at once -/

/-- Two orders of user 1, answered by turns, and then a cancellation. -/
def byTurns : List Turn :=
  List.replicate 2 (.happen (.placeOrder (.buy "MARKET"))) ++
    (List.replicate 14 [0, 1]).flatten.map (.perform · buying) ++
    [.happen (.cancelOrder ⟨"BTCUSDT", "1", "1"⟩), .perform 2 buying, .perform 2 buying]

/-- Both rows are gone, and both have been paid for. -/
theorem reconciled_by_turns :
    let w := (loop.run (State.start (.of .funded)) byTurns).world
    (w.tbl_wallet.rows.map fun r => (r.usdt_balance, r.btc_balance)) = [(800, 2)] ∧
      w.binance.db.binance_trade = [] ∧ ∃ b, Reconciled (.of .funded) b w := by
  refine ⟨by decide +kernel, by decide +kernel, ?_⟩
  apply balances_reconciled
  · exact Binance.World.funded_decimal
  · rintro t ht i a rfl
    have ha : a = buying := by
      simp only [byTurns, List.mem_append, List.mem_map, List.mem_cons, List.not_mem_nil,
        or_false, Loop.Turn.perform.injEq, reduceCtorEq, false_or] at ht
      rcases ht with (ht | ⟨j, -, -, hj⟩) | ⟨-, ha⟩ | ⟨-, ha⟩
      · cases List.eq_of_mem_replicate ht
      · exact hj.symm
      · exact ha
      · exact ha
    rw [ha]
    rintro n o ho
    cases ho
    exact ⟨IsDecimal.natCast 1, IsDecimal.natCast 100⟩

end Exchange.Funds
