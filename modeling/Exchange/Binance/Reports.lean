import Exchange.Binance.Recording

/-!
# Execution reports

What the exchange trades after its first answer comes as reports of the socket,
each of which becomes a job. A job that finds its order fails at a statement
that does not parse, so no report ever moves a wallet (`acts_wallets`), and an
order is settled exactly iff what its first answer moved is all there was
(`settledExactly_iff`).
-/

namespace Exchange.Binance

open Async Proc Wallets Store BinanceController

/-- A message of the socket, or a job of `trade_queue`. -/
inductive Act where
  | onmessage (eventInfo : EventInfo)
  | processTrade (item : Item)

def World.act (a : Answers) (w : World) : Act → World
  | .onmessage eventInfo => ((BinanceController.onmessage eventInfo).run (World.perform a) w).2
  | .processTrade item =>
      ((Binance.processTrade item).run (World.perform a)
        { w with trade_queue := w.trade_queue.erase item }).2

/-- Messages and jobs, one after the other. -/
def World.acts (w : World) : List (Answers × Act) → World
  | [] => w
  | (a, act) :: acts => (w.act a act).acts acts

section Jobs

variable {a : Answers} {w : World}

theorem onmessage_wallets (eventInfo : EventInfo) :
    wp (World.perform a) (onmessage eventInfo)
      (fun _ w' => w'.db.tbl_wallet = w.db.tbl_wallet) w := by
  unfold onmessage
  split
  · dsimp only
    split
    · apply wp_reply rfl
      · exact fun _ _ => rfl
      intro _
      apply (wp_call _ _).mpr
      simp only [World.perform, Answers.reply]
      split <;> rfl
    · apply (wp_call _ _).mpr
      simp only [World.perform, Answers.reply]
      split <;> rfl
  · rfl

/-- A job that finds its order stops at the update of `binance_trade`. -/
theorem processTrade_wallets (row : Item) :
    wp (World.perform a) (processTrade row)
      (fun _ w' => w'.db.tbl_wallet = w.db.tbl_wallet) w := by
  unfold processTrade
  apply wp_reply rfl
  · exact fun _ _ => rfl
  intro _
  cases w.db.getOrderFromTable row.orderId (a.isUser · row.clientId) a.now with
  | none => rfl
  | some order =>
    dsimp only
    split
    · apply (wp_bind _ _ _).mpr
      apply (wp_call _ _).mpr
      rfl
    · rfl

theorem act_wallets (act : Act) : (w.act a act).db.tbl_wallet = w.db.tbl_wallet := by
  cases act with
  | onmessage eventInfo => exact onmessage_wallets eventInfo
  | processTrade item =>
    have hjob := processTrade_wallets (a := a)
      (w := { w with trade_queue := w.trade_queue.erase item }) item
    exact hjob

theorem acts_wallets (acts : List (Answers × Act)) (w : World) :
    (w.acts acts).db.tbl_wallet = w.db.tbl_wallet := by
  induction acts generalizing w with
  | nil => rfl
  | cons act acts ih => exact (ih _).trans (act_wallets act.2)

end Jobs

/-! ## Balances of a user -/

/-- What the rows of a user hold in a column. -/
def held (column : Column) (userId : Nat) (t : Table Wallet Wallet.id) : ℚ :=
  (t.rows.map fun r => if r.user_id = userId then r.get column else 0).sum

/-- What the user gets of the coin, and of USDT, for `q` of it. -/
def Side.coin : Side → ℚ → ℚ
  | .BUY, q => q
  | .SELL, q => -q

def Side.usdt : Side → ℚ → ℚ
  | .BUY, q => -q
  | .SELL, q => q

/-- A trade of an order after the answer to it. -/
structure Execution where
  base : ℚ
  quote : ℚ
  deriving DecidableEq

def totalBase (o : OrderResponse) (later : List Execution) : ℚ :=
  o.executedQty + (later.map Execution.base).sum

def totalQuote (o : OrderResponse) (later : List Execution) : ℚ :=
  o.cummulativeQuoteQty + (later.map Execution.quote).sum

/-- The balances have moved by all that was executed. -/
def SettledExactly (column : Column) (userId : Nat) (o : OrderResponse) (later : List Execution)
    (before after : Table Wallet Wallet.id) : Prop :=
  held column userId after = held column userId before + o.side.coin (totalBase o later) ∧
    held .usdt_balance userId after =
      held .usdt_balance userId before + o.side.usdt (totalQuote o later)

instance (column : Column) (userId : Nat) (o : OrderResponse) (later : List Execution)
    (before after : Table Wallet Wallet.id) :
    Decidable (SettledExactly column userId o later before after) :=
  inferInstanceAs (Decidable (_ ∧ _))

/-- How many rows the settlement of an order writes: those of the user on the
network of the coin, if the statement is run and accepted. -/
def Answers.settledRows (a : Answers) (userId : Nat) (o : OrderResponse)
    (t : Table Wallet Wallet.id) : Nat :=
  if (a.settles userId o t).isSome then t.rows.countP (o.query userId).selects else 0

section Settlement

variable {a : Answers} {w : World} {userId : Nat} {o : OrderResponse} {column : Column}

/-- What the statement adds to a row: with eight places nothing is rounded. -/
theorem assign_adds {q : WalletQuery} {r r' : Wallet} (h : q.assign column r = some r')
    (hr : r.Decimal) (hmain : IsDecimal 8 q.main) (husdt : IsDecimal 8 q.usdt)
    (hcolumn : column ≠ .usdt_balance) :
    r'.user_id = r.user_id ∧ r'.get column = r.get column + q.main ∧
      r'.get .usdt_balance = r.get .usdt_balance + q.usdt := by
  obtain ⟨r₁, h₁, h₂⟩ := WalletQuery.of_assign h
  have hmoved₁ : r₁ = r.set column (r.get column + q.main) := by
    rw [Wallet.of_increment h₁, ((hr column).add hmain).roundTo_eq]
  have hget : r₁.get .usdt_balance = r.get .usdt_balance := by
    rw [hmoved₁, Wallet.get_set_of_ne _ hcolumn.symm]
  have hmoved₂ : r' = r₁.set .usdt_balance (r.get .usdt_balance + q.usdt) := by
    rw [Wallet.of_increment h₂, hget, ((hr _).add husdt).roundTo_eq]
  refine ⟨?_, ?_, ?_⟩
  · rw [hmoved₂, Wallet.user_id_set, hmoved₁, Wallet.user_id_set]
  · rw [hmoved₂, Wallet.get_set_of_ne _ hcolumn, hmoved₁, Wallet.get_set_self]
  · rw [hmoved₂, Wallet.get_set_self]

theorem query_main (o : OrderResponse) (userId : Nat) :
    (o.query userId).main = o.side.coin o.executedQty := by
  unfold OrderResponse.query walletQuery Side.coin
  cases o.side <;> rfl

theorem query_usdt (o : OrderResponse) (userId : Nat) :
    (o.query userId).usdt = o.side.usdt o.cummulativeQuoteQty := by
  unfold OrderResponse.query walletQuery Side.usdt
  cases o.side <;> rfl

/-- The column in the statement is that of the coin, and `USDTUSDT` has none. -/
theorem query_column (userId : Nat) {coin : Coin} (hcolumn : coin.column = some column)
    (hsymbol : o.symbol = coin.name ++ "USDT") :
    Column.ofName (o.query userId).main_column = none ∨
      (Column.ofName (o.query userId).main_column = some column ∧ column ≠ .usdt_balance) := by
  have hmain : (o.query userId).main_column = mainColumn (coinOf (coin.name ++ "USDT")) := by
    rw [← hsymbol]
    rfl
  have hcoin : ∀ coin : Coin, Column.ofName (mainColumn (coinOf (coin.name ++ "USDT"))) = none ∨
      (Column.ofName (mainColumn (coinOf (coin.name ++ "USDT"))) = coin.column ∧
        coin.column ≠ some .usdt_balance) := by
    intro coin
    cases coin <;> decide +kernel
  rw [hmain]
  rcases hcoin coin with hnone | ⟨hsome, hne⟩
  · exact .inl hnone
  · exact .inr ⟨hsome.trans hcolumn, fun h => hne (hcolumn.trans (congrArg some h))⟩

theorem held_update {t t' : Table Wallet Wallet.id} {q : WalletQuery} {c : Column} {d : ℚ}
    (hq : q.user_id = userId)
    (h : t.update q.selects (q.assign column) (fun _ _ h => WalletQuery.id_assign h) = some t')
    (hd : ∀ r ∈ t.rows, ∀ r', q.assign column r = some r' →
      r'.user_id = r.user_id ∧ r'.get c = r.get c + d) :
    held c userId t' = held c userId t + t.rows.countP q.selects * d := by
  have hsum := Table.sum_update (fun r => if r.user_id = userId then r.get c else 0) h (d := d) ?_
  · rw [nsmul_eq_mul] at hsum
    exact hsum
  · intro r hr hs r' hr'
    obtain ⟨huser, hget⟩ := hd r hr r' hr'
    have hmine : r.user_id = userId := (WalletQuery.selects_iff.mp hs).1.trans hq
    rw [if_pos (huser.trans hmine), if_pos hmine, hget]

/-- What the settlement of an order adds to the balances: its amounts, once for
each row that it writes. -/
theorem held_settles (userId : Nat) {coin : Coin} {t : Table Wallet Wallet.id}
    (hcolumn : coin.column = some column) (hsymbol : o.symbol = coin.name ++ "USDT")
    (hdecimal : ∀ r ∈ t.rows, r.Decimal) (hbase : IsDecimal 8 o.executedQty)
    (hquote : IsDecimal 8 o.cummulativeQuoteQty) :
    held column userId ((a.settles userId o t).getD t) =
        held column userId t + a.settledRows userId o t * o.side.coin o.executedQty ∧
      held .usdt_balance userId ((a.settles userId o t).getD t) =
        held .usdt_balance userId t +
          a.settledRows userId o t * o.side.usdt o.cummulativeQuoteQty := by
  cases hs : a.settles userId o t with
  | none =>
    have hrows : a.settledRows userId o t = 0 := by simp [Answers.settledRows, hs]
    simp [hrows]
  | some t' =>
    have hrows : a.settledRows userId o t = t.rows.countP (o.query userId).selects := by
      simp [Answers.settledRows, hs]
    obtain ⟨column', hname, hupdate⟩ : ∃ column', Column.ofName (o.query userId).main_column =
        some column' ∧ t.update (o.query userId).selects ((o.query userId).assign column')
          (fun _ _ h => WalletQuery.id_assign h) = some t' := by
      unfold Answers.settles Answers.statement at hs
      split at hs
      · split at hs
        · exact Option.bind_eq_some_iff.mp hs
        · cases hs
      · cases hs
    obtain ⟨rfl, hne⟩ : column' = column ∧ column ≠ .usdt_balance := by
      rcases query_column userId hcolumn hsymbol with hnone | ⟨hsome, hne⟩
      · rw [hnone] at hname
        cases hname
      · exact ⟨Option.some.inj (hname.symm.trans hsome), hne⟩
    have hmain : IsDecimal 8 (o.query userId).main := by
      rw [query_main]
      unfold Side.coin
      cases o.side
      · exact hbase
      · exact hbase.neg
    have husdt : IsDecimal 8 (o.query userId).usdt := by
      rw [query_usdt]
      unfold Side.usdt
      cases o.side
      · exact hquote.neg
      · exact hquote
    have hadds := fun r (hr : r ∈ t.rows) r'
        (hr' : (o.query userId).assign column' r = some r') =>
      assign_adds hr' (hdecimal r hr) hmain husdt hne
    rw [hrows, ← query_main o userId, ← query_usdt o userId, Option.getD_some]
    constructor
    · exact held_update rfl hupdate fun r hr r' hr' =>
        ⟨(hadds r hr r' hr').1, (hadds r hr r' hr').2.1⟩
    · exact held_update rfl hupdate fun r hr r' hr' =>
        ⟨(hadds r hr r' hr').1, (hadds r hr r' hr').2.2⟩

end Settlement

/-- **Exchange orders settle exactly**, whatever is reported, iff the amounts of
the answer, once for each row that the settlement writes, are all that was
executed. -/
theorem settledExactly_iff (a : Answers) (w : World) (req : PlaceOrder)
    (acts : List (Answers × Act)) (o : OrderResponse) (later : List Execution) (coin : Coin)
    (column : Column) (hcolumn : coin.column = some column)
    (hsymbol : o.symbol = coin.name ++ "USDT")
    (haccepted : ((placeOrder req).run (World.perform a) w).2.orders = w.orders ++ [o])
    (hdecimal : ∀ r ∈ w.db.tbl_wallet.rows, r.Decimal) (hbase : IsDecimal 8 o.executedQty)
    (hquote : IsDecimal 8 o.cummulativeQuoteQty) :
    SettledExactly column req.userId o later w.db.tbl_wallet
        (((placeOrder req).run (World.perform a) w).2.acts acts).db.tbl_wallet ↔
      a.settledRows req.userId o w.db.tbl_wallet * o.executedQty = totalBase o later ∧
        a.settledRows req.userId o w.db.tbl_wallet * o.cummulativeQuoteQty =
          totalQuote o later := by
  have hplaced : Placed a req w _ _ := placeOrder_placed req
  have hstored : ((placeOrder req).run (World.perform a) w).2.db.tbl_wallet =
      (a.settles req.userId o w.db.tbl_wallet).getD w.db.tbl_wallet := by
    unfold Placed at hplaced
    cases ho : w.accepts a req with
    | none =>
      rw [ho] at hplaced
      rw [hplaced.1, renewed_tables.2.2.1] at haccepted
      simpa using congrArg List.length haccepted
    | some o' =>
      rw [ho] at hplaced
      obtain ⟨horders, hstored, -⟩ := hplaced
      obtain rfl : o = o' := by
        rw [haccepted] at horders
        simpa using horders
      exact hstored.tbl_wallet
  obtain ⟨hcoin, husdt⟩ := held_settles (a := a) req.userId hcolumn hsymbol hdecimal hbase
    hquote
  rw [acts_wallets, hstored, SettledExactly, hcoin, husdt, add_right_inj, add_right_inj]
  unfold Side.coin Side.usdt
  cases o.side <;> simp

/-! ## An order that fills in two parts -/

theorem World.funded_decimal : ∀ r ∈ World.funded.db.tbl_wallet.rows, r.Decimal := by
  intro r hr c
  rw [List.mem_singleton.mp hr]
  cases c with
  | usdt_balance => exact IsDecimal.natCast 1000
  | bnb_balance => exact IsDecimal.zero
  | eth_balance => exact IsDecimal.zero
  | btc_balance => exact IsDecimal.zero
  | drnh_balance => exact IsDecimal.zero

/-- The report of the trade that completes an order of user 1. -/
def EventInfo.completes (orderId : Nat) : EventInfo where
  e := "executionReport"
  E := 1000000
  i := orderId
  c := "lk2f9"
  p := 0
  q := 1
  S := .BUY
  o := "MARKET"
  s := "BTCUSDT"
  X := .FILLED
  Z := 100
  L := 100
  x := "TRADE"

/-- A message and the job that it adds. -/
def deliver (a : Answers) (eventInfo : EventInfo) : List (Answers × Act) :=
  [(a, .onmessage eventInfo), (a, .processTrade (item eventInfo))]

theorem settledExactly_filled :
    SettledExactly .btc_balance 1 .filledBuy [] World.funded.db.tbl_wallet
      (((placeOrder (.buy "MARKET")).run (World.perform (.accepting .filledBuy)) .funded).2.acts
        (deliver (.accepting .filledBuy) (.completes 7) ++
          deliver (.accepting .filledBuy) (.completes 7))).db.tbl_wallet := by
  apply (settledExactly_iff (.accepting .filledBuy) .funded (.buy "MARKET") _ .filledBuy [] .BTC
    .btc_balance (by decide +kernel) (by decide +kernel) (by decide +kernel) World.funded_decimal
    (IsDecimal.natCast 1) (IsDecimal.natCast 100)).mpr
  decide +kernel

/-- 0.4 of one BTC is bought at once. -/
def OrderResponse.partialBuy : OrderResponse :=
  ⟨"BTCUSDT", 9, "lk2f9", 0, 1, 4 / 10, 40, .PARTIALLY_FILLED, "MARKET", .BUY, [⟨100, 4 / 10⟩]⟩

/-- The other 0.6 is reported and never reaches the wallet. -/
theorem rest_of_order_not_settled :
    let placed := ((placeOrder (.buy "MARKET")).run
      (World.perform (.accepting .partialBuy)) .funded).2
    let after := placed.acts (deliver (.accepting .partialBuy) (.completes 9))
    placed.orders = [.partialBuy] ∧ after.trade_queue = [] ∧
      totalBase .partialBuy [⟨6 / 10, 60⟩] = 1 ∧
      held .btc_balance 1 World.funded.db.tbl_wallet = 0 ∧
      held .btc_balance 1 after.db.tbl_wallet = 4 / 10 ∧
      ¬SettledExactly .btc_balance 1 .partialBuy [⟨6 / 10, 60⟩] World.funded.db.tbl_wallet
        after.db.tbl_wallet := by
  decide +kernel

end Exchange.Binance
