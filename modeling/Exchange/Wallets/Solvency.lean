import Exchange.Binance.Reports
import Exchange.Wallets.Credits

/-!
# Solvency of the wallets

Orders at the exchange, deposits and withdrawals share `tbl_wallet`. Only the
settlement of an order writes it, and it looks at the balance of the admin and
never at the user's row. So no column goes below zero as long as each
settlement that is run finds its amounts in the rows that it writes
(`nonneg_of_covered`), and a user without USDT can buy (`bought_without_usdt`).
-/

namespace Exchange.Solvency

open Async Proc Store Wallets

/-- Both halves of the service; the wallets are those of `settlement`. -/
structure World where
  settlement : Settlement.World
  binance : Binance.World

namespace World

def tbl_wallet (w : World) : Table Wallet Wallet.id := w.settlement.wallets.db.tbl_wallet

/-- What a program about orders at the exchange sees. -/
def orders (w : World) : Binance.World :=
  { w.binance with db := { w.binance.db with tbl_wallet := w.tbl_wallet } }

/-- The world after such a program. -/
def withOrders (w : World) (b : Binance.World) : World where
  settlement := w.settlement.withDb
    { w.settlement.wallets.db with tbl_wallet := b.db.tbl_wallet }
  binance := b

@[simp] theorem orders_wallet (w : World) : w.orders.db.tbl_wallet = w.tbl_wallet := rfl

@[simp] theorem withOrders_wallet (w : World) (b : Binance.World) :
    (w.withOrders b).tbl_wallet = b.db.tbl_wallet := rfl

end World

/-- A whole call that may settle something. -/
inductive Call where
  | placeOrder (a : Binance.Answers) (req : Binance.PlaceOrder)
  | binance (a : Binance.Answers) (act : Binance.Act)
  | settlement (c : Settlement.Call)
  | processDeposit (rows : List (Settlement.Answers × Settlement.PendingDeposit))

/-- The rows of a deposit job. -/
def depositRows (w : Settlement.World) :
    List (Settlement.Answers × Settlement.PendingDeposit) → Settlement.World
  | [] => w
  | (a, v) :: rest =>
      depositRows ((Settlement.processDepositRow v.row).run (Settlement.World.perform a) w).2 rest

def World.call (w : World) : Call → World
  | .placeOrder a req => w.withOrders
      ((Binance.BinanceController.placeOrder req).run (Binance.World.perform a) w.orders).2
  | .binance a act => w.withOrders (w.orders.act a act)
  | .settlement c => { w with settlement := w.settlement.call c }
  | .processDeposit rows => { w with settlement := depositRows w.settlement rows }

def World.calls (w : World) (calls : List Call) : World := calls.foldl World.call w

/-! ## Deposits and withdrawals -/

theorem depositRows_wallet (w : Settlement.World)
    (rows : List (Settlement.Answers × Settlement.PendingDeposit)) :
    (depositRows w rows).wallets.db.tbl_wallet = w.wallets.db.tbl_wallet := by
  induction rows generalizing w with
  | nil => rfl
  | cons row rest ih =>
    obtain ⟨a, v⟩ := row
    have hrow : Settlement.Becomes (w.counted a v.row) w
        ((Settlement.processDepositRow v.row).run (Settlement.World.perform a) w).2 :=
      Settlement.processDepositRow_spec v
    exact (ih _).trans hrow.tbl_wallet

theorem withdrawalRows_wallet (w : Settlement.World)
    (rows : List (Settlement.Answers × Settlement.PendingWithdrawal)) :
    (w.rows rows).wallets.db.tbl_wallet = w.wallets.db.tbl_wallet := by
  induction rows generalizing w with
  | nil => rfl
  | cons row rest ih =>
    obtain ⟨a, v⟩ := row
    have hrow : Settlement.Becomes (w.received a v) w
        ((Settlement.processWithdrawalRow v).run (Settlement.World.perform a) w).2 :=
      Settlement.processWithdrawalRow_spec v
    exact (ih _).trans hrow.tbl_wallet

theorem settlement_wallet (w : Settlement.World) (c : Settlement.Call) :
    (w.call c).wallets.db.tbl_wallet = w.wallets.db.tbl_wallet := by
  cases c with
  | withdrawal a dto =>
    have hstores : Settlement.StoresOnly a dto w.wallets (w.call (.withdrawal a dto)).wallets :=
      Settlement.withdrawal_stores dto
    rcases hstores with hdb | ⟨obj, hdb, -⟩
    · rw [hdb]
    · rw [hdb]
      rfl
  | hook a obj =>
    have hhook : Settlement.Becomes (w.hooked a obj) w (w.call (.hook a obj)) :=
      Settlement.hook_spec obj
    exact hhook.tbl_wallet
  | processWithdrawal rows => exact withdrawalRows_wallet w rows

/-! ## Orders at the exchange -/

/-- The wallets after an order: those of its settlement, if it is run. -/
theorem placeOrder_wallet (a : Binance.Answers) (req : Binance.PlaceOrder) (w : Binance.World) :
    ((Binance.BinanceController.placeOrder req).run (Binance.World.perform a) w).2.db.tbl_wallet =
      (((w.accepts a req).bind fun o => a.settles req.userId o w.db.tbl_wallet).getD
        w.db.tbl_wallet) := by
  have hplaced : Binance.Placed a req w _ _ := Binance.placeOrder_placed req
  unfold Binance.Placed at hplaced
  cases ho : w.accepts a req with
  | none =>
    rw [ho] at hplaced
    rw [hplaced.1]
    exact Binance.renewed_tables.1
  | some o =>
    rw [ho] at hplaced
    exact hplaced.2.1.tbl_wallet

/-- The row holds what the settlement of an order takes from it. -/
def Covers (o : Binance.OrderResponse) (r : Wallet) : Prop :=
  match o.side with
  | .BUY => o.cummulativeQuoteQty ≤ r.usdt_balance
  | .SELL => ∀ column, Column.ofName (mainColumn (Binance.coinOf o.symbol)) = some column →
      o.executedQty ≤ r.get column

/-- If an order is accepted and its settlement is run, it is covered by every
row that the settlement writes. -/
def Covered (w : World) : Call → Prop
  | .placeOrder a req => ∀ o, w.orders.accepts a req = some o →
      (a.settles req.userId o w.tbl_wallet).isSome = true →
      ∀ r ∈ w.tbl_wallet.rows, r.user_id = req.userId →
        r.network = Binance.networkOf (Binance.coinOf o.symbol) → Covers o r
  | _ => True

def AllCovered (w : World) : List Call → Prop
  | [] => True
  | c :: calls => Covered w c ∧ AllCovered (w.call c) calls

/-- The amounts that the exchange answers are not negative. -/
def Call.Sensible : Call → Prop
  | .placeOrder a _ => ∀ n o, a.newOrder n = .ok o → 0 ≤ o.executedQty ∧ 0 ≤ o.cummulativeQuoteQty
  | _ => True

section Rows

variable {column : Column} {amount : ℚ} {r r' : Wallet}

theorem increment_nonneg (h : r.increment column amount = some r') (hr : r.Nonneg)
    (hamount : 0 ≤ r.get column + amount) : r'.Nonneg := by
  intro c
  rw [Wallet.of_increment h]
  by_cases hc : c = column
  · rw [hc, Wallet.get_set_self]
    exact roundTo_nonneg hamount
  · rw [Wallet.get_set_of_ne _ hc]
    exact hr c

theorem increment_decimal (h : r.increment column amount = some r') (hr : r.Decimal) :
    r'.Decimal := by
  intro c
  rw [Wallet.of_increment h]
  by_cases hc : c = column
  · rw [hc, Wallet.get_set_self]
    exact isDecimal_roundTo _
  · rw [Wallet.get_set_of_ne _ hc]
    exact hr c

/-- Adding to one column lowers none. -/
theorem le_increment (h : r.increment column amount = some r') (hr : r.Decimal)
    (hamount : 0 ≤ amount) (c : Column) : r.get c ≤ r'.get c := by
  rw [Wallet.of_increment h]
  by_cases hc : c = column
  · rw [hc, Wallet.get_set_self]
    calc r.get column = roundTo 8 (r.get column) := (hr column).roundTo_eq.symm
      _ ≤ roundTo 8 (r.get column + amount) := roundTo_mono (by linarith)
  · rw [Wallet.get_set_of_ne _ hc]

/-- A covered settlement leaves every column of the row at zero or above. -/
theorem assign_nonneg {o : Binance.OrderResponse} {userId : Nat} (hr : r.Nonneg) (hd : r.Decimal)
    (hbase : 0 ≤ o.executedQty) (hquote : 0 ≤ o.cummulativeQuoteQty) (hcovers : Covers o r)
    (hcolumn : Column.ofName (mainColumn (Binance.coinOf o.symbol)) = some column)
    (h : (o.query userId).assign column r = some r') : r'.Nonneg := by
  obtain ⟨r₁, h₁, h₂⟩ := Binance.WalletQuery.of_assign h
  rw [Binance.query_main] at h₁
  rw [Binance.query_usdt] at h₂
  unfold Covers at hcovers
  cases hside : o.side with
  | BUY =>
    rw [hside] at h₁ h₂ hcovers
    have hget := hr column
    have hfirst : r₁.Nonneg := increment_nonneg h₁ hr (by simp only [Binance.Side.coin]; linarith)
    have husdt : r.usdt_balance ≤ r₁.get .usdt_balance := le_increment h₁ hd hbase .usdt_balance
    exact increment_nonneg h₂ hfirst (by simp only [Binance.Side.usdt]; linarith)
  | SELL =>
    rw [hside] at h₁ h₂ hcovers
    have hmain : o.executedQty ≤ r.get column := hcovers column hcolumn
    have hfirst : r₁.Nonneg := increment_nonneg h₁ hr (by simp only [Binance.Side.coin]; linarith)
    have husdt := hfirst .usdt_balance
    exact increment_nonneg h₂ hfirst (by simp only [Binance.Side.usdt]; linarith)

end Rows

/-! ## Runs -/

/-- Every row has numbers of eight places, none below zero. -/
def Solvent (t : Table Wallet Wallet.id) : Prop := ∀ r ∈ t.rows, r.Nonneg ∧ r.Decimal

theorem solvent_settles {a : Binance.Answers} {o : Binance.OrderResponse} {userId : Nat}
    {t t' : Table Wallet Wallet.id} (ht : Solvent t) (hbase : 0 ≤ o.executedQty)
    (hquote : 0 ≤ o.cummulativeQuoteQty)
    (hcovers : ∀ r ∈ t.rows, r.user_id = userId →
      r.network = Binance.networkOf (Binance.coinOf o.symbol) → Covers o r)
    (h : a.settles userId o t = some t') : Solvent t' := by
  unfold Binance.Answers.settles Binance.Answers.statement at h
  split at h
  · split at h
    · obtain ⟨column, hcolumn, hupdate⟩ := Option.bind_eq_some_iff.mp h
      apply Table.forall_update hupdate ht
      intro r hr hs r' hr'
      obtain ⟨huser, hnetwork⟩ := Binance.WalletQuery.selects_iff.mp hs
      obtain ⟨r₁, h₁, h₂⟩ := Binance.WalletQuery.of_assign hr'
      refine ⟨?_, increment_decimal h₂ (increment_decimal h₁ (ht r hr).2)⟩
      exact assign_nonneg (ht r hr).1 (ht r hr).2 hbase hquote (hcovers r hr huser hnetwork)
        hcolumn hr'
    · cases h
  · cases h

theorem solvent_call {w : World} {c : Call} (hw : Solvent w.tbl_wallet) (hsensible : c.Sensible)
    (hcovered : Covered w c) : Solvent (w.call c).tbl_wallet := by
  cases c with
  | placeOrder a req =>
    have hwallet := placeOrder_wallet a req w.orders
    change Solvent (((Binance.BinanceController.placeOrder req).run (Binance.World.perform a)
      w.orders).2.db.tbl_wallet)
    rw [hwallet]
    cases ho : w.orders.accepts a req with
    | none => exact hw
    | some o =>
      cases hs : a.settles req.userId o w.tbl_wallet with
      | none =>
        simp only [Option.bind_some, World.orders_wallet, hs]
        exact hw
      | some t =>
        simp only [Option.bind_some, World.orders_wallet, hs]
        obtain ⟨n, hn⟩ := Binance.answered_of_accepts ho
        obtain ⟨hbase, hquote⟩ := hsensible n o hn
        exact solvent_settles hw hbase hquote (hcovered o ho (by rw [hs]; rfl)) hs
  | binance a act =>
    have hwallet : (w.orders.act a act).db.tbl_wallet = w.tbl_wallet := Binance.act_wallets act
    change Solvent (w.orders.act a act).db.tbl_wallet
    rw [hwallet]
    exact hw
  | settlement c =>
    have hwallet := settlement_wallet w.settlement c
    change Solvent (w.settlement.call c).wallets.db.tbl_wallet
    rw [hwallet]
    exact hw
  | processDeposit rows =>
    have hwallet := depositRows_wallet w.settlement rows
    change Solvent (depositRows w.settlement rows).wallets.db.tbl_wallet
    rw [hwallet]
    exact hw

theorem solvent_calls {w : World} {calls : List Call} (hw : Solvent w.tbl_wallet)
    (hsensible : ∀ c ∈ calls, c.Sensible) (hcovered : AllCovered w calls) :
    Solvent (w.calls calls).tbl_wallet := by
  induction calls generalizing w with
  | nil => exact hw
  | cons c calls ih =>
    obtain ⟨hc, hrest⟩ := List.forall_mem_cons.mp hsensible
    exact ih (solvent_call hw hc hcovered.1) hrest hcovered.2

/-- **User balances never go negative** in a run whose settlements are covered
by the rows that they write. -/
theorem nonneg_of_covered (w : World) (calls : List Call)
    (hstart : ∀ r ∈ w.tbl_wallet.rows, r.Nonneg) (hdecimal : ∀ r ∈ w.tbl_wallet.rows, r.Decimal)
    (hsensible : ∀ c ∈ calls, c.Sensible) (hcovered : AllCovered w calls) :
    ∀ r ∈ (w.calls calls).tbl_wallet.rows, r.Nonneg := by
  have hsolvent : Solvent w.tbl_wallet := fun r hr => ⟨hstart r hr, hdecimal r hr⟩
  exact fun r hr => (solvent_calls hsolvent hsensible hcovered r hr).1

/-! ## A user with and a user without USDT -/

/-- The tables of `b`, without deposits and withdrawals. -/
def World.of (b : Binance.World) : World where
  settlement := Settlement.World.funded.withDb
    { Wallets.World.funded.db with tbl_wallet := b.db.tbl_wallet }
  binance := b

/-- One BTC is bought for 100 of 1000 USDT. -/
theorem nonneg_after_buy :
    let after := (World.of .funded).calls [.placeOrder (.accepting .filledBuy) (.buy "MARKET")]
    (after.tbl_wallet.rows.map fun r => r.usdt_balance) = [900] ∧
      ∀ r ∈ after.tbl_wallet.rows, r.Nonneg := by
  refine ⟨by decide +kernel, ?_⟩
  apply nonneg_of_covered
  · intro r hr c
    rw [List.mem_singleton.mp hr]
    cases c <;> decide +kernel
  · exact Binance.World.funded_decimal
  · intro c hc
    rw [List.mem_singleton.mp hc]
    rintro n o ho
    cases ho
    decide +kernel
  · refine ⟨fun o ho _ r hr _ _ => ?_, trivial⟩
    have hanswer : (World.of .funded).orders.accepts (.accepting .filledBuy) (.buy "MARKET") =
        some .filledBuy := by decide +kernel
    obtain rfl : o = .filledBuy := Option.some.inj (ho.symm.trans hanswer)
    rw [List.mem_singleton.mp hr]
    show (100 : ℚ) ≤ 1000
    norm_num

/-- User 1 has a wallet on the network of BTC with nothing in it. -/
def World.broke : World :=
  .of { Binance.World.funded with
    db := { Binance.World.funded.db with
      tbl_wallet := (Table.empty Wallet.id).insert
        ⟨1, 1, "Bitcoin", some "bc1", some "key", 0, 0, 0, 0, 0⟩ rfl } }

/-- One BTC is bought for 100 USDT that the user does not have. -/
theorem bought_without_usdt :
    (World.broke.tbl_wallet.rows.map fun r => r.usdt_balance) = [0] ∧
      ((World.broke.calls [.placeOrder (.accepting .filledBuy) (.buy "MARKET")]).tbl_wallet.rows.map
        fun r => r.usdt_balance) = [-100] ∧
      ¬∀ r ∈ (World.broke.calls
        [.placeOrder (.accepting .filledBuy) (.buy "MARKET")]).tbl_wallet.rows, r.Nonneg := by
  refine ⟨by decide +kernel, by decide +kernel, fun h => ?_⟩
  have hrows : (World.broke.calls
      [.placeOrder (.accepting .filledBuy) (.buy "MARKET")]).tbl_wallet.rows =
      [⟨1, 1, "Bitcoin", some "bc1", some "key", -100, 0, 0, 1, 0⟩] := by decide +kernel
  rw [hrows] at h
  have husdt := h _ (List.mem_singleton.mpr rfl) .usdt_balance
  simp only [Wallet.get] at husdt
  norm_num at husdt

end Exchange.Solvency
