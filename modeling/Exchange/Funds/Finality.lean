import Exchange.Funds.Withdrawals
import Exchange.Funds.Reconciliation

/-!
# What is never undone

Between any two states of a run, whatever happens in between: no row but one of
`binance_trade` disappears; a withdrawal and a deposit keep what they were stored with, and
once one of them is decided it is never pending again; a deposit that was deleted stays
so; the owners, networks, addresses and keys of the wallets stay; the orders and the
cancellations of the exchange are only added to, and the rows of `binance_trade` are
never rewritten (`decided_for_good`).
-/

namespace Exchange.Funds

open Async Store Wallets Binance Settlement

/-! ## Tables -/

/-- Some of the rows, as they were, and more rows. -/
def SomeTrades (rows rows' : List BinanceTrade) : Prop :=
  ∃ later added, rows' = later ++ added ∧ later.Sublist rows

/-- One state of the tables, and a later one. -/
structure Later (w w' : World) : Prop where
  withdrawals : ∃ later added, w'.tbl_withdrawal.rows = later ++ added ∧
    List.Forall₂ LaterWithdrawal w.tbl_withdrawal.rows later
  deposits : List.Forall₂ LaterDeposit w.settlement.tbl_deposit.rows w'.settlement.tbl_deposit.rows
  wallets : List.Forall₂ SameWallet w.tbl_wallet.rows w'.tbl_wallet.rows
  trades : SomeTrades w.binance.db.binance_trade w'.binance.db.binance_trade
  orders : w.binance.orders <+: w'.binance.orders
  cancelled : w.cancelled <+: w'.cancelled

section Tables

variable {a : Answers} {w w' w'' : World} {s : Phase}

theorem SomeTrades.refl (rows : List BinanceTrade) : SomeTrades rows rows :=
  ⟨rows, [], (List.append_nil _).symm, List.Sublist.refl _⟩

theorem SomeTrades.append (rows added : List BinanceTrade) : SomeTrades rows (rows ++ added) :=
  ⟨rows, added, rfl, List.Sublist.refl _⟩

theorem SomeTrades.filter (rows : List BinanceTrade) (p : BinanceTrade → Bool) :
    SomeTrades rows (rows.filter p) :=
  ⟨_, [], (List.append_nil _).symm, List.filter_sublist⟩

/-- What is left of some of the rows and of more rows. -/
theorem SomeTrades.trans {rows rows' rows'' : List BinanceTrade} (h : SomeTrades rows rows')
    (h' : SomeTrades rows' rows'') : SomeTrades rows rows'' := by
  obtain ⟨later, added, rfl, hlater⟩ := h
  obtain ⟨later', added', rfl, hlater'⟩ := h'
  obtain ⟨left, right, rfl, hleft, -⟩ := List.sublist_append_iff.mp hlater'
  exact ⟨left, right ++ added', List.append_assoc .., hleft.trans hlater⟩

theorem Later.refl (w : World) : Later w w where
  withdrawals := ⟨_, [], (List.append_nil _).symm,
    List.forall₂_same.mpr fun r _ => LaterWithdrawal.refl r⟩
  deposits := List.forall₂_same.mpr fun r _ => LaterDeposit.refl r
  wallets := List.forall₂_same.mpr fun r _ => SameWallet.refl r
  trades := .refl _
  orders := List.prefix_refl _
  cancelled := List.prefix_refl _

theorem Later.trans (h : Later w w') (h' : Later w' w'') : Later w w'' where
  withdrawals := rowwise_extend (fun _ _ _ => LaterWithdrawal.trans) h.withdrawals h'.withdrawals
  deposits := rowwise_trans (fun _ _ _ => LaterDeposit.trans) h.deposits h'.deposits
  wallets := rowwise_trans (fun _ _ _ => SameWallet.trans) h.wallets h'.wallets
  trades := h.trades.trans h'.trades
  orders := h.orders.trans h'.orders
  cancelled := h.cancelled.trans h'.cancelled

/-- What leaves the tables of withdrawals, deposits and wallets as they are. -/
theorem Later.of_settlement (hs : w'.settlement = w.settlement)
    (htrades : SomeTrades w.binance.db.binance_trade w'.binance.db.binance_trade)
    (horders : w.binance.orders <+: w'.binance.orders) (hcancelled : w.cancelled <+: w'.cancelled) :
    Later w w' where
  withdrawals := by
    unfold World.tbl_withdrawal
    rw [hs]
    exact (Later.refl w).withdrawals
  deposits := by
    rw [hs]
    exact (Later.refl w).deposits
  wallets := by
    unfold Solvency.World.tbl_wallet
    rw [hs]
    exact (Later.refl w).wallets
  trades := htrades
  orders := horders
  cancelled := hcancelled

theorem Later.of_arrives {c : Request} {started : List Thread} (hc : Arrives c w w' started) :
    Later w w' :=
  .of_settlement hc.settlement (by rw [hc.binance]; exact .refl _) (by rw [hc.binance])
    (by rw [hc.cancelled])

/-- A statement on the wallets. -/
theorem sameWallet_assign {q : WalletQuery} {column : Column} {r r' : Wallet}
    (h : q.assign column r = some r') : SameWallet r r' := by
  obtain ⟨r₁, h₁, h₂⟩ := WalletQuery.of_assign h
  rw [Wallet.of_increment h₂]
  have hsame := sameWallet_set r column (roundTo 8 (r.get column + q.main))
  rw [← Wallet.of_increment h₁] at hsame
  exact hsame.trans (sameWallet_set ..)

theorem sameWallet_update {t t' : Table Wallet Wallet.id} {q : WalletQuery}
    (h : Binance.updateWalletQuery t q = some t') : List.Forall₂ SameWallet t.rows t'.rows := by
  obtain ⟨column, -, hupdate⟩ := Option.bind_eq_some_iff.mp h
  rw [Table.rows_update hupdate]
  apply List.forall₂_map_right_iff.mpr
  apply List.forall₂_same.mpr
  intro r hr
  unfold Table.rewritten
  split
  · rename_i hs
    obtain ⟨r', hr'⟩ := Table.accepts_of_update hupdate r hr hs
    rw [hr']
    exact sameWallet_assign hr'
  · exact .refl r

/-- What an exchange call leaves, when wallets, trades and orders only change as they may. -/
theorem later_orders {b : Binance.World}
    (hwallets : List.Forall₂ SameWallet w.tbl_wallet.rows b.db.tbl_wallet.rows)
    (htrades : SomeTrades w.binance.db.binance_trade b.db.binance_trade)
    (horders : w.binance.orders <+: b.orders) : Later w { w with toWorld := w.withOrders b } where
  withdrawals := (Later.refl w).withdrawals
  deposits := (Later.refl w).deposits
  wallets := hwallets
  trades := htrades
  orders := horders
  cancelled := List.prefix_refl _

theorem later_exchange (o : Binance.Op) : Later w (answer a (.exchange o) w).2 := by
  have hsame := (Later.refl w).wallets
  by_cases ho : Books (.exchange o)
  · cases o with
    | newOrder order =>
      simp only [answer, Binance.World.perform]
      cases a.exchange.newOrder order with
      | error e => exact later_orders hsame (.refl _) (List.prefix_refl _)
      | ok o => exact later_orders hsame (.refl _) (List.prefix_append ..)
    | insertInBinanceTrade row =>
      simp only [answer, Binance.World.perform, Binance.Answers.reply]
      cases a.exchange.fails (.insertInBinanceTrade row) with
      | some e => exact later_orders hsame (.refl _) (List.prefix_refl _)
      | none => exact later_orders hsame (.append ..) (List.prefix_refl _)
    | updateWalletQuery q =>
      simp only [answer, Binance.World.perform, Binance.Tables.updateWalletQuery,
        Solvency.World.orders_wallet, Binance.Answers.reply]
      cases hstatement : Binance.updateWalletQuery w.tbl_wallet q with
      | none => exact later_orders hsame (.refl _) (List.prefix_refl _)
      | some t =>
        have hwallets := sameWallet_update hstatement
        dsimp only [Option.map_some]
        cases a.exchange.fails (.updateWalletQuery q) with
        | some e => exact later_orders hsame (.refl _) (List.prefix_refl _)
        | none => exact later_orders hwallets (.refl _) (List.prefix_refl _)
    | _ => exact ho.elim
  · obtain ⟨hwallets, htrades, horders, -, -⟩ := exchange_books (a := a) (w := w) ho
    exact {
      withdrawals := (Later.refl w).withdrawals
      deposits := (Later.refl w).deposits
      wallets := by
        rw [hwallets]
        exact hsame
      trades := by
        rw [htrades]
        exact .refl _
      orders := by rw [horders]
      cancelled := List.prefix_refl _ }

theorem later_cancelling (o : CancelOp) : Later w (answer a (.cancelling o) w).2 := by
  cases o with
  | cancelOrder symbol orderId =>
    refine .of_settlement rfl (.refl _) (List.prefix_refl _) ?_
    simp only [answer, World.cancels]
    cases a.cancelling.cancelOrder symbol orderId with
    | error e => exact List.prefix_refl _
    | ok data => exact List.prefix_append ..
  | deleteOrder orderId user_id =>
    simp only [answer, Binance.World.performCancel]
    cases a.cancelling.fails (.deleteOrder orderId user_id) with
    | some e => exact .of_settlement rfl (.refl _) (List.prefix_refl _) (List.prefix_refl _)
    | none => exact .of_settlement rfl (.filter ..) (List.prefix_refl _) (List.prefix_refl _)

theorem later_withdrawing (o : Wallets.Op) : Later w (answer a (.withdrawing o) w).2 := by
  have hwallets : (answer a (.withdrawing o) w).2.tbl_wallet = w.tbl_wallet :=
    (withdrawing_books o).wallets
  have hrows : ∃ later added, (answer a (.withdrawing o) w).2.tbl_withdrawal.rows = later ++ added ∧
      List.Forall₂ LaterWithdrawal w.tbl_withdrawal.rows later := by
    have hsame := (Later.refl w).withdrawals
    cases o with
    | saveWithdrawal obj =>
      simp only [answer, Wallets.World.perform, Wallets.Answers.reply]
      split
      · exact hsame
      · exact ⟨_, _, rfl, List.forall₂_same.mpr fun r _ => LaterWithdrawal.refl r⟩
    | transfer t => exact hsame
    | startWithdrawalCron | saveError => exact hsame
    | _ =>
      simp only [answer, Wallets.World.perform, Wallets.Answers.reply]
      split <;> exact hsame
  exact {
    withdrawals := hrows
    deposits := (Later.refl w).deposits
    wallets := by
      rw [hwallets]
      exact (Later.refl w).wallets
    trades := .refl _
    orders := List.prefix_refl _
    cancelled := List.prefix_refl _ }

/-- Whatever is called in a phase in which it may be called. -/
theorem later_answer {o : Op} (hmay : may s o) : Later w (answer a o w).2 := by
  cases o with
  | exchange o => exact later_exchange o
  | cancelling o => exact later_cancelling o
  | withdrawing o => exact later_withdrawing o
  | settlement o =>
    have hrewrites : Rewrites w.settlement (answer a (.settlement o) w).2.settlement :=
      rewrites_perform hmay w.settlement
    have hwallets : (answer a (.settlement o) w).2.tbl_wallet = w.tbl_wallet :=
      (settlement_books hmay).wallets
    exact {
      withdrawals := ⟨_, [], (List.append_nil _).symm, hrewrites.withdrawals⟩
      deposits := hrewrites.deposits
      wallets := by
        rw [hwallets]
        exact (Later.refl w).wallets
      trades := .refl _
      orders := List.prefix_refl _
      cancelled := List.prefix_refl _ }

end Tables

/-- **What is decided stays decided**: between any two states of a run, in whatever order
the calls are answered, and whichever fail. -/
theorem decided_for_good (w₀ : Solvency.World) (turns turns' : List Turn) :
    Later (loop.run (State.start w₀) turns).world
      (loop.run (State.start w₀) (turns ++ turns')).world :=
  run_relates Later.refl (fun _ _ _ => Later.trans) (fun _ _ _ _ hc => Later.of_arrives hc)
    (fun _ _ _ _ hmay => later_answer hmay) w₀ turns turns'

end Exchange.Funds
