import Exchange.Wallets.Debits

/-!
# Credits of deposits

A deposit job knows the row of a deposit without its amount, and the statement
that would credit the wallet is refused without a number. So no row of a job
writes a wallet or the balance of an address (`processDepositRow_spec`).
-/

namespace Exchange.Settlement

open Async Proc Store Wallets

section Rules

variable {a : Answers} {w : World}

/-- A statement that is refused. -/
theorem wp_refused {β : Type} {o : Op} {f : o.Res → Prog β} {Q : Except Err β → World → Prop}
    (hp : World.perform a o w = (.error .rejected, w)) (hQ : Q (.error .rejected) w) :
    wp (World.perform a) (call o >>= f) Q w := by
  apply (wp_bind _ _ _).mpr
  apply (wp_call _ _).mpr
  rw [hp]
  exact hQ

theorem incrementWallet_none (t : Table Wallet Wallet.id) (c : WalletWhere) (column : String) :
    incrementWallet t c column none = none := by
  unfold incrementWallet
  cases Column.ofName column <;> rfl

/-- `decrement` without a number. -/
theorem perform_decrementWallet (c : WalletWhere) (column : String) :
    World.perform a (.decrementWallet c column none) w = (.error .rejected, w) := by
  simp only [World.perform, Option.map_none, incrementWallet_none]
  rfl

/-- An approved deposit is not credited: the job fails at the wallet. -/
theorem updateDepositlWithStatus_spec {v : PartialDeposit} (hv : v.amount = none)
    (status : Status) (reason : String) (confirmations : Nat)
    (from_address transaction_hash : String) :
    wp (World.perform a)
      (updateDepositlWithStatus v status reason confirmations from_address transaction_hash)
      (fun _ w' => Becomes w.wallets.db.tbl_withdrawal w w') w := by
  unfold updateDepositlWithStatus
  apply wp_reply rfl
  · exact fun _ => ⟨rfl, rfl, rfl⟩
  intro _
  split
  · have hdecrement : updateWallet v.user_id v.amount v.to_address v.coin v.network "inc" =
        call (.decrementWallet ⟨v.user_id, v.network, some v.to_address⟩ (mainColumn v.coin.name)
          none) := by
      unfold updateWallet
      rw [if_neg (by decide), hv]
    rw [hdecrement]
    apply wp_refused (perform_decrementWallet _ _)
    exact ⟨rfl, rfl, rfl⟩
  · exact ⟨rfl, rfl, rfl⟩

theorem deleteOld_spec (v : PartialDeposit) :
    wp (World.perform a) (deleteOld v)
      (fun _ w' => Becomes w.wallets.db.tbl_withdrawal w w') w := by
  unfold deleteOld
  apply (wp_bind _ _ _).mpr
  apply (wp_call _ _).mpr
  simp only [World.perform]
  split
  · apply wp_reply_last rfl
    · exact fun _ => ⟨rfl, rfl, rfl⟩
    · exact fun _ => ⟨rfl, rfl, rfl⟩
  · exact ⟨rfl, rfl, rfl⟩

/-- The withdrawals after one row of a job over deposits: a count goes to the
withdrawal with the id of the deposit. -/
def World.counted (a : Answers) (v : PartialDeposit) (w : World) : Table Withdrawal Withdrawal.id :=
  match a.found with
  | .ok (.number (count + 1)) => w.updated a v.id (.confirmations (count + 1))
  | _ => w.wallets.db.tbl_withdrawal

theorem processDepositRow_spec (v : PendingDeposit) :
    wp (World.perform a) (processDepositRow v.row)
      (fun _ w' => Becomes (w.counted a v.row) w w') w := by
  apply wp_caught
  apply (wp_bind _ _ _).mpr
  apply (wp_call _ _).mpr
  cases hfound : a.found with
  | error e =>
    simp only [World.perform, World.counted, hfound]
    exact ⟨rfl, rfl, rfl⟩
  | ok found =>
    simp only [World.perform, World.counted, hfound]
    cases found with
    | nothing => exact deleteOld_spec v.row
    | number count =>
      cases count with
      | zero => exact deleteOld_spec v.row
      | succ count => exact updated_spec v.id (.confirmations (count + 1))
    | transaction t =>
      exact updateDepositlWithStatus_spec rfl _ _ t.confirmations t.from_address t.hash

end Rules

/-! ## One settled deposit -/

/-- `v` is what the consumer is given of the row `r`: the whole row, or what
`getPendingDeposits` selects of it. -/
structure PartialDeposit.Of (v : PartialDeposit) (r : Deposit) : Prop where
  id : v.id = r.id
  user_id : v.user_id = r.user_id
  to_address : v.to_address = r.to_address
  coin : v.coin = r.coin
  rest : v.amount = some r.amount ∧ v.network = some r.network ∨
    v.amount = none ∧ v.network = none

/-- The wallet that a deposit is for. -/
def Deposit.wallet (r : Deposit) : WalletWhere := ⟨r.user_id, some r.network, some r.to_address⟩

/-- A wallet row after the deposit: its own has the amount more in the column of the coin. -/
def Deposit.Credits (r : Deposit) (x x' : Wallet) : Prop :=
  if r.wallet.selects x then ∃ c, r.coin.column = some c ∧ x' = x.set c (x.get c + r.amount)
  else x' = x

/-- From `w` to `w'` the deposit is settled as its transaction says. -/
def SettledAs (r : Deposit) (t : Transaction) (w w' : World) : Prop :=
  if t.txreceipt_status = "1" then
    (∃ r' ∈ w'.tbl_deposit.rows, r'.id = r.id ∧ r'.status = .Approved ∧ r'.reason = some "") ∧
      List.Forall₂ r.Credits w.wallets.db.tbl_wallet.rows w'.wallets.db.tbl_wallet.rows
  else
    (∃ r' ∈ w'.tbl_deposit.rows, r'.id = r.id ∧ r'.status = .Reverted) ∧
      w'.wallets.db.tbl_wallet = w.wallets.db.tbl_wallet

/-- What a deposit leaves of the wallets `l`: all of them, or its amount less. -/
inductive Debits (v : PartialDeposit) (l l' : Table Wallet Wallet.id) : Prop where
  | refused (h : l' = l)
  | accepted {c : Column} {amount : ℚ} (hcolumn : v.coin.column = some c)
      (hamount : v.amount = some amount)
      (h : l.update (WalletWhere.selects ⟨v.user_id, v.network, some v.to_address⟩)
        (Wallet.increment c (-amount)) (fun _ _ h => Wallet.id_increment h) = some l')

section Settle

variable {a : Answers} {w : World} {v : PartialDeposit} {r : Deposit} {t : Transaction}
  {l l' : Table Wallet Wallet.id}

/-- `toDo` is `inc`, and everything other than `Inc` decrements. -/
theorem updateWallet_debits :
    wp (World.perform a)
      (updateWallet v.user_id v.amount v.to_address v.coin v.network "inc")
      (fun _ w' => w'.tbl_deposit = w.tbl_deposit ∧
        Debits v w.wallets.db.tbl_wallet w'.wallets.db.tbl_wallet) w := by
  unfold updateWallet
  rw [if_neg (by decide)]
  apply (wp_call _ _).mpr
  cases hamount : v.amount with
  | none =>
    rw [perform_decrementWallet]
    exact ⟨rfl, .refused rfl⟩
  | some amount =>
    have hcolumn : Column.ofName (mainColumn v.coin.name) = v.coin.column := rfl
    simp only [World.perform, incrementWallet, hcolumn, Option.map_some]
    cases hc : v.coin.column with
    | none => exact ⟨rfl, .refused rfl⟩
    | some c =>
      dsimp only
      cases hupdate : w.wallets.db.tbl_wallet.update
          (WalletWhere.selects ⟨v.user_id, v.network, some v.to_address⟩)
          (Wallet.increment c (-amount)) fun _ _ h => Wallet.id_increment h with
      | none => exact ⟨rfl, .refused rfl⟩
      | some rows =>
        simp only [Option.map_some, World.statement, World.reply]
        split
        · exact ⟨rfl, .refused rfl⟩
        · exact ⟨rfl, .accepted hc hamount hupdate⟩

/-- The balance of an address is in another table. -/
theorem saveTokenAddressBalance_frame (address : String) (coin : Coin) (network : Option String)
    (amount : Option ℚ) :
    wp (World.perform a) (saveTokenAddressBalance address coin network amount "Inc")
      (fun _ w' => w'.tbl_deposit = w.tbl_deposit ∧
        w'.wallets.db.tbl_wallet = w.wallets.db.tbl_wallet) w := by
  unfold saveTokenAddressBalance
  apply wp_reply rfl
  · exact fun _ => ⟨rfl, rfl⟩
  intro _
  rw [if_pos rfl]
  apply (wp_call _ _).mpr
  simp only [World.perform]
  cases incrementAddress w.wallets.db.address_balance ⟨address, coin, network⟩ amount with
  | none => exact ⟨rfl, rfl⟩
  | some rows =>
    simp only [Option.map_some, World.statement, World.reply]
    split <;> exact ⟨rfl, rfl⟩

/-- What is written to the row of a deposit for a transaction that has a status. -/
def Transaction.data (t : Transaction) : DepositData :=
  .status .Approved (if t.txreceipt_status = "1" then "" else "Reverted transaction")
    t.confirmations t.from_address t.hash

/-- Every status counts as success, and what succeeds debits. -/
theorem processDepositRow_debits (hfound : a.found = .ok (.transaction t))
    (hstatus : t.txreceipt_status ≠ "") (hok : a.fails (.updateDepositById v.id t.data) = false) :
    wp (World.perform a) (processDepositRow v) (fun _ w' =>
      w'.tbl_deposit = w.tbl_deposit.modify v.id t.data.write t.data.id_write ∧
        Debits v w.wallets.db.tbl_wallet w'.wallets.db.tbl_wallet) w := by
  have hbody : wp (World.perform a)
      (updateDepositlWithStatus v .Approved
        (if t.txreceipt_status = "1" then "" else "Reverted transaction") t.confirmations
        t.from_address t.hash)
      (fun _ w' => w'.tbl_deposit = w.tbl_deposit.modify v.id t.data.write t.data.id_write ∧
        Debits v w.wallets.db.tbl_wallet w'.wallets.db.tbl_wallet) w := by
    unfold updateDepositlWithStatus
    apply wp_reply rfl
    · exact fun hfail => absurd (hfail.symm.trans hok) (by decide)
    intro _
    rw [if_pos rfl]
    apply (wp_bind _ _ _).mpr
    apply wp_mono updateWallet_debits
    rintro (e | u) w₁ ⟨hdeposit, hdebits⟩
    · exact ⟨hdeposit, hdebits⟩
    · apply wp_mono (saveTokenAddressBalance_frame _ _ _ _)
      rintro r w₂ ⟨hdeposit', hwallet⟩
      exact ⟨hdeposit'.trans hdeposit, hwallet ▸ hdebits⟩
  apply (wp_tryCatch _ _ _).mpr
  apply (wp_bind _ _ _).mpr
  apply (wp_call _ _).mpr
  simp only [World.perform, hfound, hstatus, ne_eq, not_false_eq_true, if_true]
  apply wp_mono hbody
  rintro (e | u) w' h
  · exact (wp_call _ _).mpr h
  · exact h

theorem Wallet.set_get (x : Wallet) (c : Column) : x.set c (x.get c) = x := by
  cases c <;> rfl

/-- Taking an amount away adds it only when there is nothing to take. -/
theorem amount_eq_zero {g amount : ℚ} (hg : IsDecimal 8 g)
    (h : g + amount = roundTo 8 (g + -amount)) : amount = 0 := by
  have hsum : IsDecimal 8 (g + amount) := h ▸ isDecimal_roundTo _
  have hamount : IsDecimal 8 amount := by
    have hsub := hsum.sub hg
    rwa [add_sub_cancel_left] at hsub
  rw [(hg.add hamount.neg).roundTo_eq] at h
  linarith

/-- Where the wallet is refused, it was credited only if there was nothing to credit. -/
theorem credits_self (x : Wallet) : r.Credits x x ↔
    r.wallet.selects x = false ∨ r.coin.column.isSome = true ∧ r.amount = 0 := by
  unfold Deposit.Credits
  cases hs : r.wallet.selects x with
  | false => simp
  | true =>
    simp only [if_true, Bool.true_eq_false, false_or]
    constructor
    · rintro ⟨c, hc, hx⟩
      have hget : x.get c = x.get c + r.amount := by
        conv_lhs => rw [hx]
        exact Wallet.get_set_self ..
      exact ⟨by rw [hc]; rfl, by linarith⟩
    · rintro ⟨hc, h0⟩
      obtain ⟨c, hc⟩ := Option.isSome_iff_exists.mp hc
      exact ⟨c, hc, by rw [h0, add_zero, Wallet.set_get]⟩

theorem credits_rewritten {x : Wallet} {c : Column} (hc : r.coin.column = some c)
    (hx : x.Decimal) (hfits : r.wallet.selects x = true →
      ∃ x', Wallet.increment c (-r.amount) x = some x') :
    r.Credits x (Table.rewritten r.wallet.selects (Wallet.increment c (-r.amount)) x) ↔
      r.wallet.selects x = false ∨ r.coin.column.isSome = true ∧ r.amount = 0 := by
  unfold Deposit.Credits Table.rewritten
  cases hs : r.wallet.selects x with
  | false => simp
  | true =>
    obtain ⟨x', hx'⟩ := hfits hs
    obtain rfl := Wallet.of_increment hx'
    simp only [if_true, Bool.true_eq_false, false_or, hx', Option.getD_some, hc,
      Option.some.injEq, Option.isSome_some, true_and]
    constructor
    · rintro ⟨c, rfl, h⟩
      have hget := congrArg (Wallet.get · c) h
      simp only [Wallet.get_set_self] at hget
      exact amount_eq_zero (hx c) hget.symm
    · intro h0
      refine ⟨c, rfl, ?_⟩
      rw [h0, neg_zero, add_zero, (hx c).roundTo_eq]

/-- The wallets of a deposit are credited iff there is nothing to credit. -/
theorem Debits.credits_iff (h : Debits v l l') (hv : v.Of r) (hl : ∀ x ∈ l.rows, x.Decimal) :
    List.Forall₂ r.Credits l.rows l'.rows ↔
      (∀ x ∈ l.rows, r.wallet.selects x = false) ∨
        r.coin.column.isSome = true ∧ r.amount = 0 := by
  have hall : (∀ x ∈ l.rows, r.wallet.selects x = false ∨
      r.coin.column.isSome = true ∧ r.amount = 0) ↔
        (∀ x ∈ l.rows, r.wallet.selects x = false) ∨
          r.coin.column.isSome = true ∧ r.amount = 0 := by
    by_cases h0 : r.coin.column.isSome = true ∧ r.amount = 0 <;> simp [h0]
  rw [← hall]
  cases h with
  | refused h =>
    rw [h, List.forall₂_same]
    exact forall₂_congr fun x _ => credits_self x
  | @accepted c amount hcolumn hamount h =>
    have hrest : amount = r.amount ∧ v.network = some r.network := by
      rcases hv.rest with ⟨h₁, h₂⟩ | ⟨h₁, -⟩
      · exact ⟨Option.some.inj (hamount.symm.trans h₁), h₂⟩
      · rw [h₁] at hamount
        cases hamount
    have hwhere : WalletWhere.selects ⟨v.user_id, v.network, some v.to_address⟩ =
        r.wallet.selects := by
      rw [hv.user_id, hrest.2, hv.to_address]
      rfl
    obtain ⟨rfl, -⟩ := hrest
    rw [hwhere] at h
    rw [hv.coin] at hcolumn
    rw [Table.rows_update h, List.forall₂_map_right_iff, List.forall₂_same]
    exact forall₂_congr fun x hx => credits_rewritten hcolumn (hl x hx)
      (Table.accepts_of_update h x hx)

/-- **A deposit is settled as its transaction says** iff this succeeded and there is
nothing to credit: no wallet for it, or an amount of 0. -/
theorem settledAs_iff (hfound : a.found = .ok (.transaction t))
    (hstatus : t.txreceipt_status = "0" ∨ t.txreceipt_status = "1")
    (hok : a.fails (.updateDepositById v.id t.data) = false) (hr : r ∈ w.tbl_deposit.rows)
    (hv : v.Of r) (hdecimal : ∀ x ∈ w.wallets.db.tbl_wallet.rows, x.Decimal) :
    SettledAs r t w ((processDepositRow v).run (World.perform a) w).2 ↔
      t.txreceipt_status = "1" ∧
        ((∀ x ∈ w.wallets.db.tbl_wallet.rows, r.wallet.selects x = false) ∨
          r.coin.column.isSome = true ∧ r.amount = 0) := by
  have htext : t.txreceipt_status ≠ "" := by
    rcases hstatus with h | h <;> rw [h] <;> decide
  have hrun := processDepositRow_debits (w := w) hfound htext hok
  unfold wp at hrun
  generalize ((processDepositRow v).run (World.perform a) w).2 = w' at hrun ⊢
  obtain ⟨hdeposit, hdebits⟩ := hrun
  have hrow : t.data.write r ∈ w'.tbl_deposit.rows := by
    rw [hdeposit]
    exact Table.mem_modify_self hr hv.id.symm
  unfold SettledAs
  rw [hdebits.credits_iff hv hdecimal]
  rcases hstatus with h | h
  · -- the row is approved
    rw [if_neg (by rw [h]; decide), h]
    refine iff_of_false ?_ (by simp)
    rintro ⟨⟨r', hr', hid, hreverted⟩, -⟩
    obtain rfl := Table.eq_of_key hr' hrow (hid.trans (t.data.id_write r).symm)
    cases hreverted
  · rw [if_pos h]
    refine and_congr_left' (iff_of_true ⟨_, hrow, t.data.id_write r, rfl, ?_⟩ h)
    simp [Transaction.data, DepositData.write, h]

end Settle

/-! ## A deposit of USDT -/

/-- A deposit of user 1 on BEP20. -/
def Deposit.usdt (amount : ℚ) : Deposit where
  id := 1
  user_id := 1
  from_address := ""
  to_address := "0xa"
  amount := amount
  coin := .USDT
  network := "BEP20"
  deleted := .NO
  status := .Pending
  reason := none
  transaction_hash := none
  start_block := some 7
  confirmations := 0
  created_at := 0

/-- The whole row. -/
def Deposit.whole (r : Deposit) : PartialDeposit where
  id := r.id
  user_id := r.user_id
  to_address := r.to_address
  amount := some r.amount
  coin := r.coin
  network := some r.network
  start_block := r.start_block
  created_at := r.created_at

theorem Deposit.whole_of (r : Deposit) : r.whole.Of r :=
  ⟨rfl, rfl, rfl, rfl, .inl ⟨rfl, rfl⟩⟩

def World.deposited (amount : ℚ) : World :=
  { World.funded with tbl_deposit := (Table.empty Deposit.id).insert (.usdt amount) rfl }

/-- The explorer has a transaction with this status. -/
def Transaction.of (txreceipt_status : String) : Transaction :=
  ⟨"0x1", "0xd", txreceipt_status, 12⟩

def Answers.finds (t : Transaction) : Answers :=
  { Answers.silent with found := .ok (.transaction t) }

/-- The deposit of user 1 is settled with a transaction that has this status. -/
def World.settled (amount : ℚ) (txreceipt_status : String) : World :=
  ((processDepositRow (Deposit.usdt amount).whole).run
    (World.perform (.finds (.of txreceipt_status))) (.deposited amount)).2

theorem settledAs_nothing : SettledAs (.usdt 0) (.of "1") (.deposited 0) (.settled 0 "1") := by
  apply (settledAs_iff rfl (.inr rfl) rfl (List.mem_singleton.mpr rfl)
    (Deposit.whole_of _) ?_).mpr
  · exact ⟨rfl, .inr ⟨by decide +kernel, rfl⟩⟩
  · intro x hx
    obtain rfl := List.mem_singleton.mp hx
    intro c
    cases c with
    | usdt_balance => exact IsDecimal.natCast 95
    | _ => exact IsDecimal.zero

/-- 5 USDT that arrived are taken from the 95 there were, and a transaction that was
reverted is approved. -/
theorem deposit_debited :
    ¬ SettledAs (.usdt 5) (.of "1") (.deposited 5) (.settled 5 "1") ∧
      ¬ SettledAs (.usdt 5) (.of "0") (.deposited 5) (.settled 5 "0") := by
  constructor
  · rintro ⟨-, h⟩
    have hrows : (World.settled 5 "1").wallets.db.tbl_wallet.rows =
        [⟨1, 1, "BEP20", some "0xa", some "key", 90, 0, 0, 0, 0⟩] := by
      decide +kernel
    have hcolumn : Coin.USDT.column = some .usdt_balance := by
      decide +kernel
    rw [hrows] at h
    obtain ⟨c, hc, hset⟩ := (List.forall₂_cons.mp h).1
    obtain rfl := Option.some.inj (hcolumn.symm.trans hc)
    have hbalance := congrArg Wallet.usdt_balance hset
    revert hbalance
    decide +kernel
  · rintro ⟨⟨r', hr', -, hreverted⟩, -⟩
    have happroved : ∀ r ∈ (World.settled 5 "0").tbl_deposit.rows, r.status = .Approved := by
      decide +kernel
    rw [happroved r' hr'] at hreverted
    cases hreverted

end Exchange.Settlement
