import Exchange.Wallets.Columns
import Exchange.Wallets.Controller

/-!
# Settling withdrawals and deposits

What comes after a request: the webhook of `AppController`, the rows of the
jobs of `WithdrawalConsumer` and `DepositConsumer`, and the methods of
`DatabaseService` they use. What the chains answer is outside. A look-up leaves out
a condition whose value is `undefined` or `null`; a statement that writes does not,
and selects no row by it.
-/

namespace Exchange.Settlement

open Async Store Wallets

abbrev Err := Wallets.Err

/-- A row of `tbl_deposit`. -/
structure Deposit where
  id : Nat
  user_id : Nat
  from_address : String
  to_address : String
  amount : ℚ
  coin : Coin
  network : String
  deleted : YesNo
  status : Status
  reason : Option String
  transaction_hash : Option String
  start_block : Option Nat
  confirmations : Nat
  created_at : Nat
  deriving DecidableEq

/-- What a withdrawal job knows of a row. -/
structure PendingWithdrawal where
  id : Nat
  user_id : Nat
  transaction_hash : Option String
  from_address : Option String
  to_address : String
  coin : Coin
  deriving DecidableEq

/-- What a deposit job knows of a row: neither its amount nor its network is selected. -/
structure PendingDeposit where
  id : Nat
  user_id : Nat
  to_address : String
  start_block : Option Nat
  created_at : Nat
  coin : Coin
  deriving DecidableEq

def PendingDeposit.amount (_ : PendingDeposit) : Option ℚ := none

def PendingDeposit.network (_ : PendingDeposit) : Option String := none

/-- A deposit as the consumer is given it; a property that was not selected is
`undefined`. -/
structure PartialDeposit where
  id : Nat
  user_id : Nat
  to_address : String
  amount : Option ℚ
  coin : Coin
  network : Option String
  start_block : Option Nat
  created_at : Nat
  deriving DecidableEq

def PendingDeposit.row (v : PendingDeposit) : PartialDeposit where
  id := v.id
  user_id := v.user_id
  to_address := v.to_address
  amount := v.amount
  coin := v.coin
  network := v.network
  start_block := v.start_block
  created_at := v.created_at

/-- The answer of `Web3Service.receipt`: nothing, a number of confirmations, or
a receipt with the status it has and the confirmations it was given. -/
inductive Receipt where
  | nothing
  | number (count : Nat)
  | receipt (status confirmationCount : Nat)
  deriving DecidableEq

/-- A transaction in the list of a chain, where the status is a text. -/
structure Transaction where
  hash : String
  from_address : String
  txreceipt_status : String
  confirmations : Nat
  deriving DecidableEq

/-- The answer of `Web3Service.findTransactionForDeposit`. -/
inductive Found where
  | nothing
  | number (count : Nat)
  | transaction (t : Transaction)
  deriving DecidableEq

/-- What `updateWtihdrawalById` writes. -/
inductive WithdrawalData where
  | confirmations (count : Nat)
  | status (status : Status) (confirmations : Nat)
  deriving DecidableEq

/-- What `updateDepositById` writes; `deleted` is only ever set to `YES`. -/
inductive DepositData where
  | status (status : Status) (reason : String) (confirmations : Nat)
      (from_address transaction_hash : String)
  | deleted
  deriving DecidableEq

/-- The rows that `increment` and `decrement` of the wallets select; the address is
not always among the conditions. -/
structure WalletWhere where
  user_id : Nat
  network : Option String
  deposit_address : Option String
  deriving DecidableEq

def WalletWhere.selects (c : WalletWhere) (r : Wallet) : Bool :=
  r.user_id = c.user_id ∧ c.network = some r.network ∧
    (c.deposit_address.all fun d => r.deposit_address = some d)

/-- The rows of `address_balance` of an address. -/
structure AddressWhere where
  address : String
  coin : Coin
  network : Option String
  deriving DecidableEq

def AddressWhere.finds (c : AddressWhere) (r : TokenAddressBalance) : Bool :=
  r.address = c.address ∧ r.coin = c.coin ∧ (c.network.all fun n => r.network = n)

def AddressWhere.selects (c : AddressWhere) (r : TokenAddressBalance) : Bool :=
  r.address = c.address ∧ r.coin = c.coin ∧ c.network = some r.network

/-- The body that the webhook receives; its numbers are `none` when they are not
numbers. -/
structure HookObj where
  block_hash : Field
  block_height : Option ℚ
  confirmations : Option ℚ
  hash : Field
  deriving DecidableEq

inductive Op where
  | receipt (transaction_hash from_address network : Option String)
  | findTransactionForDeposit (v : PartialDeposit)
  | date
  | updateWithdrawals (transaction_hash : Field) (status : Status)
  | findWithdrawal (transaction_hash : Field)
  | updateWtihdrawalById (id : Nat) (data : WithdrawalData)
  | updateDepositById (id : Nat) (data : DepositData)
  | incrementWallet (c : WalletWhere) (column : String) (amount : Option ℚ)
  | decrementWallet (c : WalletWhere) (column : String) (amount : Option ℚ)
  | findTokenAddressBalance (c : AddressWhere)
  | incrementAddress (c : AddressWhere) (amount : Option ℚ)
  | decrementAddress (c : AddressWhere) (amount : Option ℚ)
  | saveError (error : Err) (source : String)
  deriving DecidableEq

abbrev Op.Res : Op → Type
  | receipt .. => Receipt
  | findTransactionForDeposit .. => Found
  | date => Nat
  | findWithdrawal _ => Option Withdrawal
  | findTokenAddressBalance _ => Option TokenAddressBalance
  | _ => Unit

abbrev Prog := Proc Op Op.Res Err

/-- The tables of the wallets and those of the deposits. -/
structure World where
  wallets : Wallets.World
  tbl_deposit : Table Deposit Deposit.id

/-- What is outside, during one call or one row of a job. -/
structure Answers where
  now : Nat
  receipt : Except Err Receipt
  found : Except Err Found
  fails : Op → Bool

/-! ## Statements -/

/-- A look-up by hash, or without a condition. -/
def findsHash (hash : Field) (r : Withdrawal) : Bool :=
  match hash with
  | .text s => r.transaction_hash = some s
  | _ => true

/-- `WHERE transaction_hash = hash`. -/
def selectsHash (hash : Field) (r : Withdrawal) : Bool :=
  match hash with
  | .text s => r.transaction_hash = some s
  | _ => false

/-- The rows of `tbl_withdrawal` that are selected, with another status. -/
def setStatus (t : Table Withdrawal Withdrawal.id) (selects : Withdrawal → Bool) (status : Status) :
    Table Withdrawal Withdrawal.id where
  rows := t.rows.map fun r => if selects r then { r with status := status } else r
  next := t.next
  nodup := by
    have hkeys : Withdrawal.id ∘ (fun r : Withdrawal =>
        if selects r then { r with status := status } else r) = Withdrawal.id := by
      funext r
      dsimp only [Function.comp]
      split <;> rfl
    rw [List.map_map, hkeys]
    exact t.nodup
  fresh := by
    intro r hr
    obtain ⟨r₀, h₀, rfl⟩ := List.mem_map.mp hr
    have := t.fresh r₀ h₀
    split <;> exact this

/-- `increment` of a column by a property name: refused without such a column or
without a number. -/
def incrementWallet (t : Table Wallet Wallet.id) (c : WalletWhere) (column : String)
    (amount : Option ℚ) : Option (Table Wallet Wallet.id) :=
  match Column.ofName column, amount with
  | some column, some amount =>
      t.update c.selects (Wallet.increment column amount) fun _ _ h => Wallet.id_increment h
  | _, _ => none

def addToAddress (amount : ℚ) (r : TokenAddressBalance) : Option TokenAddressBalance :=
  if fits 17 8 (r.balance + amount) then some { r with balance := roundTo 8 (r.balance + amount) }
  else none

theorem id_addToAddress {amount : ℚ} {r r' : TokenAddressBalance}
    (h : addToAddress amount r = some r') : r'.id = r.id := by
  unfold addToAddress at h
  split at h
  · cases h
    rfl
  · cases h

def incrementAddress (t : Table TokenAddressBalance TokenAddressBalance.id) (c : AddressWhere)
    (amount : Option ℚ) : Option (Table TokenAddressBalance TokenAddressBalance.id) :=
  amount.bind fun amount =>
    t.update c.selects (addToAddress amount) fun _ _ h => id_addToAddress h

/-- The row of a withdrawal after `updateWtihdrawalById`. -/
def WithdrawalData.write (data : WithdrawalData) (r : Withdrawal) : Withdrawal :=
  match data with
  | .confirmations count => { r with confirmations := count }
  | .status s count => { r with status := s, confirmations := count }

@[simp] theorem WithdrawalData.id_write (data : WithdrawalData) (r : Withdrawal) :
    (data.write r).id = r.id := by
  cases data <;> rfl

/-- The row of a deposit after `updateDepositById`. -/
def DepositData.write (data : DepositData) (r : Deposit) : Deposit :=
  match data with
  | .status s reason count sender hash =>
      { r with
        status := s
        reason := some reason
        confirmations := count
        from_address := sender
        transaction_hash := some hash }
  | .deleted => { r with deleted := .YES }

@[simp] theorem DepositData.id_write (data : DepositData) (r : Deposit) :
    (data.write r).id = r.id := by
  cases data <;> rfl

/-! ## The world -/

namespace World

def withDb (w : World) (db : Wallets.Tables) : World :=
  { w with wallets := { w.wallets with db := db } }

/-- The answer of the database, unless the call fails. -/
def reply {α : Type} (a : Answers) (o : Op) (w : World) (r : α) (w' : World) :
    Except Err α × World :=
  if a.fails o then (.error .rejected, w) else (.ok r, w')

/-- The statement `r`, unless it is refused or fails. -/
def statement (a : Answers) (o : Op) (w : World) (r : Option World) : Except Err Unit × World :=
  match r with
  | none => (.error .rejected, w)
  | some w' => w.reply a o () w'

def perform (a : Answers) : Handler Op Op.Res Err World
  | .receipt .., w => (a.receipt, w)
  | .findTransactionForDeposit .., w => (a.found, w)
  | .date, w => (.ok a.now, w)
  | .updateWithdrawals hash status, w =>
      let db := w.wallets.db
      w.reply a (.updateWithdrawals hash status) ()
        (w.withDb { db with
          tbl_withdrawal := setStatus db.tbl_withdrawal (selectsHash hash) status })
  | .findWithdrawal hash, w =>
      w.reply a (.findWithdrawal hash)
        (w.wallets.db.tbl_withdrawal.rows.find? (findsHash hash)) w
  | .updateWtihdrawalById id data, w =>
      let db := w.wallets.db
      w.reply a (.updateWtihdrawalById id data) ()
        (w.withDb { db with
          tbl_withdrawal := db.tbl_withdrawal.modify id data.write data.id_write })
  | .updateDepositById id data, w =>
      w.reply a (.updateDepositById id data) ()
        { w with tbl_deposit := w.tbl_deposit.modify id data.write data.id_write }
  | .incrementWallet c column amount, w =>
      let db := w.wallets.db
      w.statement a (.incrementWallet c column amount)
        ((Settlement.incrementWallet db.tbl_wallet c column amount).map fun t =>
          w.withDb { db with tbl_wallet := t })
  | .decrementWallet c column amount, w =>
      let db := w.wallets.db
      w.statement a (.decrementWallet c column amount)
        ((Settlement.incrementWallet db.tbl_wallet c column (amount.map (- ·))).map fun t =>
          w.withDb { db with tbl_wallet := t })
  | .findTokenAddressBalance c, w =>
      w.reply a (.findTokenAddressBalance c)
        (w.wallets.db.address_balance.rows.find? c.finds) w
  | .incrementAddress c amount, w =>
      let db := w.wallets.db
      w.statement a (.incrementAddress c amount)
        ((Settlement.incrementAddress db.address_balance c amount).map fun t =>
          w.withDb { db with address_balance := t })
  | .decrementAddress c amount, w =>
      let db := w.wallets.db
      w.statement a (.decrementAddress c amount)
        ((Settlement.incrementAddress db.address_balance c (amount.map (- ·))).map fun t =>
          w.withDb { db with address_balance := t })
  | .saveError .., w => (.error .rejected, w)

end World

/-! ## Programs -/

def call (o : Op) : Prog o.Res := Proc.call o

/-- A promise that is not awaited: its failure reaches nobody. -/
def detached (p : Prog Unit) : Prog Unit := Proc.tryCatch p fun _ => pure ()

/-- The wallets have no column `balance`. -/
def updateWtihdrawalStatus (transaction_hash : Field) (status : Status) : Prog Unit := do
  call (.updateWithdrawals transaction_hash status)
  if status = .Approved then
    let with_info : Option Withdrawal ← call (.findWithdrawal transaction_hash)
    match with_info with
    | some with_info =>
      call (.decrementWallet ⟨with_info.user_id, some with_info.network, none⟩ "balance"
        (some with_info.with_amount))
    | none => pure ()
  else pure ()

/-- The webhook counts the transaction as confirmed. -/
def HookObj.confirmed (obj : HookObj) : Bool :=
  obj.block_hash ≠ .undefined ∧ (obj.block_height.any fun n => 0 < n) ∧
    (obj.confirmations.any fun n => 0 < n)

def hook (obj : HookObj) : Prog Unit :=
  if obj.confirmed then detached (updateWtihdrawalStatus obj.hash .Approved) else pure ()

/-- One row of a withdrawal job; its network is not selected. -/
def processWithdrawalRow (v : PendingWithdrawal) : Prog Unit :=
  Proc.tryCatch
    (do
      let receipt : Receipt ← call (.receipt v.transaction_hash v.from_address none)
      match receipt with
      | .nothing | .number 0 => pure ()
      | .number count => call (.updateWtihdrawalById v.id (.confirmations count))
      | .receipt status confirmationCount =>
        call (.updateWtihdrawalById v.id
          (.status (if status ≠ 0 then .Approved else .Reverted) confirmationCount)))
    fun error => call (.saveError error "Looping throug get receipt")

/-- Anything other than `Inc` decrements. -/
def updateWallet (user_id : Nat) (amount : Option ℚ) (from_address : String) (coin : Coin)
    (network : Option String) (toDo : String) : Prog Unit :=
  let balance_column := mainColumn coin.name
  if toDo = "Inc" then
    call (.incrementWallet ⟨user_id, network, some from_address⟩ balance_column amount)
  else call (.decrementWallet ⟨user_id, network, some from_address⟩ balance_column amount)

/-- The row that is looked for is never `undefined`, so none is ever saved. -/
def saveTokenAddressBalance (address : String) (coin : Coin) (network : Option String)
    (amount : Option ℚ) (todo : String) : Prog Unit := do
  let _find : Option TokenAddressBalance ← call (.findTokenAddressBalance ⟨address, coin, network⟩)
  if todo = "Inc" then call (.incrementAddress ⟨address, coin, network⟩ amount)
  else call (.decrementAddress ⟨address, coin, network⟩ amount)

def updateDepositlWithStatus (deposit : PartialDeposit) (status : Status) (reason : String)
    (confirmations : Nat) (from_address transaction_hash : String) : Prog Unit := do
  call (.updateDepositById deposit.id
    (.status status reason confirmations from_address transaction_hash))
  if status = .Approved then
    updateWallet deposit.user_id deposit.amount deposit.to_address deposit.coin deposit.network
      "inc"
    saveTokenAddressBalance deposit.to_address deposit.coin deposit.network deposit.amount "Inc"
  else pure ()

/-- `Math.abs(Math.round(hours)) >= 6`, in milliseconds. -/
def sixHours (now created_at : Nat) : Bool :=
  6 ≤ |⌊((now : ℚ) - created_at) / (1000 * 60 * 60) + 1 / 2⌋|

/-- A row without a transaction is given up after six hours. -/
def deleteOld (v : PartialDeposit) : Prog Unit := do
  let now : Nat ← call .date
  if sixHours now v.created_at then call (.updateDepositById v.id .deleted) else pure ()

/-- One row of a deposit job. The confirmations of a deposit are written to the
withdrawal with its id. -/
def processDepositRow (v : PartialDeposit) : Prog Unit :=
  Proc.tryCatch
    (do
      let transaction : Found ← call (.findTransactionForDeposit v)
      match transaction with
      | .nothing | .number 0 => deleteOld v
      | .number count => call (.updateWtihdrawalById v.id (.confirmations count))
      | .transaction t =>
        -- every text that is not empty counts, `0` too; the reason compares with the number 1
        updateDepositlWithStatus v (if t.txreceipt_status ≠ "" then .Approved else .Reverted)
          (if t.txreceipt_status = "1" then "" else "Reverted transaction")
          t.confirmations t.from_address t.hash)
    fun error => call (.saveError error "Looping throug despit in deposit consumer file")

end Exchange.Settlement
