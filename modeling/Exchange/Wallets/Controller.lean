import Exchange.Async.Proc
import Exchange.Wallets.Database

/-!
# The withdrawal endpoint

`WalletController.withdrawal`, as a program over the database and the transfer
functions. What the chains answer is outside: a transfer function raises or
returns some response (`Answers.transfer`).

What mysql returns for a decimal column is a text, and so is the amount of a request;
`+` writes one behind the other. Which values the program computes with is a parameter
(`Decimals`), so that it can be compared with itself on exact numbers.
-/

namespace Exchange.Wallets

open Async Text

/-- A property of a response object: missing, `null` or a text. -/
inductive Field where
  | undefined
  | null
  | text (s : String)
  deriving DecidableEq

structure WithdrawlResponse where
  success : Bool
  message : String
  hash : Field
  blockHash : Field
  deriving DecidableEq

structure WithdrawalDto where
  user_id : Nat
  coin : Coin
  network : String
  amount : Signed
  to_address : String
  deriving DecidableEq

inductive Err where
  | rejected
  | typeError
  | transferError (error : String)
  deriving DecidableEq

/-- A call of one of the transfer functions of the controller. -/
inductive Transfer where
  | sendBitcoin (amount : Signed) (to_address : String) (privateKey : Option String) (fees : ℚ)
  | transferBep20 (amount : Signed) (to_address : String) (privateKey : Option String) (coin : Coin)
      (fees : ℚ)
  | sendUSDTERC20 (amount : Signed) (to_address : String) (privateKey : Option String) (fees : ℚ)
  | transferBep20USDT (amount : Signed) (to_address : String) (privateKey : Option String)
      (coin : Coin) (fees : ℚ)
  | transferETH (amount : Signed) (to_address : String) (privateKey : Option String) (fees : ℚ)
  | transferBNBBep20 (amount : Signed) (to_address : String) (privateKey : Option String) (fees : ℚ)
  | transferBNBBep2 (amount : Signed) (to_address : String) (privateKey : Option String)
      (memo : String)
  deriving DecidableEq

inductive Op where
  | getNetworkFees (network : String)
  | searchAddress (user_id : Nat) (network : String)
  | findDbWithdrawalSourceAddress (coin : Coin) (network : String) (amount : Value)
  | transfer (t : Transfer)
  | saveWithdrawal (obj : NewWithdrawal)
  | startWithdrawalCron
  | saveError (error : Err) (source : String)

abbrev Op.Res : Op → Type
  | getNetworkFees _ => Option NetworkFee
  | searchAddress .. => Option Wallet
  | findDbWithdrawalSourceAddress .. => Option TokenAddressBalance
  | transfer _ => WithdrawlResponse
  | saveWithdrawal _ | startWithdrawalCron | saveError .. => Unit

abbrev Prog := Proc Op Op.Res Err

/-- The tables, and whether the withdrawal cron runs. -/
structure World where
  db : Tables
  withdrawal_cron : Bool

/-- What is outside, during one request: the chains and the failures of the database. -/
structure Answers where
  transfer : Transfer → Except Err WithdrawlResponse
  fails : Op → Bool

/-- The answer of the database, unless the call fails. -/
def Answers.reply {α : Type} (a : Answers) (o : Op) (w : World) (r : α) (w' : World) :
    Except Err α × World :=
  if a.fails o then (.error .rejected, w) else (.ok r, w')

def World.perform (a : Answers) : Handler Op Op.Res Err World
  | .getNetworkFees network, w =>
      a.reply (.getNetworkFees network) w (w.db.getNetworkFees network) w
  | .searchAddress user_id network, w =>
      a.reply (.searchAddress user_id network) w (w.db.searchAddress user_id network) w
  | .findDbWithdrawalSourceAddress coin network amount, w =>
      a.reply (.findDbWithdrawalSourceAddress coin network amount) w
        (w.db.findDbWithdrawalSourceAddress coin network amount) w
  | .transfer t, w => (a.transfer t, w)
  | .saveWithdrawal obj, w =>
      a.reply (.saveWithdrawal obj) w () { w with db := w.db.saveWithdrawal obj }
  | .startWithdrawalCron, w => (.ok (), { w with withdrawal_cron := true })
  -- the entity of the errors is not among those of the connection
  | .saveError .., w => (.error .rejected, w)

/-- The decimals of the program: the texts that mysql and the request give, or exact numbers. -/
inductive Decimals where
  | texts
  | numbers
  deriving DecidableEq

namespace Decimals

/-- The property of a row; one that is missing is `undefined`. -/
def column (decimals : Decimals) (scale : ℕ) : Option ℚ → Value
  | none => .undefined
  | some q =>
    match decimals with
    | texts => .text (fixed scale q)
    | numbers => .number q

/-- `amount + nw_fees.fees`. -/
def plus : Decimals → Signed → ℚ → Value
  | texts, amount, fees => .text (amount.text ++ fixed 6 fees)
  | numbers, amount, fees => .number (amount.value + fees)

end Decimals

namespace WalletController

def call (o : Op) : Prog o.Res := Proc.call o

/-- Reading a property of `null` or `undefined` raises. -/
def property {α : Type} : Option α → Prog α
  | some a => pure a
  | none => .throw .typeError

/-- `pay_with_admin` is not among the properties that are saved. -/
def saveWithdrawal (obj : NewWithdrawal) (_pay_with_admin : YesNo) : Prog Unit := do
  call (.saveWithdrawal obj)
  if obj.network ≠ "Bitcoin" then call .startWithdrawalCron else pure ()

/-- A promise that is not awaited: its failure reaches nobody. -/
def detached (p : Prog Unit) : Prog Unit := Proc.tryCatch p fun _ => pure ()

/-- The check of `withdrawal`; a balance that is `undefined` compares as false. -/
def refuseWithdrawal (amount wallet_balance : Value) : Option WithdrawlResponse :=
  if wallet_balance.lt Double.fl amount then
    some ⟨false, "Insufficient blalance in wallet", .undefined, .undefined⟩
  else none

/-- The transfer function for a coin on a network, if there is one. -/
def transferFor (dto : WithdrawalDto) (privateKey : Option String) (fees : ℚ) : Option Transfer :=
  match dto.coin with
  | .BTC =>
      if dto.network = "Bitcoin" then
        some (.sendBitcoin dto.amount dto.to_address privateKey fees)
      else some (.transferBep20 dto.amount dto.to_address privateKey .BTC fees)
  | .USDT =>
      if dto.network = "ERC20" then
        some (.sendUSDTERC20 dto.amount dto.to_address privateKey fees)
      else if dto.network = "BEP20" then
        some (.transferBep20USDT dto.amount dto.to_address privateKey .USDT fees)
      else none
  | .ETH => some (.transferETH dto.amount dto.to_address privateKey fees)
  | .DRNH => some (.transferBep20 dto.amount dto.to_address privateKey .DRNH fees)
  | .BNB =>
      if dto.network = "BEP20" then
        some (.transferBNBBep20 dto.amount dto.to_address privateKey fees)
      else if dto.network = "BEP2" then
        some (.transferBNBBep2 dto.amount dto.to_address privateKey "memo")
      else none
  | .BUSD | .TRX => none

/-- A text that is `null` or empty counts as false. -/
def truthy (s : Option String) : Option String := s.filter fun s => s ≠ ""

/-- The text in a property, for a nullable column. -/
def Field.column : Field → Option String
  | .text s => some s
  | _ => none

def withdrawal (decimals : Decimals) (dto : WithdrawalDto) : Prog WithdrawlResponse :=
  Proc.tryCatch
    (do
      let nw_fees : Option NetworkFee ← call (.getNetworkFees dto.network)
      let myWallet : Option Wallet ← call (.searchAddress dto.user_id dto.network)
      let myWallet ← property myWallet
      let wallet_balance := decimals.column 8 (myWallet.balance dto.coin)
      let nw_fees ← property nw_fees
      let total := decimals.plus dto.amount nw_fees.fees
      match refuseWithdrawal total wallet_balance with
      | some refused => pure refused
      | none =>
        let tokenAdressRow : Option TokenAddressBalance ← call
          (.findDbWithdrawalSourceAddress dto.coin dto.network total)
        match truthy (tokenAdressRow.map TokenAddressBalance.address) with
        | some from_address =>
          -- no branch leaves `result` undefined, and reading its hash raises
          let t ← property (transferFor dto myWallet.privateKey nw_fees.fees)
          let result : WithdrawlResponse ← call (.transfer t)
          if result.hash ≠ .undefined ∧ result.success = true then
            detached (saveWithdrawal {
              user_id := dto.user_id
              from_address := some from_address
              to_address := dto.to_address
              coin := dto.coin
              network := dto.network
              with_amount := dto.amount.value
              transaction_hash := Field.column result.hash
              status := if result.blockHash ≠ .undefined then .Approved else .Pending } .NO)
          else pure ()
          pure result
        | none =>
          -- paid by the admin
          detached (saveWithdrawal {
            user_id := dto.user_id
            from_address := none
            to_address := dto.to_address
            coin := dto.coin
            network := dto.network
            with_amount := dto.amount.value
            transaction_hash := none
            status := .Pending } .YES)
          pure ⟨true, "Withdrawal Request placed successfully,", .undefined, .undefined⟩)
    fun error => do
      call (.saveError error "Withdrawal function")
      pure ⟨false, "Failed to accept withdrawal at the moment,Try after sometime",
        .undefined, .undefined⟩

end WalletController

/-- Handle withdrawal requests one after the other, each with what is outside. -/
def withdrawAll (decimals : Decimals) :
    List (Answers × WithdrawalDto) → World → List (Except Err WithdrawlResponse) × World
  | [], w => ([], w)
  | (a, dto) :: reqs, w =>
      let r := (WalletController.withdrawal decimals dto).run (World.perform a) w
      let rest := withdrawAll decimals reqs r.2
      (r.1 :: rest.1, rest.2)

end Exchange.Wallets
