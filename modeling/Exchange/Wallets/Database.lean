import Exchange.Number.Double
import Exchange.Store.Decimal
import Exchange.Store.Table
import Exchange.Text.Value

/-!
# Wallets and withdrawals

The entities behind `WalletController` and the methods of `DatabaseService` it
uses, as functions of the tables. A `decimal` column holds an exact number and
rounds what is written to it; what a program reads of it is a text.
-/

namespace Exchange.Wallets

open Store Text

inductive Coin where
  | BTC
  | BNB
  | USDT
  | ETH
  | DRNH
  | BUSD
  | TRX
  deriving DecidableEq

/-- The entity `Wallet`: a row of `tbl_wallet`. -/
structure Wallet where
  id : Nat
  user_id : Nat
  network : String
  deposit_address : Option String
  privateKey : Option String
  usdt_balance : ℚ
  bnb_balance : ℚ
  eth_balance : ℚ
  btc_balance : ℚ
  drnh_balance : ℚ
  deriving DecidableEq

/-- `wallet[coin.toLowerCase() + '_balance']`: two coins have no column. -/
def Wallet.balance (wallet : Wallet) : Coin → Option ℚ
  | .BTC => some wallet.btc_balance
  | .BNB => some wallet.bnb_balance
  | .USDT => some wallet.usdt_balance
  | .ETH => some wallet.eth_balance
  | .DRNH => some wallet.drnh_balance
  | .BUSD | .TRX => none

/-- The entity `NetworkFee`: a row of `nw_fees`. -/
structure NetworkFee where
  id : Nat
  network : String
  fees : ℚ
  with_limit : ℚ
  deriving DecidableEq

/-- The entity `TokenAddressBalance`: a row of `address_balance`. -/
structure TokenAddressBalance where
  id : Nat
  coin : Coin
  network : String
  address : String
  balance : ℚ
  deriving DecidableEq

inductive Status where
  | Pending
  | Approved
  | Rejected
  | Reverted
  deriving DecidableEq

inductive YesNo where
  | YES
  | NO
  deriving DecidableEq

/-- The object that `saveWithdrawal` passes to the repository. -/
structure NewWithdrawal where
  user_id : Nat
  from_address : Option String
  to_address : String
  coin : Coin
  network : String
  with_amount : ℚ
  transaction_hash : Option String
  status : Status
  deriving DecidableEq

/-- The entity `Withdrawal`: a row of `tbl_withdrawal`. -/
structure Withdrawal extends NewWithdrawal where
  id : Nat
  pay_by_admin : YesNo
  confirmations : Nat
  deriving DecidableEq

/-- The row written: amounts round, `pay_by_admin` and `confirmations` have their
defaults. -/
def NewWithdrawal.toRow (obj : NewWithdrawal) (id : Nat) : Withdrawal where
  toNewWithdrawal := { obj with with_amount := roundTo 8 obj.with_amount }
  id := id
  pay_by_admin := .NO
  confirmations := 0

structure Tables where
  tbl_wallet : Table Wallet Wallet.id
  tbl_withdrawal : Table Withdrawal Withdrawal.id
  nw_fees : Table NetworkFee NetworkFee.id
  address_balance : Table TokenAddressBalance TokenAddressBalance.id

namespace Tables

def getNetworkFees (db : Tables) (network : String) : Option NetworkFee :=
  db.nw_fees.rows.find? fun r => r.network = network

def searchAddress (db : Tables) (user_id : Nat) (network : String) : Option Wallet :=
  db.tbl_wallet.rows.find? fun r => r.network = network ∧ r.user_id = user_id

/-- `balance >= amount` in a statement: of a text mysql takes as much as is a number, and
then compares doubles. -/
def atLeast (balance : ℚ) : Value → Bool
  | .text s => (parseFloat Double.fl s).getD 0 ≤ Double.fl balance
  | .number x => x ≤ balance
  | .undefined | .null => false

def findDbWithdrawalSourceAddress (db : Tables) (coin : Coin) (network : String) (amount : Value) :
    Option TokenAddressBalance :=
  db.address_balance.rows.find? fun r =>
    r.coin = coin ∧ r.network = network ∧ atLeast r.balance amount

def saveWithdrawal (db : Tables) (obj : NewWithdrawal) : Tables :=
  { db with
    tbl_withdrawal :=
      db.tbl_withdrawal.insert (obj.toRow db.tbl_withdrawal.next) rfl }

end Tables

end Exchange.Wallets
