import Exchange.Store.Update
import Exchange.Wallets.Database

/-!
# The balance columns of `tbl_wallet`

Statements outside the repository classes name a column by text,
`coin.toLowerCase() + '_balance'`, and add to it in place.
-/

namespace Exchange.Wallets

open Store

inductive Column where
  | usdt_balance
  | bnb_balance
  | eth_balance
  | btc_balance
  | drnh_balance
  deriving DecidableEq

def Column.name : Column → String
  | .usdt_balance => "usdt_balance"
  | .bnb_balance => "bnb_balance"
  | .eth_balance => "eth_balance"
  | .btc_balance => "btc_balance"
  | .drnh_balance => "drnh_balance"

/-- The column with a name, if there is one. -/
def Column.ofName (name : String) : Option Column :=
  [usdt_balance, bnb_balance, eth_balance, btc_balance, drnh_balance].find? fun c => c.name = name

/-- `toLowerCase()`, for the texts of coins. -/
def lowercase (s : String) : String := String.ofList (s.toList.map Char.toLower)

/-- `coin.toLowerCase() + '_balance'`. -/
def mainColumn (coin : String) : String := lowercase coin ++ "_balance"

def Coin.name : Coin → String
  | .BTC => "BTC"
  | .BNB => "BNB"
  | .USDT => "USDT"
  | .ETH => "ETH"
  | .DRNH => "DRNH"
  | .BUSD => "BUSD"
  | .TRX => "TRX"

def Coin.column (coin : Coin) : Option Column := Column.ofName (mainColumn coin.name)

namespace Wallet

variable {wallet wallet' : Wallet} {c c' : Column} {amount : ℚ}

def get (wallet : Wallet) : Column → ℚ
  | .usdt_balance => wallet.usdt_balance
  | .bnb_balance => wallet.bnb_balance
  | .eth_balance => wallet.eth_balance
  | .btc_balance => wallet.btc_balance
  | .drnh_balance => wallet.drnh_balance

def set (wallet : Wallet) (c : Column) (value : ℚ) : Wallet :=
  match c with
  | .usdt_balance => { wallet with usdt_balance := value }
  | .bnb_balance => { wallet with bnb_balance := value }
  | .eth_balance => { wallet with eth_balance := value }
  | .btc_balance => { wallet with btc_balance := value }
  | .drnh_balance => { wallet with drnh_balance := value }

@[simp] theorem get_set_self (wallet : Wallet) (c : Column) (value : ℚ) :
    (wallet.set c value).get c = value := by
  cases c <;> rfl

theorem get_set_of_ne (value : ℚ) (h : c' ≠ c) : (wallet.set c value).get c' = wallet.get c' := by
  cases c <;> cases c' <;> first | rfl | exact absurd rfl h

@[simp] theorem id_set (value : ℚ) : (wallet.set c value).id = wallet.id := by
  cases c <;> rfl

@[simp] theorem user_id_set (value : ℚ) : (wallet.set c value).user_id = wallet.user_id := by
  cases c <;> rfl

/-- `column = column + amount`, refused when the sum does not fit in the column. -/
def increment (c : Column) (amount : ℚ) (wallet : Wallet) : Option Wallet :=
  if fits 17 8 (wallet.get c + amount) then
    some (wallet.set c (roundTo 8 (wallet.get c + amount)))
  else none

theorem of_increment (h : wallet.increment c amount = some wallet') :
    wallet' = wallet.set c (roundTo 8 (wallet.get c + amount)) := by
  unfold increment at h
  split at h
  · cases h
    rfl
  · cases h

theorem id_increment (h : wallet.increment c amount = some wallet') : wallet'.id = wallet.id := by
  rw [of_increment h, id_set]

/-- The columns hold numbers with eight places. -/
def Decimal (wallet : Wallet) : Prop := ∀ c, IsDecimal 8 (wallet.get c)

/-- No column is below zero. -/
def Nonneg (wallet : Wallet) : Prop := ∀ c, 0 ≤ wallet.get c

end Wallet

end Exchange.Wallets
