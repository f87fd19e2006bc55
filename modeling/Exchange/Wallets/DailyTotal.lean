import Exchange.Polling.Sources
import Exchange.Store.Query
import Exchange.Wallets.Address

/-!
# What a user has withdrawn today

`todayWithrawn` gives its query four conditions one after the other, and only the
last one stays: the rows of today are added up whoever they belong to, and
`getBalance` answers that total.

`perUser_iff`: so the total is the user's own, and other rows do not show in
the answer, iff the other withdrawals of today add nothing (`others_total`).
-/

namespace Exchange.Wallets.DailyTotal

open Store Address Polling

/-- The tables with the time of each withdrawal, and the time now. -/
structure Dated extends Tables where
  rows : List WithdrawalRow
  now : Nat
  dated : rows.map WithdrawalRow.toWithdrawal = tbl_withdrawal.rows

structure BalanceResponse where
  balance : Option ℚ
  fees : ℚ
  todayWithdrawn : Option ℚ
  totalLimit : ℚ
  deriving DecidableEq

variable (day : Nat → Nat)

namespace Dated

/-- `day` is `DATE`, in the time zone of the session. -/
def todayWithrawn (s : Dated) (user_id : Nat) (coin : Coin) (network : String) : Option ℚ :=
  sumOf (fun r => r.with_amount)
    (((((Select.createQueryBuilder s.rows).setWhere fun r => r.coin = coin).setWhere
      fun r => r.network = network).setWhere
      fun r => r.user_id = user_id).setWhere
      fun r => day r.created_at = day s.now).getRows

/-- `POST /getBalance`. -/
def genBalance (s : Dated) (dto : GetAddressDto) : Except Err BalanceResponse :=
  let todayWithdrawn := s.todayWithrawn day dto.user_id dto.coin dto.network
  -- a missing row is `null`, and a property of `null` cannot be read
  match s.searchAddress dto.user_id dto.network, s.getNetworkFees dto.network with
  | some wallet, some fees_row =>
      .ok ⟨wallet.balance dto.coin, fees_row.fees, todayWithdrawn, fees_row.with_limit⟩
  | _, _ => .error .typeError

/-! ## Whose rows are added up -/

/-- The rows of today. -/
def today (s : Dated) : List WithdrawalRow := s.rows.filter fun r => day r.created_at = day s.now

/-- A withdrawal of the user, in the coin and on the network. -/
def mine (dto : GetAddressDto) (r : WithdrawalRow) : Bool :=
  r.user_id = dto.user_id ∧ r.coin = dto.coin ∧ r.network = dto.network

def own (s : Dated) (dto : GetAddressDto) : List WithdrawalRow := (s.today day).filter (mine dto)

def others (s : Dated) (dto : GetAddressDto) : List WithdrawalRow :=
  (s.today day).filter fun r => !mine dto r

/-- There are no other withdrawals today, or there are own ones and the others add up to
nothing. -/
def AddNothing (s : Dated) (dto : GetAddressDto) : Prop :=
  s.others day dto = [] ∨
    s.own day dto ≠ [] ∧ ((s.others day dto).map fun r => r.with_amount).sum = 0

end Dated

/-- Two states that differ only in the withdrawals of others and of other days. -/
structure SameFor (dto : GetAddressDto) (s s' : Dated) : Prop where
  tbl_wallet : s.tbl_wallet = s'.tbl_wallet
  nw_fees : s.nw_fees = s'.nw_fees
  own : s.own day dto = s'.own day dto

/-- The total is that of the own withdrawals of today, and two states that differ only in
others have the same total and the same answer. -/
structure PerUser (dto : GetAddressDto) (s s' : Dated) : Prop where
  total : s.todayWithrawn day dto.user_id dto.coin dto.network =
    sumOf (fun r => r.with_amount) (s.own day dto)
  total' : s'.todayWithrawn day dto.user_id dto.coin dto.network =
    sumOf (fun r => r.with_amount) (s'.own day dto)
  same : SameFor day dto s s' →
    s.todayWithrawn day dto.user_id dto.coin dto.network =
        s'.todayWithrawn day dto.user_id dto.coin dto.network ∧
      s.genBalance day dto = s'.genBalance day dto

variable {day} {dto : GetAddressDto} {s s' : Dated}

/-- Only the condition on the date is left of the query. -/
theorem todayWithrawn_eq (user_id : Nat) (coin : Coin) (network : String) :
    s.todayWithrawn day user_id coin network = sumOf (fun r => r.with_amount) (s.today day) := by
  simp only [Dated.todayWithrawn, Select.setWhere_setWhere]
  rfl

theorem total_own_iff :
    s.todayWithrawn day dto.user_id dto.coin dto.network =
        sumOf (fun r => r.with_amount) (s.own day dto) ↔
      s.AddNothing day dto := by
  rw [todayWithrawn_eq]
  exact sumOf_eq_own_iff

/-- The answer reads the wallet, the fees and the total. -/
theorem genBalance_congr (hw : s.tbl_wallet = s'.tbl_wallet) (hf : s.nw_fees = s'.nw_fees)
    (ht : s.todayWithrawn day dto.user_id dto.coin dto.network =
      s'.todayWithrawn day dto.user_id dto.coin dto.network) :
    s.genBalance day dto = s'.genBalance day dto := by
  simp only [Dated.genBalance, Tables.searchAddress, Tables.getNetworkFees, hw, hf, ht]

/-- **The total is the user's own**, and so is the answer, iff what the others withdrew
today adds nothing. -/
theorem perUser_iff :
    PerUser day dto s s' ↔ s.AddNothing day dto ∧ s'.AddNothing day dto := by
  constructor
  · intro h
    exact ⟨total_own_iff.mp h.total, total_own_iff.mp h.total'⟩
  · rintro ⟨hs, hs'⟩
    have ht := total_own_iff.mpr hs
    have ht' := total_own_iff.mpr hs'
    refine ⟨ht, ht', fun hsame => ?_⟩
    have heq : s.todayWithrawn day dto.user_id dto.coin dto.network =
        s'.todayWithrawn day dto.user_id dto.coin dto.network := by
      rw [ht, ht', hsame.own]
    exact ⟨heq, genBalance_congr hsame.tbl_wallet hsame.nw_fees heq⟩

/-- The tables at a time at which all the withdrawals in them were made. -/
def Dated.at (db : Tables) (now : Nat) : Dated where
  toTables := db
  rows := db.tbl_withdrawal.rows.map fun r => ⟨r, .NO, now⟩
  now := now
  dated := by
    rw [List.map_map]
    exact List.map_id _

/-- User 7 has a wallet, and withdraws 1 BNB. -/
def one : Tables where
  tbl_wallet := (Table.empty Wallet.id).insert ⟨1, 7, "BEP20", none, none, 0, 5, 0, 0, 0⟩ rfl
  tbl_withdrawal := (Table.empty Withdrawal.id).insert
    (NewWithdrawal.toRow ⟨7, none, "0xb", .BNB, "BEP20", 1, none, .Pending⟩ 1) rfl
  nw_fees := (Table.empty NetworkFee.id).insert ⟨1, "BEP20", 0, 10⟩ rfl
  address_balance := Table.empty TokenAddressBalance.id

/-- User 8 withdraws 4 USDT on another network. -/
def two : Tables := one.saveWithdrawal ⟨8, none, "0xc", .USDT, "ERC20", 4, none, .Pending⟩

/-- What user 8 withdraws is in the total of user 7. -/
theorem others_total :
    ¬ PerUser (fun time => time / 86400000) ⟨7, .BNB, "BEP20"⟩ (Dated.at one 0) (Dated.at two 0) ∧
      (Dated.at two 0).genBalance (fun time => time / 86400000) ⟨7, .BNB, "BEP20"⟩ =
        .ok ⟨some 5, 0, some 5, 10⟩ := by
  have hanswer : (Dated.at two 0).genBalance (fun time => time / 86400000)
      ⟨7, .BNB, "BEP20"⟩ = .ok ⟨some 5, 0, some 5, 10⟩ := by
    decide +kernel
  refine ⟨fun h => ?_, hanswer⟩
  obtain ⟨-, hsame⟩ := h.same ⟨rfl, rfl, by decide +kernel⟩
  rw [hanswer] at hsame
  exact absurd hsame (by decide +kernel)

end Exchange.Wallets.DailyTotal
