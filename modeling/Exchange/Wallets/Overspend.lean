import Exchange.Wallets.Withdrawing
import Mathlib.Algebra.BigOperators.Group.List.Basic
import Mathlib.Tactic.Linarith

/-!
# Overspending a wallet

A withdrawal checks the stored balance and never debits it: `withdrawal_spec`
says what one request does, `withdrawAll_paid` that along a run every request
is judged by the balance of the start. So a wallet is overspent iff the
requests that fit in its balance one by one do not fit together
(`withinBalance_iff`), as when a balance is withdrawn twice (`withdrawn_twice`).
-/

namespace Exchange.Wallets

open Async Proc Text WalletController

/-- Answered with success and a hash. -/
def paid : Except Err WithdrawlResponse → Bool
  | .ok ⟨true, _, .text _, _⟩ => true
  | _ => false

/-- The total amount of the requests answered with success and a hash. -/
def paidTotal (decimals : Decimals) (reqs : List (Answers × WithdrawalDto)) (w : World) : ℚ :=
  (((withdrawAll decimals reqs w).1.zip reqs).map fun x =>
    if paid x.1 then x.2.2.amount.value else 0).sum

/-- The check lets an amount with a fee pass. On exact numbers their sum is at most `B`. -/
def covers (decimals : Decimals) (B : ℚ) (amount : Signed) (fees : ℚ) : Bool :=
  (refuseWithdrawal (decimals.plus amount fees) (decimals.column 8 (some B))).isNone

@[simp] theorem covers_numbers (B : ℚ) (amount : Signed) (fees : ℚ) :
    covers .numbers B amount fees = decide (amount.value + fees ≤ B) := by
  by_cases h : B < amount.value + fees
  · simp [covers, refuseWithdrawal, Decimals.plus, Decimals.column, Value.lt, Value.toNumber, h]
  · simp [covers, refuseWithdrawal, Decimals.plus, Decimals.column, Value.lt, Value.toNumber, h,
      not_lt.mp h]

/-- Out of a balance `B` the request alone is paid: the check lets it pass, the
database answers, there are a source address and a transfer function, and the
transfer succeeds with a hash. -/
def paidAlone (decimals : Decimals) (db : Tables) (B : ℚ) (a : Answers) (dto : WithdrawalDto) :
    Bool :=
  match db.getNetworkFees dto.network, db.searchAddress dto.user_id dto.network with
  | some nw_fees, some myWallet =>
    let total := decimals.plus dto.amount nw_fees.fees
    covers decimals B dto.amount nw_fees.fees &&
      !a.fails (.getNetworkFees dto.network) &&
      !a.fails (.searchAddress dto.user_id dto.network) &&
      !a.fails (.findDbWithdrawalSourceAddress dto.coin dto.network total) &&
      (truthy ((db.findDbWithdrawalSourceAddress dto.coin dto.network total).map
        TokenAddressBalance.address)).isSome &&
      (transferFor dto myWallet.privateKey nw_fees.fees).any fun t => paid (a.transfer t)
  | _, _ => false

/-- What the balance check and the look-up of a source address read. -/
structure SameFunds (db db' : Tables) : Prop where
  wallet : db'.tbl_wallet = db.tbl_wallet
  fees : db'.nw_fees = db.nw_fees
  addresses : db'.address_balance = db.address_balance

theorem SameFunds.refl (db : Tables) : SameFunds db db := ⟨rfl, rfl, rfl⟩

theorem SameFunds.trans {db db' db'' : Tables} (h : SameFunds db db') (h' : SameFunds db' db'') :
    SameFunds db db'' :=
  ⟨h'.wallet.trans h.wallet, h'.fees.trans h.fees, h'.addresses.trans h.addresses⟩

theorem SameFunds.paidAlone {decimals : Decimals} {db db' : Tables} (h : SameFunds db db') :
    paidAlone decimals db' = paidAlone decimals db := by
  funext B a dto
  simp only [Wallets.paidAlone, Tables.getNetworkFees, Tables.searchAddress,
    Tables.findDbWithdrawalSourceAddress, h.wallet, h.fees, h.addresses]

section Request

variable {decimals : Decimals} {a : Answers} {w : World}

theorem Tables.saveWithdrawal_funds (db : Tables) (obj : NewWithdrawal) :
    SameFunds db (db.saveWithdrawal obj) := ⟨rfl, rfl, rfl⟩

/-- Out of the balance that is stored, a request is paid alone iff its transfer is. -/
theorem paidAlone_eq {dto : WithdrawalDto} {B : ℚ}
    (hB : (w.db.searchAddress dto.user_id dto.network).bind (Wallet.balance · dto.coin) = some B) :
    paidAlone decimals w.db B a dto =
      (transferOf decimals a dto w).any fun x => paid (a.transfer x.2) := by
  obtain ⟨myWallet, hwallet, hbalance⟩ := Option.bind_eq_some_iff.mp hB
  cases hfees : w.db.getNetworkFees dto.network with
  | none => simp [paidAlone, transferOf, hfees]
  | some nw_fees =>
    have hex : refuses decimals dto nw_fees myWallet =
        !covers decimals B dto.amount nw_fees.fees := by
      rw [refuses, hbalance, covers]
      cases refuseWithdrawal _ _ <;> rfl
    simp only [paidAlone, transferOf, hfees, hwallet, hex]
    split
    · rename_i hstops
      simp only [Bool.or_eq_true] at hstops
      rcases hstops with ((hf | hf) | hrefuses) | hf
      · simp [hf]
      · simp [hf]
      · have hcovers : covers decimals B dto.amount nw_fees.fees = false := by simpa using hrefuses
        rw [hcovers]
        rfl
      · simp [hf]
    · rename_i hgoes
      simp only [Bool.or_eq_true, not_or, Bool.not_eq_true, Bool.not_eq_false'] at hgoes
      obtain ⟨⟨⟨hf₁, hf₂⟩, hcovers⟩, hf₃⟩ := hgoes
      simp only [hf₁, hf₂, hcovers, hf₃]
      cases truthy ((w.db.findDbWithdrawalSourceAddress dto.coin dto.network
        (decimals.plus dto.amount nw_fees.fees)).map TokenAddressBalance.address) with
      | none => rfl
      | some from_address => cases transferFor dto myWallet.privateKey nw_fees.fees <;> rfl

theorem paid_of_no_hash {r : Except Err WithdrawlResponse}
    (h : ∀ result, r = .ok result → result.hash = .undefined) : paid r = false := by
  cases r with
  | error e => rfl
  | ok result =>
    have hhash := h result rfl
    obtain ⟨success, message, hash, blockHash⟩ := result
    subst hhash
    cases success <;> rfl

/-- What a request does: the funds stay as they are, and it is paid iff it is
paid alone out of the balance that is stored. -/
theorem withdrawal_spec (dto : WithdrawalDto) {B : ℚ}
    (hB : (w.db.searchAddress dto.user_id dto.network).bind (Wallet.balance · dto.coin) = some B) :
    wp (World.perform a) (withdrawal decimals dto)
      (fun r w' => SameFunds w.db w'.db ∧ paid r = paidAlone decimals w.db B a dto) w := by
  rw [paidAlone_eq hB]
  apply wp_mono (withdrawal_ended dto)
  rintro r w' (⟨hnone, hr, hdb⟩ | ⟨from_address, t, result, h, hr, hdb⟩)
  · refine ⟨?_, ?_⟩
    · rcases hdb with hdb | ⟨obj, -, hdb⟩
      · exact hdb ▸ SameFunds.refl _
      · exact hdb ▸ w.db.saveWithdrawal_funds obj
    · rw [paid_of_no_hash hr]
      cases htransfer : transferOf decimals a dto w with
      | none => rfl
      | some x =>
        obtain ⟨e, he⟩ := hnone x htransfer
        rw [Option.any_some, he]
        rfl
  · refine ⟨?_, ?_⟩
    · rcases hdb with hdb | ⟨-, -, hdb⟩
      · exact hdb ▸ SameFunds.refl _
      · exact hdb ▸ w.db.saveWithdrawal_funds _
    · rw [h, Option.any_some, hr]

end Request

/-! ## Runs -/

/-- The amounts of the requests that are paid alone out of `B`. -/
def paidAloneTotal (decimals : Decimals) (db : Tables) (B : ℚ)
    (reqs : List (Answers × WithdrawalDto)) : ℚ :=
  ((reqs.filter fun x => paidAlone decimals db B x.1 x.2).map fun x => x.2.amount.value).sum

/-- Along a run each request is judged by the balance of the start. -/
theorem withdrawAll_paid {decimals : Decimals} {reqs : List (Answers × WithdrawalDto)} {w : World}
    {user_id : Nat} {network : String} {coin : Coin} {B : ℚ}
    (hB : (w.db.searchAddress user_id network).bind (Wallet.balance · coin) = some B)
    (hreqs : ∀ x ∈ reqs, x.2.user_id = user_id ∧ x.2.network = network ∧ x.2.coin = coin) :
    SameFunds w.db (withdrawAll decimals reqs w).2.db ∧
      paidTotal decimals reqs w = paidAloneTotal decimals w.db B reqs := by
  induction reqs generalizing w with
  | nil => exact ⟨SameFunds.refl _, rfl⟩
  | cons x reqs ih =>
    obtain ⟨a, dto⟩ := x
    obtain ⟨⟨huser, hnetwork, hcoin⟩, hrest⟩ := List.forall_mem_cons.mp hreqs
    have hspec : wp (World.perform a) (withdrawal decimals dto)
        (fun r w' => SameFunds w.db w'.db ∧ paid r = paidAlone decimals w.db B a dto) w := by
      apply withdrawal_spec
      rw [huser, hnetwork, hcoin]
      exact hB
    obtain ⟨hfunds, hpaid⟩ := hspec
    have hB' : (((withdrawal decimals dto).run (World.perform a) w).2.db.searchAddress user_id
        network).bind (Wallet.balance · coin) = some B := by
      rw [Tables.searchAddress, hfunds.wallet]
      exact hB
    obtain ⟨hrun, htotal⟩ := ih hB' hrest
    refine ⟨hfunds.trans hrun, ?_⟩
    have hcons : paidTotal decimals ((a, dto) :: reqs) w =
        (if paidAlone decimals w.db B a dto then dto.amount.value else 0) +
          paidTotal decimals reqs ((withdrawal decimals dto).run (World.perform a) w).2 := by
      rw [← hpaid]
      rfl
    rw [hcons, htotal, paidAloneTotal, paidAloneTotal, hfunds.paidAlone, List.filter_cons]
    split
    · rfl
    · exact zero_add _

/-- **Withdrawals stay within the balance** iff the requests that are paid alone
out of the balance fit in it together, on exact numbers as on texts. -/
theorem withinBalance_iff (decimals : Decimals) (reqs : List (Answers × WithdrawalDto)) (w : World)
    (user_id : Nat) (network : String) (coin : Coin) (B : ℚ)
    (hB : (w.db.searchAddress user_id network).bind (Wallet.balance · coin) = some B)
    (hreqs : ∀ x ∈ reqs, x.2.user_id = user_id ∧ x.2.network = network ∧ x.2.coin = coin) :
    paidTotal decimals reqs w ≤ B ↔ paidAloneTotal decimals w.db B reqs ≤ B := by
  rw [(withdrawAll_paid hB hreqs).2]

/-! ## Two withdrawals -/

/-- Every transfer succeeds with a hash and is in a block; the database answers. -/
def Answers.fine : Answers where
  transfer := fun _ => .ok ⟨true, "Transfer Successful", .text "0x1", .text "0x2"⟩
  fails := fun _ => false

/-- User 1 holds 95 USDT on BEP20, where fees are 1. -/
def World.funded : World where
  db := {
    tbl_wallet := (Store.Table.empty Wallet.id).insert
      ⟨1, 1, "BEP20", some "0xa", some "key", 95, 0, 0, 0, 0⟩ rfl
    tbl_withdrawal := .empty _
    nw_fees := (Store.Table.empty NetworkFee.id).insert ⟨1, "BEP20", 1, 0⟩ rfl
    address_balance := (Store.Table.empty TokenAddressBalance.id).insert
      ⟨1, .USDT, "BEP20", "0xb", 1000⟩ rfl }
  withdrawal_cron := false

/-- A request of user 1 for USDT on BEP20; the amount is written with one place. -/
def WithdrawalDto.usdt (amount : ℚ) : WithdrawalDto :=
  ⟨1, .USDT, "BEP20", (column 1 amount).signed, "0xc"⟩

theorem withinBalance_small :
    paidTotal .numbers [(.fine, .usdt 30), (.fine, .usdt 40)] .funded ≤ 95 := by
  apply (withinBalance_iff _ _ _ 1 "BEP20" .USDT 95 (by decide +kernel) ?_).mpr
  · decide +kernel
  · simp [WithdrawalDto.usdt]

/-- The balance of 95 is withdrawn twice, 90 each time, on texts as on numbers. -/
theorem withdrawn_twice :
    (World.funded.db.searchAddress 1 "BEP20").bind (Wallet.balance · .USDT) = some 95 ∧
      paidTotal .numbers [(.fine, .usdt 90), (.fine, .usdt 90)] .funded = 180 ∧
      paidTotal .texts [(.fine, .usdt 90), (.fine, .usdt 90)] .funded = 180 := by
  refine ⟨?_, ?_, ?_⟩
  · decide +kernel
  · decide +kernel
  · decide +kernel

end Exchange.Wallets
