import Exchange.Funds.System
import Exchange.Store.Rowwise

/-!
# What the webhook and the jobs may do to a row

A withdrawal and a deposit keep what they were stored with; once one of them is decided it
is never pending again, and a deposit that was deleted stays so. `rewrites_perform`: every
statement that the protocol allows is of this kind.
-/

namespace Exchange.Funds

open Async Store Wallets Settlement

/-! ## Rows -/

/-- A withdrawal, later. -/
structure LaterWithdrawal (r r' : Withdrawal) : Prop where
  kept : r' = { r with status := r'.status, confirmations := r'.confirmations }
  decided : r.status ≠ .Pending → r'.status ≠ .Pending

/-- A deposit, later. -/
structure LaterDeposit (r r' : Deposit) : Prop where
  kept : r' = { r with
    status := r'.status
    reason := r'.reason
    confirmations := r'.confirmations
    from_address := r'.from_address
    transaction_hash := r'.transaction_hash
    deleted := r'.deleted }
  decided : r.status ≠ .Pending → r'.status ≠ .Pending
  deleted : r.deleted = .YES → r'.deleted = .YES

section Rows

theorem LaterWithdrawal.refl (r : Withdrawal) : LaterWithdrawal r r := ⟨rfl, id⟩

theorem LaterWithdrawal.trans {r r' r'' : Withdrawal} (h : LaterWithdrawal r r')
    (h' : LaterWithdrawal r' r'') : LaterWithdrawal r r'' where
  kept := by
    have hkept := h'.kept
    rw [h.kept] at hkept
    exact hkept
  decided := fun hr => h'.decided (h.decided hr)

theorem LaterDeposit.refl (r : Deposit) : LaterDeposit r r := ⟨rfl, id, id⟩

theorem LaterDeposit.trans {r r' r'' : Deposit} (h : LaterDeposit r r')
    (h' : LaterDeposit r' r'') : LaterDeposit r r'' where
  kept := by
    have hkept := h'.kept
    rw [h.kept] at hkept
    exact hkept
  decided := fun hr => h'.decided (h.decided hr)
  deleted := fun hr => h'.deleted (h.deleted hr)

theorem laterWithdrawal_status {r : Withdrawal} {status : Status} (h : status ≠ .Pending) :
    LaterWithdrawal r { r with status := status } := ⟨rfl, fun _ => h⟩

theorem laterWithdrawal_write {id : Nat} {data : WithdrawalData}
    (h : Decides (.updateWtihdrawalById id data)) (r : Withdrawal) :
    LaterWithdrawal r (data.write r) := by
  cases data with
  | confirmations count => exact ⟨rfl, fun hr => hr⟩
  | status s count => exact ⟨rfl, fun _ => h⟩

theorem laterDeposit_write {id : Nat} {data : DepositData}
    (h : Decides (.updateDepositById id data))
    (r : Deposit) : LaterDeposit r (data.write r) := by
  cases data with
  | status s reason count sender hash => exact ⟨rfl, fun _ => h, fun hr => hr⟩
  | deleted => exact ⟨rfl, fun hr => hr, fun _ => rfl⟩

end Rows

/-! ## Statements -/

/-- A statement that rewrites the rows of withdrawals or of deposits. -/
structure Rewrites (v v' : Settlement.World) : Prop where
  withdrawals : List.Forall₂ LaterWithdrawal v.wallets.db.tbl_withdrawal.rows
    v'.wallets.db.tbl_withdrawal.rows
  deposits : List.Forall₂ LaterDeposit v.tbl_deposit.rows v'.tbl_deposit.rows

theorem Rewrites.refl (v : Settlement.World) : Rewrites v v where
  withdrawals := List.forall₂_same.mpr fun r _ => LaterWithdrawal.refl r
  deposits := List.forall₂_same.mpr fun r _ => LaterDeposit.refl r

theorem rewrites_perform {a : Settlement.Answers} {o : Settlement.Op} (ho : Decides o)
    (v : Settlement.World) :
    Rewrites v (Settlement.World.perform a o v).2 := by
  have hreply : ∀ {α : Type} (o' : Settlement.Op) (r : α) (v' : Settlement.World),
      Rewrites v v' → Rewrites v (v.reply a o' r v').2 := by
    intro α o' r v' h
    unfold Settlement.World.reply
    split
    · exact .refl v
    · exact h
  have hstatement : ∀ (o' : Settlement.Op) (v' : Option Settlement.World),
      (∀ v₁, v' = some v₁ → Rewrites v v₁) → Rewrites v (v.statement a o' v').2 := by
    intro o' v' h
    cases v' with
    | none => exact .refl v
    | some v₁ => exact hreply o' () v₁ (h v₁ rfl)
  cases o with
  | receipt transaction_hash from_address network => exact .refl v
  | findTransactionForDeposit v' => exact .refl v
  | date => exact .refl v
  | updateWithdrawals hash status =>
    apply hreply
    refine ⟨?_, (Rewrites.refl v).deposits⟩
    apply List.forall₂_map_right_iff.mpr
    apply List.forall₂_same.mpr
    intro r _
    split
    · exact laterWithdrawal_status ho
    · exact .refl r
  | updateWtihdrawalById id data =>
    apply hreply
    exact ⟨rowwise_modify data.id_write (fun r _ => .refl r) fun r _ _ =>
      laterWithdrawal_write ho r, (Rewrites.refl v).deposits⟩
  | updateDepositById id data =>
    apply hreply
    exact ⟨(Rewrites.refl v).withdrawals, rowwise_modify data.id_write (fun r _ => .refl r)
      fun r _ _ => laterDeposit_write ho r⟩
  | incrementWallet c column amount =>
    apply hstatement
    intro v₁ h
    obtain ⟨t, -, rfl⟩ := Option.map_eq_some_iff.mp h
    exact ⟨(Rewrites.refl v).withdrawals, (Rewrites.refl v).deposits⟩
  | decrementWallet c column amount =>
    apply hstatement
    intro v₁ h
    obtain ⟨t, -, rfl⟩ := Option.map_eq_some_iff.mp h
    exact ⟨(Rewrites.refl v).withdrawals, (Rewrites.refl v).deposits⟩
  | incrementAddress c amount =>
    apply hstatement
    intro v₁ h
    obtain ⟨t, -, rfl⟩ := Option.map_eq_some_iff.mp h
    exact ⟨(Rewrites.refl v).withdrawals, (Rewrites.refl v).deposits⟩
  | decrementAddress c amount =>
    apply hstatement
    intro v₁ h
    obtain ⟨t, -, rfl⟩ := Option.map_eq_some_iff.mp h
    exact ⟨(Rewrites.refl v).withdrawals, (Rewrites.refl v).deposits⟩
  | findWithdrawal hash => exact hreply _ _ _ (.refl v)
  | findTokenAddressBalance c => exact hreply _ _ _ (.refl v)
  | saveError error source => exact .refl v

end Exchange.Funds
