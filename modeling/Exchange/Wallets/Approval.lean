import Exchange.Wallets.Debits

/-!
# One approval by the webhook

`updateWtihdrawalStatus` with `Approved`: the status is written to all rows of the hash,
then one of them is looked up and the column `balance` of its wallet decremented. No
wallet has that column, so the second statement raises and the first one stays
(`approval_spec`). The call is all or nothing iff there is nothing to approve, or
the first statement fails (`approvedAtomically_iff`).
-/

namespace Exchange.Settlement

open Async Proc Store Wallets

def approval (h : String) : Prog Unit := updateWtihdrawalStatus (.text h) .Approved

/-- The call, with what the database answers. -/
def World.approve (w : World) (a : Answers) (h : String) : Except Err Unit × World :=
  (approval h).run (World.perform a) w

def World.withdrawals (w : World) : List Withdrawal := w.wallets.db.tbl_withdrawal.rows

def World.holders (w : World) : List Wallet := w.wallets.db.tbl_wallet.rows

/-- A row of the hash that is not approved yet. -/
def Awaits (h : String) (r : Withdrawal) : Prop :=
  r.transaction_hash = some h ∧ r.status ≠ .Approved

instance (h : String) (r : Withdrawal) : Decidable (Awaits h r) := by
  unfold Awaits
  infer_instance

/-- The withdrawal is paid from this column of this wallet. -/
def PaidFrom (x : Wallet) (c : Column) (r : Withdrawal) : Prop :=
  r.user_id = x.user_id ∧ r.network = x.network ∧ r.coin.column = some c

instance (x : Wallet) (c : Column) (r : Withdrawal) : Decidable (PaidFrom x c r) := by
  unfold PaidFrom
  infer_instance

/-- What the rows that await the hash take from a column of a wallet. -/
def World.due (w : World) (h : String) (x : Wallet) (c : Column) : ℚ :=
  ((w.withdrawals.filter fun r => Awaits h r ∧ PaidFrom x c r).map fun r => r.with_amount).sum

/-- Every row of the hash is approved, and those that were not are debited. -/
structure Approves (h : String) (w w' : World) : Prop where
  approved : ∀ r ∈ w'.withdrawals, r.transaction_hash = some h → r.status = .Approved
  rows : w'.withdrawals.map Withdrawal.id = w.withdrawals.map Withdrawal.id
  debited : List.Forall₂ (fun x x' : Wallet => x'.id = x.id ∧ ∀ c, x'.get c = x.get c - w.due h x c)
    w.holders w'.holders

/-- Both tables are what they were. -/
structure Unchanged (w w' : World) : Prop where
  withdrawals : w'.withdrawals = w.withdrawals
  holders : w'.holders = w.holders

/-- The call approves and debits, or raises and does nothing; it stays with the rows of
the hash and the wallets of their users; a second call does nothing more. -/
structure ApprovedAtomically (a : Answers) (h : String) (w : World) : Prop where
  outcome : (w.approve a h).1 = .ok () ∧ Approves h w (w.approve a h).2 ∨
    (∃ e, (w.approve a h).1 = .error e) ∧ Unchanged w (w.approve a h).2
  rows : ∀ r ∈ w.withdrawals, r.transaction_hash ≠ some h → r ∈ (w.approve a h).2.withdrawals
  holders : ∀ x ∈ w.holders,
    (∀ r ∈ w.withdrawals, r.transaction_hash = some h → r.user_id ≠ x.user_id) →
      x ∈ (w.approve a h).2.holders
  again : Unchanged (w.approve a h).2 ((w.approve a h).2.approve a h).2

section Approve

variable {a : Answers} {w : World} {h : String}

/-- The row after the first statement. -/
def approved (h : String) (r : Withdrawal) : Withdrawal :=
  if selectsHash (.text h) r then { r with status := .Approved } else r

theorem selectsHash_iff {r : Withdrawal} :
    selectsHash (.text h) r = true ↔ r.transaction_hash = some h := by
  simp [selectsHash]

theorem approved_of_hash {r : Withdrawal} (hr : r.transaction_hash = some h) :
    approved h r = { r with status := .Approved } := by
  unfold approved
  rw [if_pos (selectsHash_iff.mpr hr)]

theorem approved_of_ne {r : Withdrawal} (hr : r.transaction_hash ≠ some h) : approved h r = r := by
  unfold approved
  rw [if_neg (fun hs => hr (selectsHash_iff.mp hs))]

/-- A row that is written to once more stays. -/
theorem approved_approved (r : Withdrawal) : approved h (approved h r) = approved h r := by
  by_cases hr : r.transaction_hash = some h
  · rw [approved_of_hash hr]
    exact approved_of_hash hr
  · rw [approved_of_ne hr, approved_of_ne hr]

theorem approved_eq_self_iff {r : Withdrawal} :
    approved h r = r ↔ (r.transaction_hash = some h → r.status = .Approved) := by
  constructor
  · intro hsame hr
    rw [← hsame, approved_of_hash hr]
  · intro hstatus
    by_cases hr : r.transaction_hash = some h
    · rw [approved_of_hash hr, ← hstatus hr]
    · exact approved_of_ne hr

/-- The statuses are written, no wallet is, and the call returns only when there is no
row of the hash. -/
theorem approval_spec :
    wp (World.perform a) (approval h) (fun r w' => w'.holders = w.holders ∧
      w'.withdrawals = (if a.fails (.updateWithdrawals (.text h) .Approved) then w.withdrawals
        else w.withdrawals.map (approved h)) ∧
      ((∃ e, r = .error e) ∨
        r = .ok () ∧ ∀ r ∈ w.withdrawals, r.transaction_hash ≠ some h)) w := by
  unfold approval updateWtihdrawalStatus
  apply wp_reply rfl
  · intro hfail
    exact ⟨rfl, by rw [hfail]; rfl, .inl ⟨_, rfl⟩⟩
  intro hok
  rw [hok, if_pos rfl, if_neg Bool.false_ne_true]
  apply wp_reply rfl
  · exact fun _ => ⟨rfl, rfl, .inl ⟨_, rfl⟩⟩
  intro _
  split
  · -- the row that is found is paid from a column that does not exist
    apply (wp_call _ _).mpr
    exact ⟨rfl, rfl, .inl ⟨_, rfl⟩⟩
  · next hnone =>
    refine ⟨rfl, rfl, .inr ⟨rfl, fun r hr hhash => ?_⟩⟩
    have hmem : approved h r ∈ (setStatus w.wallets.db.tbl_withdrawal (selectsHash (.text h))
        .Approved).rows := List.mem_map_of_mem (f := approved h) hr
    have hfinds := List.find?_eq_none.mp hnone _ hmem
    rw [approved_of_hash hhash] at hfinds
    exact hfinds (selectsHash_iff.mpr hhash)

/-- A second call does nothing more. -/
theorem approve_again : Unchanged (w.approve a h).2 ((w.approve a h).2.approve a h).2 := by
  have hspec := approval_spec (a := a) (w := w) (h := h)
  have hspec' := approval_spec (a := a) (w := (w.approve a h).2) (h := h)
  obtain ⟨-, hrows, -⟩ := hspec
  obtain ⟨hholders', hrows', -⟩ := hspec'
  refine ⟨hrows'.trans ?_, hholders'⟩
  change (w.approve a h).2.withdrawals = _ at hrows
  split
  · rfl
  · next hok =>
    rw [hrows, if_neg hok, List.map_map]
    exact List.map_congr_left fun r _ => approved_approved r

theorem due_eq_zero (hnone : ∀ r ∈ w.withdrawals, r.transaction_hash ≠ some h) (x : Wallet)
    (c : Column) : w.due h x c = 0 := by
  have hnil : w.withdrawals.filter (fun r => Awaits h r ∧ PaidFrom x c r) = [] := by
    apply List.filter_eq_nil_iff.mpr
    intro r hr
    simp [Awaits, hnone r hr]
  rw [World.due, hnil]
  rfl

/-- **An approval is all or nothing, once** iff there is nothing to approve or the first
statement fails. -/
theorem approvedAtomically_iff (a : Answers) (h : String) (w : World) :
    ApprovedAtomically a h w ↔ a.fails (.updateWithdrawals (.text h) .Approved) = true ∨
      ∀ r ∈ w.withdrawals, r.transaction_hash = some h → r.status = .Approved := by
  have hspec := approval_spec (a := a) (w := w) (h := h)
  obtain ⟨hholders, hrows, hresult⟩ := hspec
  change (w.approve a h).2.holders = _ at hholders
  change (w.approve a h).2.withdrawals = _ at hrows
  change (∃ e, (w.approve a h).1 = .error e) ∨ (w.approve a h).1 = .ok () ∧ _ at hresult
  have hself : w.withdrawals.map (approved h) = w.withdrawals ↔
      ∀ r ∈ w.withdrawals, r.transaction_hash = some h → r.status = .Approved := by
    rw [← List.map_id w.withdrawals, List.map_map, List.map_inj_left]
    simp only [List.map_id]
    exact forall₂_congr fun r _ => approved_eq_self_iff
  have hsame : (w.approve a h).2.withdrawals = w.withdrawals ↔
      a.fails (.updateWithdrawals (.text h) .Approved) = true ∨
        ∀ r ∈ w.withdrawals, r.transaction_hash = some h → r.status = .Approved := by
    rw [hrows]
    split
    · next hfail => simp [hfail]
    · next hok => simp [hok, hself]
  rw [← hsame]
  constructor
  · intro hatomic
    rcases hatomic.outcome with ⟨hok, -⟩ | ⟨-, hunchanged⟩
    · rcases hresult with ⟨e, he⟩ | ⟨-, hnone⟩
      · rw [he] at hok
        cases hok
      · exact hsame.mpr (.inr fun r hr hhash => absurd hhash (hnone r hr))
    · exact hunchanged.withdrawals
  · intro hunchanged
    refine ⟨?_, fun r hr _ => hunchanged ▸ hr, fun x hx _ => hholders ▸ hx, approve_again⟩
    rcases hresult with he | ⟨hok, hnone⟩
    · exact .inr ⟨he, hunchanged, hholders⟩
    · refine .inl ⟨hok, ?_, by rw [hunchanged], ?_⟩
      · intro r hr hhash
        rw [hunchanged] at hr
        exact absurd hhash (hnone r hr)
      · rw [hholders, List.forall₂_same]
        intro x _
        refine ⟨rfl, fun c => ?_⟩
        rw [due_eq_zero hnone, sub_zero]

end Approve

/-- A withdrawal of 3 USDT of user 1, sent as 0x1. -/
def World.sent : World :=
  World.funded.withDb { Wallets.World.funded.db with
    tbl_withdrawal := (Table.empty Withdrawal.id).insert
      ⟨⟨1, some "0xb", "0xc", .USDT, "BEP20", 3, some "0x1", .Pending⟩, 1, .NO, 0⟩ rfl }

/-- The call for 0x1 raises, and the row is approved. -/
theorem approved_not_paid : ¬ ApprovedAtomically .silent "0x1" .sent := by
  intro h
  have hraises : (World.sent.approve .silent "0x1").1 = .error .rejected := rfl
  rcases h.outcome with ⟨hok, -⟩ | ⟨-, hunchanged⟩
  · rw [hraises] at hok
    cases hok
  · have hstatus := congrArg (List.map fun r => r.status) hunchanged.withdrawals
    revert hstatus
    decide +kernel

end Exchange.Settlement
