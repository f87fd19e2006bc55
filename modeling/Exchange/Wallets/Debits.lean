import Exchange.Wallets.Overspend
import Exchange.Wallets.Settlement

/-!
# Debits of approved withdrawals

A withdrawal becomes approved when it is stored with a block hash, by the
webhook, or by a receipt. None of the three debits a wallet: the webhook tries
on a column that does not exist. So the wallets hold what they held minus what
is approved as long as nothing is approved (`debited_of_quiet`), and the first
approved withdrawal is paid for by nobody (`approved_not_debited`).
-/

namespace Exchange.Settlement

open Async Proc Store Wallets

/-! ## What a call leaves of the wallets -/

section Rules

variable {a : Answers} {w : World}

/-- A call of the database that may fail. -/
theorem wp_reply {β : Type} {o : Op} {f : o.Res → Prog β} {Q : Except Err β → World → Prop}
    {r : o.Res} {w' : World} (hp : World.perform a o w = w.reply a o r w')
    (hfail : a.fails o = true → Q (.error .rejected) w)
    (hok : a.fails o = false → wp (World.perform a) (f r) Q w') :
    wp (World.perform a) (call o >>= f) Q w := by
  apply (wp_bind _ _ _).mpr
  exact wp_call_fails hp hfail hok

/-- The last call of a program. -/
theorem wp_reply_last {o : Op} {Q : Except Err o.Res → World → Prop}
    {r : o.Res} {w' : World} (hp : World.perform a o w = w.reply a o r w')
    (hfail : a.fails o = true → Q (.error .rejected) w)
    (hok : a.fails o = false → Q (.ok r) w') :
    wp (World.perform a) (call o) Q w :=
  wp_call_fails hp hfail hok

/-- A statement leaves the world, or what it makes of it. -/
theorem World.statement_cases (o : Op) (r : Option World) :
    (w.statement a o r).2 = w ∨ r = some (w.statement a o r).2 := by
  cases r with
  | none => exact .inl rfl
  | some w' =>
    simp only [World.statement, World.reply]
    split
    · exact .inl rfl
    · exact .inr rfl

theorem wp_detached {p : Prog Unit} {Q : World → Prop}
    (h : wp (World.perform a) p (fun _ => Q) w) :
    wp (World.perform a) (detached p) (fun _ => Q) w := by
  unfold detached
  rw [wp_tryCatch]
  apply wp_mono h
  rintro (e | r) w' hQ
  · exact hQ
  · exact hQ

/-- The wallets and the deposits are as before; the withdrawals are `t`. -/
structure Becomes (t : Table Withdrawal Withdrawal.id) (w w' : World) : Prop where
  tbl_wallet : w'.wallets.db.tbl_wallet = w.wallets.db.tbl_wallet
  address_balance : w'.wallets.db.address_balance = w.wallets.db.address_balance
  tbl_withdrawal : w'.wallets.db.tbl_withdrawal = t

/-- The withdrawals after the webhook. -/
def World.hooked (a : Answers) (obj : HookObj) (w : World) : Table Withdrawal Withdrawal.id :=
  if obj.confirmed = true ∧ a.fails (.updateWithdrawals obj.hash .Approved) = false then
    setStatus w.wallets.db.tbl_withdrawal (selectsHash obj.hash) .Approved
  else w.wallets.db.tbl_withdrawal

/-- The webhook writes the statuses and no wallet: `balance` is no column. -/
theorem hook_spec (obj : HookObj) :
    wp (World.perform a) (hook obj) (fun _ w' => Becomes (w.hooked a obj) w w') w := by
  unfold hook
  by_cases hc : obj.confirmed = true
  · rw [if_pos hc]
    apply wp_detached
    unfold updateWtihdrawalStatus
    apply wp_reply rfl
    · intro hf
      exact ⟨rfl, rfl, by simp [World.hooked, hf]⟩
    intro hok
    have hhooked : w.hooked a obj =
        setStatus w.wallets.db.tbl_withdrawal (selectsHash obj.hash) .Approved := by
      simp [World.hooked, hc, hok]
    rw [if_pos rfl, hhooked]
    apply wp_reply rfl
    · exact fun _ => ⟨rfl, rfl, rfl⟩
    intro _
    split
    · apply (wp_call _ _).mpr
      exact ⟨rfl, rfl, rfl⟩
    · exact ⟨rfl, rfl, rfl⟩
  · have hhooked : w.hooked a obj = w.wallets.db.tbl_withdrawal := by simp [World.hooked, hc]
    rw [if_neg hc, hhooked]
    exact ⟨rfl, rfl, rfl⟩

/-- The withdrawals after `updateWtihdrawalById`. -/
def World.updated (a : Answers) (id : Nat) (data : WithdrawalData) (w : World) :
    Table Withdrawal Withdrawal.id :=
  if a.fails (.updateWtihdrawalById id data) then w.wallets.db.tbl_withdrawal
  else w.wallets.db.tbl_withdrawal.modify id data.write data.id_write

/-- The withdrawals after one row of a job. -/
def World.received (a : Answers) (v : PendingWithdrawal) (w : World) :
    Table Withdrawal Withdrawal.id :=
  match a.receipt with
  | .ok (.number (count + 1)) => w.updated a v.id (.confirmations (count + 1))
  | .ok (.receipt status count) =>
      w.updated a v.id (.status (if status ≠ 0 then .Approved else .Reverted) count)
  | _ => w.wallets.db.tbl_withdrawal

/-- The `catch` of a row writes no table of these. -/
theorem wp_caught {p : Prog Unit} {t : Table Withdrawal Withdrawal.id} {source : String}
    (h : wp (World.perform a) p (fun _ w' => Becomes t w w') w) :
    wp (World.perform a) (Proc.tryCatch p fun error => call (.saveError error source))
      (fun _ w' => Becomes t w w') w := by
  rw [wp_tryCatch]
  apply wp_mono h
  rintro (e | r) w' hbecomes
  · exact (wp_call _ _).mpr hbecomes
  · exact hbecomes

theorem updated_spec (id : Nat) (data : WithdrawalData) :
    wp (World.perform a) (call (.updateWtihdrawalById id data))
      (fun _ w' => Becomes (w.updated a id data) w w') w := by
  apply wp_reply_last rfl
  · intro hf
    exact ⟨rfl, rfl, by simp only [World.updated, hf, if_true]⟩
  · intro hf
    exact ⟨rfl, rfl, by simp only [World.updated, hf, Bool.false_eq_true, if_false]; rfl⟩

theorem processWithdrawalRow_spec (v : PendingWithdrawal) :
    wp (World.perform a) (processWithdrawalRow v)
      (fun _ w' => Becomes (w.received a v) w w') w := by
  apply wp_caught
  apply (wp_bind _ _ _).mpr
  apply (wp_call _ _).mpr
  cases hr : a.receipt with
  | error e =>
    simp only [World.perform, hr]
    exact ⟨rfl, rfl, by simp only [World.received, hr]⟩
  | ok receipt =>
    simp only [World.perform, hr]
    cases receipt with
    | nothing => exact ⟨rfl, rfl, by simp only [World.received, hr]; rfl⟩
    | number count =>
      cases count with
      | zero => exact ⟨rfl, rfl, by simp only [World.received, hr]; rfl⟩
      | succ count =>
        simp only [World.received, hr]
        exact updated_spec v.id (.confirmations (count + 1))
    | receipt status count =>
      simp only [World.received, hr]
      exact updated_spec v.id (.status _ count)

end Rules

/-! ## What a request stores -/

/-- The approved row that a request stores: its transfer succeeds with a hash and a block
hash, and the row is saved. -/
def approvedBy (a : Wallets.Answers) (dto : WithdrawalDto) (w : Wallets.World) :
    Option NewWithdrawal :=
  (transferOf .texts a dto w).bind fun x => (a.transfer x.2).toOption.bind fun result =>
    if result.hash ≠ .undefined ∧ result.success = true ∧ result.blockHash ≠ .undefined ∧
        a.fails (.saveWithdrawal (withdrawalOf dto x.1 result)) = false then
      some (withdrawalOf dto x.1 result)
    else none

section Request

open WalletController

variable {a : Wallets.Answers} {w : Wallets.World}

/-- The tables after a request that may have stored a row. -/
def StoresOnly (a : Wallets.Answers) (dto : WithdrawalDto) (w w' : Wallets.World) : Prop :=
  w'.db = w.db ∨ ∃ obj, w'.db = w.db.saveWithdrawal obj ∧
    (obj.status = .Approved → approvedBy a dto w = some obj)

/-- A request stores at most one row, and an approved one only after its transfer. -/
theorem withdrawal_stores (dto : WithdrawalDto) :
    wp (Wallets.World.perform a) (withdrawal .texts dto) (fun _ w' => StoresOnly a dto w w') w := by
  apply wp_mono (withdrawal_ended dto)
  rintro r w' (⟨-, -, hdb | ⟨obj, hpending, hdb⟩⟩ | ⟨from_address, t, result, h, hr, hdb⟩)
  · exact .inl hdb
  · exact .inr ⟨obj, hdb, fun happroved => by rw [hpending] at happroved; cases happroved⟩
  · rcases hdb with hdb | ⟨hpaid, hf, hdb⟩
    · exact .inl hdb
    · refine .inr ⟨_, hdb, fun happroved => ?_⟩
      have hblock : result.blockHash ≠ .undefined := by
        rintro hno
        simp [withdrawalOf, hno] at happroved
      rw [approvedBy, h, Option.bind_some, hr]
      exact if_pos ⟨hpaid.1, hpaid.2, hblock, hf⟩

end Request

/-! ## Runs -/

/-- A whole call: a request, a message of the webhook, or the rows of a job. -/
inductive Call where
  | withdrawal (a : Wallets.Answers) (dto : WithdrawalDto)
  | hook (a : Answers) (obj : HookObj)
  | processWithdrawal (rows : List (Answers × PendingWithdrawal))

def World.rows (w : World) : List (Answers × PendingWithdrawal) → World
  | [] => w
  | (a, v) :: rest => World.rows ((processWithdrawalRow v).run (World.perform a) w).2 rest

def World.call (w : World) : Call → World
  | .withdrawal a dto =>
      { w with
        wallets :=
          ((WalletController.withdrawal .texts dto).run (Wallets.World.perform a) w.wallets).2 }
  | .hook a obj => ((Settlement.hook obj).run (World.perform a) w).2
  | .processWithdrawal rows => w.rows rows

def World.calls (w : World) (calls : List Call) : World := calls.foldl World.call w

/-- The webhook approves nothing: it does not count as confirmed, its statement
fails, or no row has its hash. -/
def HookQuiet (a : Answers) (obj : HookObj) (w : World) : Prop :=
  obj.confirmed = true → a.fails (.updateWithdrawals obj.hash .Approved) = false →
    ∀ r ∈ w.wallets.db.tbl_withdrawal.rows, selectsHash obj.hash r = false

/-- A row of a job approves nothing: it has no receipt of success, its statement
fails, or the withdrawal is not there. -/
def RowQuiet (a : Answers) (v : PendingWithdrawal) (w : World) : Prop :=
  ∀ status count, a.receipt = .ok (.receipt status count) → status ≠ 0 →
    a.fails (.updateWtihdrawalById v.id (.status .Approved count)) = false →
    ∀ r ∈ w.wallets.db.tbl_withdrawal.rows, r.id ≠ v.id

def RowsQuiet (w : World) : List (Answers × PendingWithdrawal) → Prop
  | [] => True
  | (a, v) :: rest =>
      RowQuiet a v w ∧ RowsQuiet ((processWithdrawalRow v).run (World.perform a) w).2 rest

/-- The call approves no withdrawal. -/
def Quiet (w : World) : Call → Prop
  | .withdrawal a dto => approvedBy a dto w.wallets = none
  | .hook a obj => HookQuiet a obj w
  | .processWithdrawal rows => RowsQuiet w rows

def AllQuiet (w : World) : List Call → Prop
  | [] => True
  | c :: calls => Quiet w c ∧ AllQuiet (w.call c) calls

/-- No withdrawal is approved and the wallets are those of `start`. -/
structure Undebited (start w : World) : Prop where
  tbl_wallet : w.wallets.db.tbl_wallet = start.wallets.db.tbl_wallet
  status : ∀ r ∈ w.wallets.db.tbl_withdrawal.rows, r.status ≠ .Approved

section Runs

variable {start w w' : World}

theorem Undebited.becomes {t : Table Withdrawal Withdrawal.id} (h : Undebited start w)
    (hw' : Becomes t w w') (ht : ∀ r ∈ t.rows, r.status ≠ .Approved) : Undebited start w' :=
  ⟨hw'.tbl_wallet.trans h.tbl_wallet, hw'.tbl_withdrawal ▸ ht⟩

theorem status_setStatus {t : Table Withdrawal Withdrawal.id} {selects : Withdrawal → Bool}
    {status : Status} (ht : ∀ r ∈ t.rows, r.status ≠ .Approved)
    (hs : status = .Approved → ∀ r ∈ t.rows, selects r = false) :
    ∀ r ∈ (setStatus t selects status).rows, r.status ≠ .Approved := by
  intro r' hr'
  obtain ⟨r, hr, rfl⟩ := List.mem_map.mp hr'
  split
  · rename_i hsel
    intro happroved
    have hno := hs happroved r hr
    rw [hno] at hsel
    cases hsel
  · exact ht r hr

theorem status_updated {a : Answers} {id : Nat} {data : WithdrawalData}
    (hw : ∀ r ∈ w.wallets.db.tbl_withdrawal.rows, r.status ≠ .Approved)
    (hdata : ∀ r ∈ w.wallets.db.tbl_withdrawal.rows,
      a.fails (.updateWtihdrawalById id data) = false → r.id = id →
      (data.write r).status ≠ .Approved) :
    ∀ r ∈ (w.updated a id data).rows, r.status ≠ .Approved := by
  unfold World.updated
  split
  · exact hw
  · next hok =>
    intro r' hr'
    obtain ⟨r, hr, rfl⟩ := Table.mem_modify.mp hr'
    split
    · next hid => exact hdata r hr (by simpa using hok) hid
    · exact hw r hr

theorem Undebited.hook {a : Answers} {obj : HookObj} (h : Undebited start w)
    (hquiet : HookQuiet a obj w) : Undebited start (w.call (.hook a obj)) := by
  apply h.becomes (hook_spec obj)
  unfold World.hooked
  split
  · rename_i hset
    exact status_setStatus h.status fun _ => hquiet hset.1 hset.2
  · exact h.status

theorem Undebited.row {a : Answers} {v : PendingWithdrawal} (h : Undebited start w)
    (hquiet : RowQuiet a v w) :
    Undebited start ((processWithdrawalRow v).run (World.perform a) w).2 := by
  apply h.becomes (processWithdrawalRow_spec v)
  unfold World.received
  split
  · -- a count leaves the status
    apply status_updated h.status
    intro r hr _ hid
    exact h.status r hr
  · rename_i status count hreceipt
    apply status_updated h.status
    intro r hr hok hid happroved
    by_cases hstatus : status ≠ 0
    · rw [if_pos hstatus] at hok
      exact hquiet status count hreceipt hstatus hok r hr hid
    · simp [WithdrawalData.write, hstatus] at happroved
  · exact h.status

theorem Undebited.rows {rows : List (Answers × PendingWithdrawal)} (h : Undebited start w)
    (hquiet : RowsQuiet w rows) : Undebited start (w.rows rows) := by
  induction rows generalizing w with
  | nil => exact h
  | cons row rest ih => exact ih (h.row hquiet.1) hquiet.2

theorem Undebited.withdrawal {a : Wallets.Answers} {dto : WithdrawalDto} (h : Undebited start w)
    (hquiet : approvedBy a dto w.wallets = none) :
    Undebited start (w.call (.withdrawal a dto)) := by
  have hstores : StoresOnly a dto w.wallets (w.call (.withdrawal a dto)).wallets :=
    withdrawal_stores dto
  rcases hstores with hdb | ⟨obj, hdb, happroved⟩
  · exact ⟨hdb ▸ h.tbl_wallet, hdb ▸ h.status⟩
  · refine ⟨hdb ▸ h.tbl_wallet, ?_⟩
    rw [hdb]
    intro r hr
    rcases List.mem_append.mp hr with hr | hr
    · exact h.status r hr
    · rw [List.mem_singleton.mp hr]
      intro hstatus
      rw [happroved hstatus] at hquiet
      cases hquiet

/-- One call that approves nothing. -/
theorem Undebited.call {c : Call} (h : Undebited start w) (hquiet : Quiet w c) :
    Undebited start (w.call c) := by
  cases c with
  | withdrawal a dto => exact h.withdrawal hquiet
  | hook a obj => exact h.hook hquiet
  | processWithdrawal rows => exact h.rows hquiet

theorem Undebited.calls {calls : List Call} (h : Undebited start w) (hquiet : AllQuiet w calls) :
    Undebited start (w.calls calls) := by
  induction calls generalizing w with
  | nil => exact h
  | cons c calls ih => exact ih (h.call hquiet.1) hquiet.2

/-! ## Debits -/

/-- The balance of a user's wallet of a network in the column of a coin. -/
def World.balance (w : World) (user_id : Nat) (network : String) (coin : Coin) : Option ℚ :=
  (w.wallets.db.searchAddress user_id network).bind (Wallet.balance · coin)

/-- What is approved of a user's withdrawals of a coin and a network. -/
def World.approved (w : World) (user_id : Nat) (network : String) (coin : Coin) : ℚ :=
  ((w.wallets.db.tbl_withdrawal.rows.filter fun r => r.user_id = user_id ∧
    r.network = network ∧ r.coin = coin ∧ r.status = .Approved).map fun r => r.with_amount).sum

/-- Every balance is that of the start minus what is approved. -/
def Debited (start w : World) : Prop :=
  ∀ user_id network coin, w.balance user_id network coin =
    (start.balance user_id network coin).map (· - w.approved user_id network coin)

theorem Undebited.debited (h : Undebited start w) : Debited start w := by
  intro user_id network coin
  have hsame : w.balance user_id network coin = start.balance user_id network coin := by
    unfold World.balance Tables.searchAddress
    rw [h.tbl_wallet]
  have hnone : w.approved user_id network coin = 0 := by
    have hnil : w.wallets.db.tbl_withdrawal.rows.filter (fun r => r.user_id = user_id ∧
        r.network = network ∧ r.coin = coin ∧ r.status = .Approved) = [] := by
      apply List.filter_eq_nil_iff.mpr
      intro r hr
      simp [h.status r hr]
    rw [World.approved, hnil]
    rfl
  rw [hsame, hnone]
  simp

end Runs

/-- **Each approved withdrawal is debited once**, in every state of a run, as
long as none of its calls approves one. -/
theorem debited_of_quiet (start : World) (calls : List Call)
    (hstart : ∀ r ∈ start.wallets.db.tbl_withdrawal.rows, r.status ≠ .Approved)
    (hquiet : AllQuiet start calls) : Debited start (start.calls calls) := by
  have h : Undebited start start := ⟨rfl, hstart⟩
  exact (h.calls hquiet).debited

/-! ## A withdrawal with a block hash -/

/-- Nothing fails; the chains have no receipt and no transaction. -/
def Answers.silent : Answers where
  now := 0
  receipt := .ok .nothing
  found := .ok .nothing
  fails := fun _ => false

/-- User 1 holds 95 USDT on BEP20. -/
def World.funded : World where
  wallets := Wallets.World.funded
  tbl_deposit := .empty _

/-- Every transfer succeeds with a hash and is in no block yet. -/
def pendingTransfer : Wallets.Answers where
  transfer := fun _ => .ok ⟨true, "Transfer Successful", .text "0x1", .undefined⟩
  fails := fun _ => false

/-- The webhook confirms a hash. -/
def HookObj.of (hash : String) : HookObj where
  block_hash := .text "0x2"
  block_height := some 5
  confirmations := some 1
  hash := .text hash

theorem debited_while_pending :
    Debited .funded (World.funded.calls
      [.withdrawal pendingTransfer (.usdt 3), .hook .silent (.of "0x9"),
        .processWithdrawal [(.silent, ⟨1, 1, some "0x1", some "0xb", "0xc", .USDT⟩)]]) := by
  apply debited_of_quiet
  · simp [World.funded, Wallets.World.funded, Table.empty]
  · refine ⟨?_, ?_, ?_, trivial⟩
    · show approvedBy pendingTransfer (.usdt 3) Wallets.World.funded = none
      decide +kernel
    · unfold Quiet HookQuiet
      decide +kernel
    · refine ⟨fun status count hreceipt => ?_, trivial⟩
      cases hreceipt

/-- 9 of 95 USDT are withdrawn, approved at once, and still there. -/
theorem approved_not_debited :
    (∀ r ∈ World.funded.wallets.db.tbl_withdrawal.rows, r.status ≠ .Approved) ∧
      World.funded.balance 1 "BEP20" .USDT = some 95 ∧
      let after := World.funded.calls [.withdrawal .fine (.usdt 9)]
      after.approved 1 "BEP20" .USDT = 9 ∧ after.balance 1 "BEP20" .USDT = some 95 ∧
        ¬Debited .funded after := by
  refine ⟨by decide +kernel, by decide +kernel, ?_⟩
  have happroved : (World.funded.calls [.withdrawal .fine (.usdt 9)]).approved 1 "BEP20" .USDT =
      9 := by decide +kernel
  have hbalance : (World.funded.calls [.withdrawal .fine (.usdt 9)]).balance 1 "BEP20" .USDT =
      some 95 := by decide +kernel
  have hstart : World.funded.balance 1 "BEP20" .USDT = some 95 := by decide +kernel
  refine ⟨happroved, hbalance, fun h => ?_⟩
  have hdebit := h 1 "BEP20" .USDT
  rw [happroved, hbalance, hstart] at hdebit
  norm_num at hdebit

end Exchange.Settlement
