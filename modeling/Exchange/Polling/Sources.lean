import Exchange.Polling.Turns
import Exchange.Wallets.Settlement

/-!
# The two tables that are polled

`tbl_withdrawal` and `tbl_deposit` as sources: which of their rows
`getPendingWithdrawal` and `getPendingDeposits` select, what `saveWithdrawal`
and `saveDeposit` insert, and what may become of a row meanwhile. A changed row
never becomes pending, which the changes carry as a proof.
-/

namespace Exchange.Polling

open Async Store Wallets Settlement

/-- `created_at > NOW() - interval 6 hour`, in milliseconds. -/
def recent (now created_at : Nat) : Bool := now < created_at + 6 * 60 * 60 * 1000

/-- Where every row selected now was there and selected before, nothing new is read. -/
theorem mem_selected {Row V : Type} {rows rows' : List Row} {p p' : Row → Bool} {f : Row → V}
    (h : ∀ r ∈ rows', p' r = true → r ∈ rows ∧ p r = true) :
    ∀ v ∈ (rows'.filter p').map f, v ∈ (rows.filter p).map f := by
  intro v hv
  obtain ⟨r, hr, rfl⟩ := List.mem_map.mp hv
  obtain ⟨hr, hp⟩ := List.mem_filter.mp hr
  exact List.mem_map.mpr ⟨r, List.mem_filter.mpr (h r hr hp), rfl⟩

/-! ## Withdrawals -/

/-- A row of `tbl_withdrawal` with the columns that only the polling reads. -/
structure WithdrawalRow extends Withdrawal where
  deleted : YesNo
  created_at : Nat
  deriving DecidableEq

structure WithdrawalStore where
  rows : List WithdrawalRow
  next : Nat
  now : Nat

/-- The condition of `getPendingWithdrawal`. -/
def WithdrawalStore.selects (s : WithdrawalStore) (r : WithdrawalRow) : Bool :=
  r.network ≠ "Bitcoin" ∧ r.status = .Pending ∧ r.deleted = .NO ∧ r.pay_by_admin = .NO ∧
    recent s.now r.created_at = true

def selectWithdrawal (r : WithdrawalRow) : PendingWithdrawal :=
  ⟨r.id, r.user_id, r.transaction_hash, r.from_address, r.to_address, r.coin⟩

def getPendingWithdrawal (s : WithdrawalStore) : List PendingWithdrawal :=
  (s.rows.filter s.selects).map selectWithdrawal

def insertWithdrawal (obj : NewWithdrawal) (s : WithdrawalStore) : WithdrawalStore :=
  { s with
    rows := s.rows ++ [{ toWithdrawal := obj.toRow s.next, deleted := .NO, created_at := s.now }]
    next := s.next + 1 }

theorem pending_insertWithdrawal (obj : NewWithdrawal) (s : WithdrawalStore)
    (h : obj.network = "Bitcoin") :
    ∀ r ∈ getPendingWithdrawal (insertWithdrawal obj s), r ∈ getPendingWithdrawal s := by
  refine mem_selected fun r hr hsel => ?_
  rcases List.mem_append.mp hr with hr | hr
  · exact ⟨hr, hsel⟩
  · rw [List.mem_singleton.mp hr] at hsel
    simp [WithdrawalStore.selects, NewWithdrawal.toRow, h] at hsel

/-- What time and the other writers do to withdrawals. -/
inductive WithdrawalChange where
  | elapse (time : Nat)
  | settle (selects : Withdrawal → Bool) (status : Status) (h : status ≠ .Pending)
  | delete (id : Nat)

def WithdrawalChange.apply : WithdrawalChange → WithdrawalStore → WithdrawalStore
  | .elapse time, s => { s with now := s.now + time }
  | .settle selects status _, s =>
      { s with rows := s.rows.map fun r =>
          if selects r.toWithdrawal then { r with status := status } else r }
  | .delete id, s =>
      { s with rows := s.rows.map fun r => if r.id = id then { r with deleted := .YES } else r }

theorem recent_of_later {now time created_at : Nat} (h : recent (now + time) created_at = true) :
    recent now created_at = true := by
  simp only [recent, decide_eq_true_eq] at h ⊢
  omega

theorem pending_withdrawalChange (c : WithdrawalChange) (s : WithdrawalStore) :
    ∀ r ∈ getPendingWithdrawal (c.apply s), r ∈ getPendingWithdrawal s := by
  refine mem_selected fun r hr hsel => ?_
  cases c with
  | elapse time =>
    refine ⟨hr, ?_⟩
    simp only [WithdrawalStore.selects, decide_eq_true_eq] at hsel ⊢
    obtain ⟨hnet, hstatus, hdeleted, hadmin, hrecent⟩ := hsel
    exact ⟨hnet, hstatus, hdeleted, hadmin, recent_of_later hrecent⟩
  | settle selects status h =>
    obtain ⟨r₀, hr₀, rfl⟩ := List.mem_map.mp hr
    by_cases hs : selects r₀.toWithdrawal = true
    · rw [if_pos hs] at hsel
      simp [WithdrawalStore.selects, h] at hsel
    · rw [if_neg hs] at hsel ⊢
      exact ⟨hr₀, hsel⟩
  | delete id =>
    obtain ⟨r₀, hr₀, rfl⟩ := List.mem_map.mp hr
    by_cases hs : r₀.id = id
    · rw [if_pos hs] at hsel
      simp [WithdrawalStore.selects] at hsel
    · rw [if_neg hs] at hsel ⊢
      exact ⟨hr₀, hsel⟩

/-- `tbl_withdrawal` under `withdrawal_cron`. -/
def withdrawals : Source where
  Store := WithdrawalStore
  New := NewWithdrawal
  Row := PendingWithdrawal
  pending := getPendingWithdrawal
  insert := insertWithdrawal
  onChain := fun obj => obj.network ≠ "Bitcoin"
  pending_insert := fun obj s h => pending_insertWithdrawal obj s (by simpa using h)
  Change := WithdrawalChange
  change := WithdrawalChange.apply
  pending_change := pending_withdrawalChange
  Other := Empty
  Res := fun _ => Unit
  Reply := Unit
  perform := fun _ x _ => nomatch x

/-! ## Deposits -/

/-- The object that `saveDeposit` passes to the repository. -/
structure NewDeposit where
  user_id : Nat
  to_address : String
  coin : Coin
  network : String
  start_block : Option Nat
  deriving DecidableEq

/-- The row written. The sender is not given and has no default: a server that
is not strict stores an empty text. A strict one refuses the row, which is a
`save` that fails. -/
def NewDeposit.toRow (obj : NewDeposit) (id now : Nat) : Deposit where
  id := id
  user_id := obj.user_id
  from_address := ""
  to_address := obj.to_address
  amount := 0
  coin := obj.coin
  network := obj.network
  deleted := .NO
  status := .Pending
  reason := none
  transaction_hash := none
  start_block := obj.start_block
  confirmations := 0
  created_at := now

/-- What is remembered of a run for its statements alone: the transactions found
for a row, the rows that have left `Pending`, and the transactions that rows
were settled with. -/
structure Journal where
  found : List (Nat × String)
  left : List Nat
  settled : List (Nat × String)
  deriving DecidableEq

structure DepositStore where
  settlement : Settlement.World
  now : Nat
  journal : Journal

def DepositStore.selects (s : DepositStore) (r : Deposit) : Bool :=
  r.network ≠ "Bitcoin" ∧ r.status = .Pending ∧ r.deleted = .NO ∧ recent s.now r.created_at = true

/-- Neither the amount nor the network is selected. -/
def selectDeposit (r : Deposit) : PendingDeposit :=
  ⟨r.id, r.user_id, r.to_address, r.start_block, r.created_at, r.coin⟩

def getPendingDeposits (s : DepositStore) : List PendingDeposit :=
  (s.settlement.tbl_deposit.rows.filter s.selects).map selectDeposit

def insertDeposit (obj : NewDeposit) (s : DepositStore) : DepositStore :=
  { s with settlement := { s.settlement with
      tbl_deposit := s.settlement.tbl_deposit.insert
        (obj.toRow s.settlement.tbl_deposit.next s.now) rfl } }

theorem pending_insertDeposit (obj : NewDeposit) (s : DepositStore) (h : obj.network = "Bitcoin") :
    ∀ r ∈ getPendingDeposits (insertDeposit obj s), r ∈ getPendingDeposits s := by
  refine mem_selected fun r hr hsel => ?_
  rcases List.mem_append.mp hr with hr | hr
  · exact ⟨hr, hsel⟩
  · rw [List.mem_singleton.mp hr] at hsel
    simp [DepositStore.selects, NewDeposit.toRow, h] at hsel

/-- What time and the other writers do to deposits. -/
inductive DepositChange where
  | elapse (time : Nat)
  | settle (id : Nat) (status : Status) (reason : String) (confirmations : Nat)
      (from_address transaction_hash : String) (h : status ≠ .Pending)
  | delete (id : Nat)

def DepositStore.modify (s : DepositStore) (id : Nat) (data : DepositData) : DepositStore :=
  { s with settlement := { s.settlement with
      tbl_deposit := s.settlement.tbl_deposit.modify id data.write data.id_write } }

theorem DepositStore.mem_modify {s : DepositStore} {id : Nat} {data : DepositData} {r : Deposit} :
    r ∈ (s.modify id data).settlement.tbl_deposit.rows ↔
      ∃ r₀ ∈ s.settlement.tbl_deposit.rows, r = if r₀.id = id then data.write r₀ else r₀ :=
  @Table.mem_modify _ _ s.settlement.tbl_deposit id data.write data.id_write r

def DepositChange.apply : DepositChange → DepositStore → DepositStore
  | .elapse time, s => { s with now := s.now + time }
  | .settle id status reason confirmations from_address transaction_hash _, s =>
      s.modify id (.status status reason confirmations from_address transaction_hash)
  | .delete id, s => s.modify id .deleted

/-- Data that leave a row not pending make no row pending. -/
theorem pending_modify {s : DepositStore} {id : Nat} {data : DepositData}
    (hdata : ∀ r, s.selects (data.write r) = false) :
    ∀ r ∈ getPendingDeposits (s.modify id data), r ∈ getPendingDeposits s := by
  refine mem_selected fun r hr hsel => ?_
  obtain ⟨r₀, hr₀, rfl⟩ := DepositStore.mem_modify.mp hr
  have hsel : s.selects (if r₀.id = id then data.write r₀ else r₀) = true := hsel
  by_cases hs : r₀.id = id
  · rw [if_pos hs, hdata] at hsel
    cases hsel
  · rw [if_neg hs] at hsel ⊢
    exact ⟨hr₀, hsel⟩

theorem pending_depositChange (c : DepositChange) (s : DepositStore) :
    ∀ r ∈ getPendingDeposits (c.apply s), r ∈ getPendingDeposits s := by
  cases c with
  | elapse time =>
    refine mem_selected fun r hr hsel => ⟨hr, ?_⟩
    simp only [DepositStore.selects, decide_eq_true_eq] at hsel ⊢
    obtain ⟨hnet, hstatus, hdeleted, hrecent⟩ := hsel
    exact ⟨hnet, hstatus, hdeleted, recent_of_later hrecent⟩
  | settle id status reason confirmations from_address transaction_hash h =>
    apply pending_modify
    intro r
    simp [DepositStore.selects, DepositData.write, h]
  | delete id =>
    apply pending_modify
    intro r
    simp [DepositStore.selects, DepositData.write]

/-- What `saveError` is given: an error that was raised, or a text. -/
inductive SavedError where
  | raised (error : Err)
  | text (error : String)
  deriving DecidableEq

/-- The other calls of the programs over deposits: those of the jobs, and those
of a request before it saves, which asks one of two chains (`bsc`). -/
inductive DepositOp where
  | settle (o : Settlement.Op)
  | checkForPendingDeposit (user_id : Nat) (coin : Coin) (network to_address : String)
  | getblocknobytime (bsc : Bool)
  | getBlockNumber (bsc : Bool)
  | saveError (error : SavedError) (source : String)

abbrev DepositOp.Res : DepositOp → Type
  | settle o => o.Res
  | checkForPendingDeposit .. => Bool
  | getblocknobytime _ | getBlockNumber _ => Nat
  | _ => Unit

/-- What is outside, for one call; `block` is that of the API or node that is asked. -/
structure DepositReply where
  answers : Settlement.Answers
  rejects : Bool
  block : Option Nat

def DepositStore.isPending (s : DepositStore) (id : Nat) : Bool :=
  s.settlement.tbl_deposit.rows.any fun r => r.id = id ∧ r.status = .Pending

def DepositStore.has (s : DepositStore) (id : Nat) : Bool :=
  s.settlement.tbl_deposit.rows.any fun r => r.id = id

/-- What the journal takes from a call that was answered. -/
def DepositStore.note (s : DepositStore) (j : Journal) :
    (o : Settlement.Op) → Except Err o.Res → Journal
  | .findTransactionForDeposit v, .ok (.transaction t) =>
      { j with found := j.found ++ [(v.id, t.hash)] }
  | .updateDepositById id (.status status _ _ _ hash), .ok () =>
      { j with
        left := if s.isPending id = true ∧ status ≠ .Pending then j.left ++ [id] else j.left
        settled := if s.has id then j.settled ++ [(id, hash)] else j.settled }
  | _, _ => j

def DepositStore.perform (e : DepositReply) :
    (x : DepositOp) → DepositStore → Except Err x.Res × DepositStore
  | .settle o, s =>
      let r := Settlement.World.perform e.answers o s.settlement
      (r.1, { s with settlement := r.2, journal := s.note s.journal o r.1 })
  | .checkForPendingDeposit user_id coin network to_address, s =>
      if e.rejects then (.error .rejected, s)
      else (.ok (s.settlement.tbl_deposit.rows.any fun r => r.user_id = user_id ∧ r.coin = coin ∧
        r.network = network ∧ r.deleted = .NO ∧ r.to_address = to_address), s)
  | .getblocknobytime _, s | .getBlockNumber _, s =>
      (match e.block with
        | none => .error .rejected
        | some block => .ok block, s)
  -- the entity of the errors is not among those of the connection
  | .saveError .., s => (.error .rejected, s)

/-- `tbl_deposit` under `deposit_cron`. -/
def deposits : Source where
  Store := DepositStore
  New := NewDeposit
  Row := PendingDeposit
  pending := getPendingDeposits
  insert := insertDeposit
  onChain := fun obj => obj.network ≠ "Bitcoin"
  pending_insert := fun obj s h => pending_insertDeposit obj s (by simpa using h)
  Change := DepositChange
  change := DepositChange.apply
  pending_change := pending_depositChange
  Other := DepositOp
  Res := DepositOp.Res
  Reply := DepositReply
  perform := DepositStore.perform

/-- One of the two queues of the service. -/
inductive Kind where
  | withdrawal
  | deposit
  deriving DecidableEq

def Kind.source : Kind → Source
  | .withdrawal => withdrawals
  | .deposit => deposits

end Exchange.Polling
