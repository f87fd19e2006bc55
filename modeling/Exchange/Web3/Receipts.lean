import Exchange.Web3.Confirmation

/-!
# Progress of a withdrawal

`receipt` should tell the job three things apart: a transaction with enough
confirmations, one that still waits for some, and none. It reads a property of the
receipt before it tests whether there is one, and the number of confirmations is
answered in the branch in which that test fails.

`reportsProgress_iff`: so it reports what it should iff the transaction is mined and
has all the confirmations that its network asks for.
-/

namespace Exchange.Web3

open Async Proc Store Wallets Settlement Polling Web3Service

/-- The confirmations of a transaction that the chain knows: none before it is mined. -/
def Chain.progress (c : Chain) (hash : String) : Option ℤ :=
  (c.getTransaction hash).map fun blockNumber =>
    blockNumber.elim 0 fun blockNumber => c.currentBlock - blockNumber

/-- The chain has a receipt for the hash, with the confirmations that the network asks for. -/
def Chains.Confirmed (c : Chains) (network hash : String) : Prop :=
  ∃ t, (c.on (isBep20 (some network))).getTransactionReceipt hash = some t ∧
    targetCount (some network) ≤ (c.on (isBep20 (some network))).confirmations t

/-- What `receipt` answers. -/
def Chains.answered (c : Chains) (network hash from_address : String) (w : World) :
    Except Err Receipt :=
  ((receipt (some hash) (some from_address) (some network)).run (perform c) w).1

/-- The withdrawals after the program of a row of the job. -/
def World.after (bigints : Bool) (c : Chains) (r : WithdrawalRow) (w : World) :
    List WithdrawalRow :=
  ((processWithdrawalRow (selectWithdrawal r)).run (answer bigints c) w).2.tbl_withdrawal.rows

/-- `receipt` raises nothing, answers the receipt iff the sender is the one expected and
there are enough confirmations, and before that the number of confirmations, which the job
stores in the row and leaves it pending. -/
structure ReportsProgress (bigints : Bool) (c : Chains) (network hash from_address : String) :
    Prop where
  returns : ∀ w, ∃ r, c.answered network hash from_address w = .ok r
  receipt : ∀ w, (∃ status count,
      c.answered network hash from_address w = .ok (.receipt status count)) ↔
    ∃ t, (c.on (isBep20 (some network))).getTransactionReceipt hash = some t ∧
      lowercase t.sender = lowercase from_address ∧
      targetCount (some network) ≤ (c.on (isBep20 (some network))).confirmations t
  number : ∀ n, (c.on (isBep20 (some network))).progress hash = some n →
    n < targetCount (some network) → ∀ w,
      (∃ count : Nat, count = n ∧ c.answered network hash from_address w = .ok (.number count)) ∧
      ∀ r ∈ w.tbl_withdrawal.rows, r.network = network → r.transaction_hash = some hash →
        r.from_address = some from_address → r.status = .Pending →
        ∀ r' ∈ w.after bigints c r, r'.id = r.id → r'.confirmations = n ∧ r'.status = .Pending

section Receipt

variable {bigints : Bool} {c : Chains} {w : World} {network hash from_address : String} {t : Mined}

/-- Without a receipt its hash cannot be read. -/
theorem answered_missing
    (h : (c.on (isBep20 (some network))).getTransactionReceipt hash = none) :
    c.answered network hash from_address w = .error .typeError := by
  simp only [Chains.answered, Web3Service.receipt, run_bind, Web3.call, Proc.call, Proc.run,
    perform, h]

/-- With a receipt no number is answered. -/
theorem answered_mined
    (h : (c.on (isBep20 (some network))).getTransactionReceipt hash = some t) :
    c.answered network hash from_address w =
      .ok (if lowercase t.sender = lowercase from_address ∧
          targetCount (some network) ≤ (c.on (isBep20 (some network))).confirmations t then
        .receipt t.status ((c.on (isBep20 (some network))).confirmations t).toNat
      else .nothing) := by
  have hhash := Chain.hash_of_receipt h
  have hcount : (getConfirmations t.transactionHash (some network)).run (perform c) w =
      (.ok (some ((c.on (isBep20 (some network))).confirmations t)), w) :=
    getConfirmations_spec (hhash ▸ h)
  simp only [Chains.answered, Web3Service.receipt, run_bind, Web3.call, Proc.call, Proc.run,
    perform, h, hcount]
  simp only [hhash, if_true, Option.any_some, decide_eq_true_eq, Option.getD_some]
  split
  · rfl
  · rfl

theorem progress_mined (h : (c.on (isBep20 (some network))).getTransactionReceipt hash = some t) :
    (c.on (isBep20 (some network))).progress hash =
      some ((c.on (isBep20 (some network))).confirmations t) := by
  simp [Chain.progress, Chain.getTransaction, h, Chain.confirmations]

/-- **Progress is reported** iff the transaction needs no more of it. -/
theorem reportsProgress_iff :
    ReportsProgress bigints c network hash from_address ↔ c.Confirmed network hash := by
  constructor
  · intro hreports
    cases h : (c.on (isBep20 (some network))).getTransactionReceipt hash with
    | none =>
      obtain ⟨r, hr⟩ := hreports.returns ⟨.empty _, 0⟩
      rw [answered_missing h] at hr
      cases hr
    | some t =>
      refine ⟨t, h, not_lt.mp fun hfew => ?_⟩
      obtain ⟨⟨count, -, hnumber⟩, -⟩ :=
        hreports.number _ (progress_mined h) hfew ⟨.empty _, 0⟩
      rw [answered_mined h, if_neg fun henough => hfew.not_ge henough.2] at hnumber
      cases hnumber
  · rintro ⟨t, h, henough⟩
    constructor
    · exact fun w => ⟨_, answered_mined h⟩
    · intro w
      rw [answered_mined h]
      constructor
      · rintro ⟨status, count, hr⟩
        split at hr
        · next hmatch => exact ⟨t, h, hmatch⟩
        · cases hr
      · rintro ⟨t', h', hmatch⟩
        obtain rfl := Option.some.inj (h.symm.trans h')
        rw [if_pos hmatch]
        exact ⟨_, _, rfl⟩
    · intro n hn hfew
      rw [progress_mined h] at hn
      obtain rfl := Option.some.inj hn
      exact absurd henough hfew.not_ge

end Receipt

/-- A transaction of 0xa on BSC, mined in a block after which others came. -/
def minedBefore (blocks : Nat) : Chains :=
  ⟨⟨[⟨"0x1", "0xA", 1, 100⟩], [], 100 + blocks⟩, ⟨[], [], 0⟩⟩

/-- After three of the four blocks nothing is reported, and before it is mined the call raises. -/
theorem progress_not_reported :
    ¬ ReportsProgress true (minedBefore 3) "BEP20" "0x1" "0xa" ∧
      ¬ ReportsProgress true ⟨⟨[], ["0x1"], 100⟩, ⟨[], [], 0⟩⟩ "BEP20" "0x1" "0xa" := by
  constructor
  · intro h
    obtain ⟨⟨count, -, hnumber⟩, -⟩ := h.number 3 (by decide) (by decide) ⟨.empty _, 0⟩
    have hnothing : (minedBefore 3).answered "BEP20" "0x1" "0xa" ⟨.empty _, 0⟩ =
        .ok .nothing := by decide
    rw [hnothing] at hnumber
    cases hnumber
  · intro h
    obtain ⟨r, hr⟩ := h.returns ⟨.empty _, 0⟩
    rw [answered_missing rfl] at hr
    cases hr

end Exchange.Web3
