import Exchange.Polling.Sources

/-!
# Receipts and confirmations

`Web3Service.receipt` and `getConfirmations`, as programs over the two chains
that the service is connected to. A chain knows the transactions that are mined
and those that are not yet.

`receipt_spec`: a receipt is answered iff the transaction is mined on the chain
of the network that was passed, from the address that was passed, with the
confirmations that this network asks for.
-/

namespace Exchange.Web3

open Async Store Wallets Settlement Polling

abbrev Err := Wallets.Err

/-- A mined transaction, as its receipt describes it. -/
structure Mined where
  transactionHash : String
  sender : String
  status : Nat
  blockNumber : Nat
  deriving DecidableEq

structure Chain where
  mined : List Mined
  pending : List String
  currentBlock : Nat

/-- The providers of the service: BSC and Ethereum. -/
structure Chains where
  bsc : Chain
  eth : Chain

def Chains.on (c : Chains) (bsc : Bool) : Chain := if bsc then c.bsc else c.eth

namespace Chain

def getTransactionReceipt (c : Chain) (hash : String) : Option Mined :=
  c.mined.find? fun t => t.transactionHash = hash

/-- The block number of a transaction, which is `null` as long as it is not mined. -/
def getTransaction (c : Chain) (hash : String) : Option (Option Nat) :=
  match c.getTransactionReceipt hash with
  | some t => some (some t.blockNumber)
  | none => if hash ∈ c.pending then some none else none

def confirmations (c : Chain) (t : Mined) : ℤ := c.currentBlock - t.blockNumber

end Chain

inductive Op where
  | getTransactionReceipt (bsc : Bool) (hash : Option String)
  | getTransaction (bsc : Bool) (hash : String)
  | getBlockNumber (bsc : Bool)
  | saveError (error : Err) (source : String)

abbrev Op.Res : Op → Type
  | getTransactionReceipt .. => Option Mined
  | getTransaction .. => Option (Option Nat)
  | getBlockNumber _ => Nat
  | saveError .. => Unit

abbrev Prog := Proc Op Op.Res Err

def call (o : Op) : Prog o.Res := Proc.call o

/-- The withdrawals and the time. -/
structure World where
  tbl_withdrawal : Table WithdrawalRow fun r => r.id
  now : Nat

/-- The chains answer every call; a hash that is `null` is refused, and no error is saved. -/
def perform (c : Chains) : Handler Op Op.Res Err World
  | .getTransactionReceipt bsc hash, w =>
      match hash with
      | some hash => (.ok ((c.on bsc).getTransactionReceipt hash), w)
      | none => (.error .rejected, w)
  | .getTransaction bsc hash, w => (.ok ((c.on bsc).getTransaction hash), w)
  | .getBlockNumber bsc, w => (.ok (c.on bsc).currentBlock, w)
  | .saveError .., w => (.error .rejected, w)

namespace Web3Service

def ethConfirmationCountTarget : ℤ := 12

def bscConfirmationCountTarget : ℤ := 4

/-- `network == 'BEP20'`: everything else, `undefined` too, is Ethereum. -/
def isBep20 (network : Option String) : Bool := network = some "BEP20"

def targetCount (network : Option String) : ℤ :=
  if isBep20 network then bscConfirmationCountTarget else ethConfirmationCountTarget

def getConfirmations (txHash : String) (network : Option String) : Prog (Option ℤ) :=
  Proc.tryCatch
    (do
      let trx : Option (Option Nat) ← call (.getTransaction (isBep20 network) txHash)
      let currentBlock : Nat ← call (.getBlockNumber (isBep20 network))
      match trx with
      | none => .throw .typeError
      | some none => pure (some 0)
      | some (some blockNumber) => pure (some (currentBlock - blockNumber)))
    fun error => do
      call (.saveError error "Get confirmations function ")
      pure none

/-- The branch for a missing receipt comes after its first property was read. -/
def receipt (hash from_address network : Option String) : Prog Receipt := do
  let g : Option Mined ← call (.getTransactionReceipt (isBep20 network) hash)
  match g with
  | none => .throw .typeError
  | some g =>
    let confirmationCount : Option ℤ ← getConfirmations g.transactionHash network
    if some g.transactionHash = hash then
      match from_address with
      | none => .throw .typeError
      | some from_address =>
        if lowercase g.sender = lowercase from_address ∧
            (confirmationCount.any fun n => targetCount network ≤ n) = true then
          pure (.receipt g.status (confirmationCount.getD 0).toNat)
        else pure .nothing
    else pure .nothing

end Web3Service

open Proc Web3Service

/-- What a network says of a transaction that was sent from an address. -/
def Chains.verdict (c : Chains) (network hash from_address : Option String) : Option Nat :=
  hash.bind fun hash => ((c.on (isBep20 network)).getTransactionReceipt hash).bind fun t =>
    from_address.bind fun from_address =>
      if lowercase t.sender = lowercase from_address ∧
          targetCount network ≤ (c.on (isBep20 network)).confirmations t then some t.status
      else none

section Receipt

variable {c : Chains} {w : World} {network : Option String}

theorem Chain.hash_of_receipt {c : Chain} {hash : String} {t : Mined}
    (h : c.getTransactionReceipt hash = some t) : t.transactionHash = hash := by
  simpa using List.find?_some h

/-- The confirmations of a mined transaction. -/
theorem getConfirmations_spec {t : Mined}
    (h : (c.on (isBep20 network)).getTransactionReceipt t.transactionHash = some t) :
    (getConfirmations t.transactionHash network).run (perform c) w =
      (.ok (some ((c.on (isBep20 network)).confirmations t)), w) := by
  have ht :
      (c.on (isBep20 network)).getTransaction t.transactionHash = some (some t.blockNumber) := by
    simp [Chain.getTransaction, h]
  simp only [getConfirmations, run_tryCatch, run_bind, Web3.call, Proc.call, Proc.run, perform, ht]
  rfl

/-- The answers of `receipt`, none of which is a number. -/
theorem receipt_spec (hash from_address network : Option String) :
    wp (perform c) (receipt hash from_address network) (fun r w' => w' = w ∧
      match c.verdict network hash from_address with
      | some status => ∃ count, r = .ok (.receipt status count)
      | none => r = .ok .nothing ∨ ∃ e, r = .error e) w := by
  unfold receipt
  apply (wp_bind _ _ _).mpr
  apply (wp_call _ _).mpr
  cases hash with
  | none => exact ⟨rfl, .inr ⟨_, rfl⟩⟩
  | some hash =>
    simp only [perform]
    cases hg : (c.on (isBep20 network)).getTransactionReceipt hash with
    | none =>
      refine ⟨rfl, ?_⟩
      simp only [Chains.verdict, Option.bind_some, hg, Option.bind_none]
      exact .inr ⟨_, rfl⟩
    | some t =>
      have hhash := Chain.hash_of_receipt hg
      apply (wp_bind _ _ _).mpr
      unfold wp
      rw [getConfirmations_spec (hhash ▸ hg)]
      simp only [hhash, if_true, Chains.verdict, Option.bind_some, hg]
      cases from_address with
      | none => exact ⟨rfl, .inr ⟨_, rfl⟩⟩
      | some from_address =>
        simp only [Option.any_some, decide_eq_true_eq, Option.bind_some]
        split
        · exact ⟨rfl, _, rfl⟩
        · exact ⟨rfl, .inl rfl⟩

end Receipt

end Exchange.Web3
