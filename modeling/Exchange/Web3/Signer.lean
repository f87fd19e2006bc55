import Exchange.Wallets.Broadcasts
import Exchange.Web3.Service

/-!
# Who has signed a withdrawal

A withdrawal is signed by the key of the user's wallet and recorded under the
address of some row of `address_balance`; it is sent to BSC or to Sepolia by the
transfer function of its coin, and looked for by its network. The chain of BSC
that the transfer functions use is not the one that `Web3Service` is connected to.

`recordsSigner_iff` says when all three agree.
-/

namespace Exchange.Web3

open Async Proc Store Wallets Web3Service

/-- The networks whose addresses are made by `ethers`. -/
def evmNetworks : List String := ["BEP20", "ERC20", "Ethereum"]

/-- The chain on which `Web3Service` looks for the transactions of a network. -/
def watched (network : String) : Wallets.Endpoint :=
  if isBep20 (some network) then .bscTestnet else .sepolia

/-- The chains of the service. -/
def service (nodes : Wallets.Endpoint → Chain) : Chains := ⟨nodes .bscTestnet, nodes .sepolia⟩

theorem service_on (nodes : Wallets.Endpoint → Chain) (network : String) :
    (service nodes).on (isBep20 (some network)) = nodes (watched network) := by
  unfold Chains.on watched service
  split <;> rfl

/-- Once it is mined with enough confirmations, `receipt` accepts the transaction
for the row, whose receipt names the signer. -/
def Accepted (b : Broadcast) (signer : String) (row : Withdrawal) : Prop :=
  ∀ (nodes : Wallets.Endpoint → Chain) (t : Mined) (w : World),
    (nodes b.node).getTransactionReceipt b.hash = some t → t.sender = signer →
    targetCount (some row.network) ≤ (nodes b.node).confirmations t →
    ∃ confirmationCount, ((receipt row.transaction_hash row.from_address (some row.network)).run
      (perform (service nodes)) w).1 = .ok (.receipt t.status confirmationCount)

/-- The rows of what was sent name the signer, and are accepted. -/
def RecordsSigner (p : Providers) (w' : Wallets.World) (sent : List Broadcast) : Prop :=
  ∀ b ∈ sent, ∀ row ∈ w'.db.tbl_withdrawal.rows, row.transaction_hash = some b.hash →
    ∀ signer, p.reply (.wallet b.privateKey) = .ok signer →
      (∃ from_address, row.from_address = some from_address ∧
        lowercase from_address = lowercase signer) ∧ Accepted b signer row

/-- The source address that is selected is that of the wallet's key. -/
def SourceIsSigner (p : Providers) (dto : WithdrawalDto) (db : Wallets.Tables) : Prop :=
  ∀ nw_fees myWallet source signer, db.getNetworkFees dto.network = some nw_fees →
    db.searchAddress dto.user_id dto.network = some myWallet →
    db.findDbWithdrawalSourceAddress dto.coin dto.network
      (Decimals.texts.plus dto.amount nw_fees.fees) = some source →
    p.reply (.wallet myWallet.privateKey) = .ok signer →
    lowercase source.address = lowercase signer

section Receipt

variable {b : Broadcast} {signer from_address : String} {row : Withdrawal}

/-- `receipt` accepts what was sent iff the row names the signer and the
transaction was sent to the chain where it is looked for. -/
theorem accepted_iff (hhash : row.transaction_hash = some b.hash)
    (hfrom : row.from_address = some from_address) : Accepted b signer row ↔
      lowercase from_address = lowercase signer ∧ b.node = watched row.network := by
  constructor
  · intro h
    let mined : Mined := ⟨b.hash, signer, 1, 0⟩
    let nodes : Wallets.Endpoint → Chain :=
      fun e => if e = b.node then ⟨[mined], [], 12⟩ else ⟨[], [], 0⟩
    have hnode : nodes b.node = ⟨[mined], [], 12⟩ := if_pos rfl
    have hget : (nodes b.node).getTransactionReceipt b.hash = some mined := by
      rw [hnode]
      simp [Chain.getTransactionReceipt, mined]
    have htarget : targetCount (some row.network) ≤ (nodes b.node).confirmations mined := by
      have hconfirmations : (nodes b.node).confirmations mined = 12 := by rw [hnode]; rfl
      rw [hconfirmations]
      unfold targetCount
      split <;> decide
    obtain ⟨confirmationCount, hreceipt⟩ := h nodes mined ⟨.empty _, 0⟩ hget rfl htarget
    obtain ⟨-, hspec⟩ := receipt_spec (c := service nodes) (w := ⟨.empty _, 0⟩)
      row.transaction_hash row.from_address (some row.network)
    rw [hreceipt, hhash, hfrom] at hspec
    unfold Chains.verdict at hspec
    rw [service_on] at hspec
    by_cases hb : b.node = watched row.network
    · rw [← hb] at hspec
      simp only [Option.bind_some, hget] at hspec
      by_cases hsame : lowercase signer = lowercase from_address
      · exact ⟨hsame.symm, hb⟩
      · simp [mined, hsame] at hspec
    · have hempty : nodes (watched row.network) = ⟨[], [], 0⟩ := if_neg fun h => hb h.symm
      rw [hempty] at hspec
      simp [Chain.getTransactionReceipt] at hspec
  · rintro ⟨hsame, hb⟩ nodes t w hget hsender htarget
    obtain ⟨-, hspec⟩ := receipt_spec (c := service nodes) (w := w)
      row.transaction_hash row.from_address (some row.network)
    have hverdict : (service nodes).verdict (some row.network) row.transaction_hash
        row.from_address = some t.status := by
      unfold Chains.verdict
      rw [service_on, ← hb, hhash, hfrom]
      simp only [Option.bind_some, hget]
      exact if_pos ⟨by rw [hsender, hsame], htarget⟩
    rw [hverdict] at hspec
    exact hspec

end Receipt

section Request

variable {dto : WithdrawalDto}

/-- The transfers for networks of `evmNetworks` are signed with the key that is
passed, and made where they are looked for if they are made on Sepolia. -/
theorem transferFor_evm (hevm : dto.network ∈ evmNetworks) {privateKey : Option String} {fees : ℚ}
    {t : Transfer} (h : WalletController.transferFor dto privateKey fees = some t) :
    t.privateKey = privateKey ∧ t.waits = true ∧
      (t.node = watched dto.network ↔
        dto.network ≠ "BEP20" ∧ (dto.coin = .USDT ∨ dto.coin = .ETH)) := by
  have hnetwork : dto.network = "BEP20" ∨ dto.network = "ERC20" ∨ dto.network = "Ethereum" := by
    simpa [evmNetworks] using hevm
  unfold WalletController.transferFor at h
  rcases hnetwork with hn | hn | hn <;> cases hcoin : dto.coin <;> simp [hn, hcoin] at h <;>
    subst h <;> simp [Transfer.privateKey, Transfer.waits, Transfer.node, watched, isBep20, hn,
      current_bsc_url, ethProvider]

/-- **The recorded sender is the signer**, and the transaction is accepted, iff the
source address is that of the wallet and the transfer is one of Sepolia, for a
network that is looked for there. -/
theorem recordsSigner_iff (o : Outside) (dto : WithdrawalDto) (w : Wallets.World)
    (hevm : dto.network ∈ evmNetworks) {result : WithdrawlResponse} {hash : String}
    (hr : (o.withdrawal dto w).1 = .ok result) (hsuccess : result.success = true)
    (hhash : result.hash = .text hash) (hstored : (o.withdrawal dto w).2.1.Holds hash)
    (hnew : ∀ b ∈ (o.withdrawal dto w).2.2, ¬ w.Holds b.hash) :
    RecordsSigner o.providers (o.withdrawal dto w).2.1 (o.withdrawal dto w).2.2 ↔
      SourceIsSigner o.providers dto w.db ∧
        dto.network ≠ "BEP20" ∧ (dto.coin = .USDT ∨ dto.coin = .ETH) := by
  obtain ⟨from_address, t, b, row, htransfer, hsent, hnode, hkey, hwallet, hrow, honly⟩ :=
    stored_once hr hsuccess hhash hstored hnew
  obtain ⟨nw_fees, myWallet, source, hfees, hmyWallet, hsource, rfl, hfor⟩ :=
    transferOf_some htransfer
  obtain ⟨htkey, hwaits, hwatched⟩ := transferFor_evm hevm hfor
  obtain ⟨signer, hsigner⟩ := hwallet hwaits
  obtain ⟨hstoredrow, hrowhash⟩ := (honly row).mpr rfl
  have hfrom : row.from_address = some source.address := by rw [hrow]; rfl
  have hchain : b.node = watched row.network ↔
      dto.network ≠ "BEP20" ∧ (dto.coin = .USDT ∨ dto.coin = .ETH) := by
    rw [hnode, hrow]
    exact hwatched
  have hsource_iff : SourceIsSigner o.providers dto w.db ↔
      lowercase source.address = lowercase signer := by
    constructor
    · exact fun h => h nw_fees myWallet source signer hfees hmyWallet hsource (htkey ▸ hsigner)
    · intro h nw_fees' myWallet' source' signer' hfees' hmyWallet' hsource' hsigner'
      cases hfees.symm.trans hfees'
      cases hmyWallet.symm.trans hmyWallet'
      cases hsource.symm.trans hsource'
      rw [← htkey] at hsigner'
      cases hsigner.symm.trans hsigner'
      exact h
  rw [hsource_iff, ← hchain, ← accepted_iff hrowhash hfrom]
  constructor
  · intro h
    rw [hsent] at h
    exact (h b (List.mem_singleton.mpr rfl) row hstoredrow hrowhash signer (hkey ▸ hsigner)).2
  · intro haccepted b' hb' row' hrow' hhash' signer' hsigner'
    rw [hsent] at hb'
    obtain rfl := List.mem_singleton.mp hb'
    obtain rfl := (honly row').mp ⟨hrow', hhash'⟩
    rw [hkey] at hsigner'
    cases hsigner.symm.trans hsigner'
    exact ⟨⟨_, hfrom, ((accepted_iff hrowhash hfrom).mp haccepted).1⟩, haccepted⟩

end Request

/-! ## Two withdrawals -/

/-- User 1 has 95 USDT on a network, in the wallet of 0xA; another address has 1000. -/
def fundedBy (network source : String) : Wallets.World where
  db := {
    tbl_wallet := (Table.empty Wallet.id).insert
      ⟨1, 1, network, some "0xA", some "key", 95, 0, 0, 0, 0⟩ rfl
    tbl_withdrawal := .empty _
    nw_fees := (Table.empty NetworkFee.id).insert ⟨1, network, 1, 0⟩ rfl
    address_balance := (Table.empty TokenAddressBalance.id).insert
      ⟨1, .USDT, network, source, 1000⟩ rfl }
  withdrawal_cron := false

/-- A withdrawal of 3 USDT on a network, in which nothing fails. -/
def withdrawn (network source : String) :
    Except Wallets.Err WithdrawlResponse × Wallets.World × List Broadcast :=
  (Outside.sending true true).withdrawal { WithdrawalDto.usdt 3 with network := network }
    (fundedBy network source)

/-- On Ethereum, from the address of the wallet. -/
theorem recordsSigner_own_address :
    RecordsSigner (Outside.sending true true).providers (withdrawn "ERC20" "0xa").2.1
      (withdrawn "ERC20" "0xa").2.2 := by
  have hnone : ∀ hash, ¬ (fundedBy "ERC20" "0xa").Holds hash :=
    fun hash ⟨row, hrow, _⟩ => by cases hrow
  have hr : (withdrawn "ERC20" "0xa").1 =
      .ok ⟨true, "USDT  transfreed succsfully", .text "0x1", .text "0x2"⟩ := by decide +kernel
  have hhash : Field.text "0x1" = .text "0x1" := rfl
  have hstored : (withdrawn "ERC20" "0xa").2.1.Holds "0x1" :=
    ⟨{ id := 1, user_id := 1, from_address := some "0xa", to_address := "0xc", coin := .USDT,
       network := "ERC20", with_amount := 3, transaction_hash := some "0x1", status := .Approved,
       pay_by_admin := .NO, confirmations := 0 }, by decide +kernel, rfl⟩
  apply (recordsSigner_iff _ _ _ (by decide) hr rfl hhash hstored fun b _ => hnone b.hash).mpr
  refine ⟨?_, by decide, .inl rfl⟩
  intro nw_fees myWallet source signer _ _ hsource hsigner
  cases hsigner
  obtain rfl := List.mem_singleton.mp (List.mem_of_find?_eq_some hsource)
  decide

/-- Another address is recorded as the sender; and what was sent to BSC is looked
for on its testnet. -/
theorem signer_not_recorded :
    ¬ RecordsSigner (Outside.sending true true).providers (withdrawn "ERC20" "0xb").2.1
        (withdrawn "ERC20" "0xb").2.2 ∧
      ¬ RecordsSigner (Outside.sending true true).providers (withdrawn "BEP20" "0xa").2.1
        (withdrawn "BEP20" "0xa").2.2 := by
  constructor
  · intro h
    obtain ⟨⟨from_address, hfrom, hsame⟩, -⟩ := h ⟨.sepolia, "0x1", some "key"⟩ (by decide +kernel)
      { id := 1, user_id := 1, from_address := some "0xb", to_address := "0xc", coin := .USDT,
        network := "ERC20", with_amount := 3, transaction_hash := some "0x1", status := .Approved,
        pay_by_admin := .NO, confirmations := 0 } (by decide +kernel) rfl "0xA" rfl
    cases hfrom
    revert hsame
    decide
  · intro h
    obtain ⟨-, haccepted⟩ := h ⟨.bscMainnet, "0x1", some "key"⟩ (by decide +kernel)
      { id := 1, user_id := 1, from_address := some "0xa", to_address := "0xc", coin := .USDT,
        network := "BEP20", with_amount := 3, transaction_hash := some "0x1", status := .Approved,
        pay_by_admin := .NO, confirmations := 0 } (by decide +kernel) rfl "0xA" rfl
    obtain ⟨-, hchain⟩ := (accepted_iff rfl rfl).mp haccepted
    revert hchain
    decide

end Exchange.Web3
