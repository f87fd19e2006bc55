import Exchange.Wallets.Columns
import Exchange.Wallets.Withdrawing

/-!
# The transfer functions

The functions of `WalletController` that move coins, as programs over what the
libraries of the chains answer. A call that sends a transaction is recorded.
What the functions catch differs: some answer a failed `wait` by a response,
others raise, and in both cases the hash is gone.

`program_spec`: a transfer function sends at most one transaction, signed by the
key that it was given, and answers success with its hash iff nothing failed
after it was sent.
-/

namespace Exchange.Wallets

open Async Text

/-- The nodes that the service connects to, by the chains they are on. -/
inductive Endpoint where
  | bitcoinTestnet
  | bnbTestnet
  | bscTestnet
  | bscMainnet
  | sepolia
  deriving DecidableEq

/-- `current_bsc_url`. -/
def current_bsc_url : Endpoint := .bscMainnet

/-- The provider for Ethereum. -/
def ethProvider : Endpoint := .sepolia

structure TransactionReceipt where
  transactionHash : String
  blockHash : String
  deriving DecidableEq

/-- A call of a library; `wallet` is `new ethers.Wallet(privateKey).address`. -/
inductive ChainOp where
  | cryptoAccount (privateKey : Option String)
  | accountBalance (privateKey : Option String)
  | accountSend (privateKey : Option String) (to_address : String) (amount : Signed)
  | bncClient (privateKey : Option String)
  | freeBalance (address : String)
  | sequence (address : String)
  | bncTransfer (privateKey : Option String) (to_address : String) (amount : Signed) (memo : String)
      (sequence : Nat)
  | wallet (privateKey : Option String)
  | getFeeData (node : Endpoint)
  | balanceOf (node : Endpoint) (contract address : String)
  | getBalance (node : Endpoint) (address : String)
  | parseUnits (amount : Signed)
  | sendTransaction (node : Endpoint) (privateKey contract : Option String) (to_address : String)
      (amount : ℚ)
  | wait (node : Endpoint) (hash : String)
  deriving DecidableEq

/-- A balance is answered as a text. A transfer that sends nothing answers without a hash. -/
abbrev ChainOp.Res : ChainOp → Type
  | cryptoAccount _ | getFeeData _ => Unit
  | accountBalance _ | freeBalance _ | balanceOf .. | getBalance .. => List Char
  | parseUnits _ => ℚ
  | accountSend .. | bncTransfer .. => Option String
  | bncClient _ | wallet _ | sendTransaction .. => String
  | sequence _ => Nat
  | wait .. => TransactionReceipt

abbrev ChainProg := Proc ChainOp ChainOp.Res Err

/-- What the libraries answer during one request. The receipt that is waited for
is that of the transaction. -/
structure Providers where
  reply : (o : ChainOp) → Except Err o.Res
  hash_of_wait : ∀ node hash receipt, reply (.wait node hash) = .ok receipt →
    receipt.transactionHash = hash

/-- A transaction that was sent to a chain, and the key that signed it. -/
structure Broadcast where
  node : Endpoint
  hash : String
  privateKey : Option String
  deriving DecidableEq

/-- The transaction that a call has sent. -/
def ChainOp.sent : (o : ChainOp) → o.Res → Option Broadcast
  | .accountSend privateKey .., hash => hash.map (⟨.bitcoinTestnet, ·, privateKey⟩)
  | .bncTransfer privateKey .., hash => hash.map (⟨.bnbTestnet, ·, privateKey⟩)
  | .sendTransaction node privateKey .., hash => some ⟨node, hash, privateKey⟩
  | _, _ => none

def Providers.perform (p : Providers) : Handler ChainOp ChainOp.Res Err (List Broadcast) :=
  fun o sent => (p.reply o, sent ++ ((p.reply o).toOption.bind o.sent).toList)

namespace WalletController

/-- The contracts of `getABiAndTokenContract`. -/
def tokenContract (coin : Coin) (network : String) : String :=
  match coin with
  | .BUSD => "0xeD24FC36d5Ee211Ea25A80239Fb8C4Cfd80f12Ee"
  | .DRNH => "0x8B76AdD310295D74855FA55c62AaFB92623450Fa"
  | .USDT =>
      if network = "ERC20" then "0xdAC17F958D2ee523a2206206994597C13D831ec7"
      else "0x55d398326f99059fF775485246999027B3197955"
  | .BTC => if network = "BEP20" then "0x7130d2A12B9BCbFAe4f2634d864A1Ee1Ce3Ead9c" else ""
  | _ => ""

def ask (o : ChainOp) : ChainProg o.Res := Proc.call o

/-- The text of an error. -/
def Err.text : Err → String
  | .transferError error => error
  | .typeError => "TypeError"
  | .rejected => "Error"

/-- Send a transaction and wait for it. -/
def submit (node : Endpoint) (privateKey contract : Option String) (to_address : String)
    (amount : ℚ) (message : String) : ChainProg WithdrawlResponse := do
  let hash : String ← ask (.sendTransaction node privateKey contract to_address amount)
  let receipt : TransactionReceipt ← ask (.wait node hash)
  pure ⟨true, message, .text receipt.transactionHash, .text receipt.blockHash⟩

/-- The `catch` of the functions that have one. -/
def transferFailed (error : Err) : ChainProg WithdrawlResponse :=
  pure ⟨false, "Transfer Failed " ++ Err.text error, .undefined, .undefined⟩

/-! ## The checks of the balance

What each function answers at its check, and nothing where it goes on. -/

section Checks

variable (double : ℚ → ℚ)

/-- `NaN` compares as false. -/
def greater (x y : Option ℚ) : Bool := x.any fun x => y.any fun y => y < x

def insufficientAmount (balance amount1 fees : List Char) : Option WithdrawlResponse :=
  if balance < amount1 ++ fees then some ⟨false, "Insufficient Amount", .text "", .undefined⟩
  else none

def refuseTransferBep20 (amount1 fees balanceInSymobl : List Char) : Option WithdrawlResponse :=
  insufficientAmount balanceInSymobl amount1 fees

def refuseTransferBep20USDT (amount1 fees balanceInSymobl : List Char) :
    Option WithdrawlResponse :=
  insufficientAmount balanceInSymobl amount1 fees

def refuseTransferETH (amount1 fees balanceInETH : List Char) : Option WithdrawlResponse :=
  insufficientAmount balanceInETH amount1 fees

def refuseTransferBNBBep20 (amount1 fees balanceInBNB : List Char) : Option WithdrawlResponse :=
  insufficientAmount balanceInBNB amount1 fees

/-- The sum is a text, the balance a number. -/
def refuseSendBitcoin (amount fees balance : List Char) : Option WithdrawlResponse :=
  if greater (Number double (amount ++ fees)) (parseFloat double balance) then
    some ⟨false, "amount exceeded than in wallet", .undefined, .undefined⟩
  else none

end Checks

/-! ## The functions -/

def sendBitcoin (amount : Signed) (to_address : String) (privateKey : Option String) (fees : ℚ) :
    ChainProg WithdrawlResponse := do
  ask (.cryptoAccount privateKey)
  let balance : List Char ← ask (.accountBalance privateKey)
  match refuseSendBitcoin Double.fl amount.text (fixed 6 fees) balance with
  | some refused => pure refused
  | none =>
    let hash : Option String ← ask (.accountSend privateKey to_address amount)
    match hash with
    | some hash => pure ⟨true, "Transfer Successful", .text hash, .undefined⟩
    | none => pure ⟨false, "Trasaction Failed", .undefined, .undefined⟩

/-- A token on BSC: both functions send it alike, each after its check. -/
def transferToken (refuse : List Char → List Char → List Char → Option WithdrawlResponse)
    (contract message : String) (amount1 : Signed) (to_address : String)
    (privateKey : Option String) (fees : ℚ) : ChainProg WithdrawlResponse :=
  Proc.tryCatch
    (do
      let fromAddress : String ← ask (.wallet privateKey)
      ask (.getFeeData current_bsc_url)
      let balance : List Char ← ask (.balanceOf current_bsc_url contract fromAddress)
      let amount : ℚ ← ask (.parseUnits amount1)
      match refuse amount1.text (fixed 6 fees) balance with
      | some refused => pure refused
      | none => submit current_bsc_url privateKey (some contract) to_address amount message)
    transferFailed

def transferBep20 (amount1 : Signed) (to_address : String) (privateKey : Option String)
    (coin : Coin) (fees : ℚ) : ChainProg WithdrawlResponse :=
  transferToken refuseTransferBep20 (tokenContract coin "BEP20")
    (coin.name ++ " transfered succsfully") amount1 to_address privateKey fees

/-- The coin is in the message only. -/
def transferBep20USDT (amount1 : Signed) (to_address : String) (privateKey : Option String)
    (coin : Coin) (fees : ℚ) : ChainProg WithdrawlResponse :=
  transferToken refuseTransferBep20USDT (tokenContract .USDT "BEP20")
    (coin.name ++ " transfreed succsfully") amount1 to_address privateKey fees

/-- The balance is read and compared with nothing. -/
def sendUSDTERC20 (amount1 : Signed) (to_address : String) (privateKey : Option String)
    (_fees : ℚ) : ChainProg WithdrawlResponse :=
  Proc.tryCatch
    (do
      ask (.getFeeData ethProvider)
      let fromAddress : String ← ask (.wallet privateKey)
      let contract := tokenContract .USDT "ERC20"
      let _balance : List Char ← ask (.balanceOf ethProvider contract fromAddress)
      let amount : ℚ ← ask (.parseUnits amount1)
      submit ethProvider privateKey (some contract) to_address amount "USDT  transfreed succsfully")
    transferFailed

def transferETH (amount1 : Signed) (to_address : String) (privateKey : Option String) (fees : ℚ) :
    ChainProg WithdrawlResponse := do
  let fromAddress : String ← ask (.wallet privateKey)
  let balance : List Char ← ask (.getBalance ethProvider fromAddress)
  let amount : ℚ ← ask (.parseUnits amount1)
  match refuseTransferETH amount1.text (fixed 6 fees) balance with
  | some refused => pure refused
  | none => submit ethProvider privateKey none to_address amount "Trasaction successfull"

def transferBNBBep20 (amount1 : Signed) (to_address : String) (privateKey : Option String)
    (fees : ℚ) : ChainProg WithdrawlResponse := do
  let fromAddress : String ← ask (.wallet privateKey)
  let balance : List Char ← ask (.getBalance current_bsc_url fromAddress)
  match refuseTransferBNBBep20 amount1.text (fixed 6 fees) balance with
  | some refused => pure refused
  | none =>
    let amount : ℚ ← ask (.parseUnits amount1)
    submit current_bsc_url privateKey none to_address amount "Trasaction successfull"

/-- The second `try` of `transferBNBBep2`. -/
def bncSend (amount1 : Signed) (to_address : String) (privateKey : Option String) (memo : String)
    (sequence : Nat) : ChainProg WithdrawlResponse :=
  Proc.tryCatch
    (do
      let hash : Option String ← ask (.bncTransfer privateKey to_address amount1 memo sequence)
      match hash with
      | some hash => pure ⟨true, "Transferd successfully", .text hash, .undefined⟩
      | none => pure ⟨false, "Transferd failed", .null, .undefined⟩)
    fun err => pure ⟨false, "Transferd failed with error " ++ Err.text err, .undefined, .undefined⟩

/-- A sequence that cannot be read is 0. -/
def transferBNBBep2 (amount1 : Signed) (to_address : String) (privateKey : Option String)
    (memo : String) : ChainProg WithdrawlResponse := do
  let fromAddress : String ← ask (.bncClient privateKey)
  let free : List Char ← ask (.freeBalance fromAddress)
  if free < amount1.text then
    pure ⟨false, "Insufficient amount in wallet to withdraw", .undefined, .undefined⟩
  else
    let sequence ← Proc.tryCatch (ask (.sequence fromAddress)) fun _ => pure 0
    bncSend amount1 to_address privateKey memo sequence

end WalletController

namespace Transfer

open WalletController

def program : Transfer → ChainProg WithdrawlResponse
  | .sendBitcoin amount to_address privateKey fees =>
      WalletController.sendBitcoin amount to_address privateKey fees
  | .transferBep20 amount to_address privateKey coin fees =>
      WalletController.transferBep20 amount to_address privateKey coin fees
  | .sendUSDTERC20 amount to_address privateKey fees =>
      WalletController.sendUSDTERC20 amount to_address privateKey fees
  | .transferBep20USDT amount to_address privateKey coin fees =>
      WalletController.transferBep20USDT amount to_address privateKey coin fees
  | .transferETH amount to_address privateKey fees =>
      WalletController.transferETH amount to_address privateKey fees
  | .transferBNBBep20 amount to_address privateKey fees =>
      WalletController.transferBNBBep20 amount to_address privateKey fees
  | .transferBNBBep2 amount to_address privateKey memo =>
      WalletController.transferBNBBep2 amount to_address privateKey memo

/-- The chain that a transfer is made on. -/
def node : Transfer → Endpoint
  | .sendBitcoin .. => .bitcoinTestnet
  | .transferBNBBep2 .. => .bnbTestnet
  | .transferBep20 .. | .transferBep20USDT .. | .transferBNBBep20 .. => current_bsc_url
  | .sendUSDTERC20 .. | .transferETH .. => ethProvider

def privateKey : Transfer → Option String
  | .sendBitcoin _ _ key _ | .transferBep20 _ _ key _ _ | .sendUSDTERC20 _ _ key _
  | .transferBep20USDT _ _ key _ _ | .transferETH _ _ key _ | .transferBNBBep20 _ _ key _
  | .transferBNBBep2 _ _ key _ => key

/-- It waits for the receipt of what it has sent. -/
def waits (t : Transfer) : Bool := t.node = current_bsc_url ∨ t.node = ethProvider

/-- The answer of the transfer function and what it has sent. -/
def run (p : Providers) (t : Transfer) : Except Err WithdrawlResponse × List Broadcast :=
  t.program.run p.perform []

end Transfer

/-- How a transfer function ends: it has sent nothing, it waited in vain for what
it has sent, or it answers success with the hash. -/
inductive Transferred (p : Providers) (t : Transfer) :
    Except Err WithdrawlResponse → List Broadcast → Prop where
  | unsent {r : Except Err WithdrawlResponse}
      (hr : ∀ result, r = .ok result → result.success = false) : Transferred p t r []
  | lost {r : Except Err WithdrawlResponse} (b : Broadcast) (hnode : b.node = t.node)
      (hkey : b.privateKey = t.privateKey) (hwaits : t.waits = true) (e : Err)
      (hwait : p.reply (.wait b.node b.hash) = .error e)
      (hr : ∀ result, r = .ok result → result.success = false) : Transferred p t r [b]
  | sent (b : Broadcast) (hnode : b.node = t.node) (hkey : b.privateKey = t.privateKey)
      (hwait : t.waits = true → (∃ address, p.reply (.wallet t.privateKey) = .ok address) ∧
        ∃ receipt, p.reply (.wait b.node b.hash) = .ok receipt)
      (result : WithdrawlResponse) (hsuccess : result.success = true)
      (hhash : result.hash = .text b.hash) : Transferred p t (.ok result) [b]

section Spec

variable {p : Providers} {t : Transfer} {sent : List Broadcast}

open WalletController Proc

theorem Transferred.raised (e : Err) : Transferred p t (.error e) [] := by
  apply Transferred.unsent
  intro result h
  cases h

theorem Transferred.refused {result : WithdrawlResponse} (h : result.success = false) :
    Transferred p t (.ok result) [] := by
  apply Transferred.unsent
  rintro _ ⟨⟩
  exact h

theorem Transferred.caught {e : Err} {result : WithdrawlResponse}
    (h : Transferred p t (.error e) sent) (hfalse : result.success = false) :
    Transferred p t (.ok result) sent := by
  have hr : ∀ result', Except.ok (ε := Err) result = .ok result' → result'.success = false := by
    rintro _ ⟨⟩
    exact hfalse
  cases h with
  | unsent _ => exact .unsent hr
  | lost b hnode hkey hwaits e hwait _ => exact .lost b hnode hkey hwaits e hwait hr

theorem perform_quiet {o : ChainOp} (ho : ∀ r, o.sent r = none) :
    p.perform o sent = (p.reply o, sent) := by
  unfold Providers.perform
  cases p.reply o with
  | error e => simp [Except.toOption]
  | ok r => simp [Except.toOption, ho]

/-- A call that sends nothing. -/
theorem wp_ask {α : Type} {o : ChainOp} {f : o.Res → ChainProg α}
    {Q : Except Err α → List Broadcast → Prop} (ho : ∀ r, o.sent r = none)
    (herror : ∀ e, p.reply o = .error e → Q (.error e) sent)
    (hok : ∀ r, p.reply o = .ok r → wp p.perform (f r) Q sent) :
    wp p.perform (ask o >>= f) Q sent := by
  apply (wp_bind _ _ _).mpr
  apply (wp_call _ _).mpr
  rw [perform_quiet ho]
  cases hr : p.reply o with
  | error e => exact herror e hr
  | ok r => exact hok r hr

/-- A refusal is no success. -/
theorem success_of_insufficient {balance amount1 fees : List Char} {refused : WithdrawlResponse}
    (h : insufficientAmount balance amount1 fees = some refused) : refused.success = false := by
  unfold insufficientAmount at h
  split at h
  · cases h
    rfl
  · cases h

theorem success_of_sendBitcoin {double : ℚ → ℚ} {amount fees balance : List Char}
    {refused : WithdrawlResponse}
    (h : refuseSendBitcoin double amount fees balance = some refused) :
    refused.success = false := by
  unfold refuseSendBitcoin at h
  split at h
  · cases h
    rfl
  · cases h

theorem submit_spec {contract : Option String} {to_address : String} {amount : ℚ} {message : String}
    (hwaits : t.waits = true) {address : String}
    (hwallet : p.reply (.wallet t.privateKey) = .ok address) :
    wp p.perform (submit t.node t.privateKey contract to_address amount message)
      (Transferred p t) [] := by
  unfold submit
  apply (wp_bind _ _ _).mpr
  apply (wp_call _ _).mpr
  unfold Providers.perform
  cases hsend : p.reply (.sendTransaction t.node t.privateKey contract to_address amount) with
  | error e => exact .raised e
  | ok hash =>
    apply wp_ask fun _ => rfl
    · intro e he
      refine .lost ⟨t.node, hash, t.privateKey⟩ rfl rfl hwaits e he ?_
      intro result h
      cases h
    · intro receipt hreceipt
      refine .sent ⟨t.node, hash, t.privateKey⟩ rfl rfl ?_ _ rfl ?_
      · exact fun _ => ⟨⟨address, hwallet⟩, receipt, hreceipt⟩
      · rw [p.hash_of_wait _ _ _ hreceipt]

theorem transferFailed_spec {body : ChainProg WithdrawlResponse}
    (h : wp p.perform body (Transferred p t) []) :
    wp p.perform (Proc.tryCatch body transferFailed) (Transferred p t) [] := by
  rw [wp_tryCatch]
  apply wp_mono h
  rintro (e | result) sent hsent
  · exact hsent.caught rfl
  · exact hsent

theorem sendBitcoin_spec (amount : Signed) (to_address : String) (privateKey : Option String)
    (fees : ℚ) :
    wp p.perform (sendBitcoin amount to_address privateKey fees)
      (Transferred p (.sendBitcoin amount to_address privateKey fees)) [] := by
  unfold sendBitcoin
  apply wp_ask fun _ => rfl
  · exact fun e _ => .raised e
  intro _ _
  apply wp_ask fun _ => rfl
  · exact fun e _ => .raised e
  intro balance _
  split
  · next refused hcheck => exact .refused (success_of_sendBitcoin hcheck)
  apply (wp_bind _ _ _).mpr
  apply (wp_call _ _).mpr
  unfold Providers.perform
  rcases p.reply (.accountSend privateKey to_address amount) with e | (_ | hash)
  · exact .raised e
  · exact .refused rfl
  · exact .sent ⟨.bitcoinTestnet, hash, privateKey⟩ rfl rfl (fun h => by cases h) _ rfl rfl

theorem transferToken_spec
    {refuse : List Char → List Char → List Char → Option WithdrawlResponse}
    (hrefuse : refuse = fun amount1 fees balance => insufficientAmount balance amount1 fees)
    (contract message : String) (amount1 : Signed) (to_address : String)
    (fees : ℚ) (hnode : t.node = current_bsc_url) :
    wp p.perform (transferToken refuse contract message amount1 to_address t.privateKey fees)
      (Transferred p t) [] := by
  apply transferFailed_spec
  apply wp_ask fun _ => rfl
  · exact fun e _ => .raised e
  intro address hwallet
  apply wp_ask fun _ => rfl
  · exact fun e _ => .raised e
  intro _ _
  apply wp_ask fun _ => rfl
  · exact fun e _ => .raised e
  intro balance _
  apply wp_ask fun _ => rfl
  · exact fun e _ => .raised e
  intro amount _
  split
  · next refused hcheck => exact .refused (success_of_insufficient (hrefuse ▸ hcheck))
  · rw [← hnode]
    apply submit_spec _ hwallet
    simp [Transfer.waits, hnode]

theorem sendUSDTERC20_spec (amount1 : Signed) (to_address : String) (privateKey : Option String)
    (fees : ℚ) :
    wp p.perform (sendUSDTERC20 amount1 to_address privateKey fees)
      (Transferred p (.sendUSDTERC20 amount1 to_address privateKey fees)) [] := by
  apply transferFailed_spec
  apply wp_ask fun _ => rfl
  · exact fun e _ => .raised e
  intro _ _
  apply wp_ask fun _ => rfl
  · exact fun e _ => .raised e
  intro address hwallet
  apply wp_ask fun _ => rfl
  · exact fun e _ => .raised e
  intro _ _
  apply wp_ask fun _ => rfl
  · exact fun e _ => .raised e
  intro amount _
  exact submit_spec rfl hwallet

theorem transferETH_spec (amount1 : Signed) (to_address : String) (privateKey : Option String)
    (fees : ℚ) :
    wp p.perform (transferETH amount1 to_address privateKey fees)
      (Transferred p (.transferETH amount1 to_address privateKey fees)) [] := by
  apply wp_ask fun _ => rfl
  · exact fun e _ => .raised e
  intro address hwallet
  apply wp_ask fun _ => rfl
  · exact fun e _ => .raised e
  intro balance _
  apply wp_ask fun _ => rfl
  · exact fun e _ => .raised e
  intro amount _
  split
  · next refused hcheck => exact .refused (success_of_insufficient hcheck)
  · exact submit_spec rfl hwallet

theorem transferBNBBep20_spec (amount1 : Signed) (to_address : String) (privateKey : Option String)
    (fees : ℚ) :
    wp p.perform (transferBNBBep20 amount1 to_address privateKey fees)
      (Transferred p (.transferBNBBep20 amount1 to_address privateKey fees)) [] := by
  apply wp_ask fun _ => rfl
  · exact fun e _ => .raised e
  intro address hwallet
  apply wp_ask fun _ => rfl
  · exact fun e _ => .raised e
  intro balance _
  split
  · next refused hcheck => exact .refused (success_of_insufficient hcheck)
  apply wp_ask fun _ => rfl
  · exact fun e _ => .raised e
  intro amount _
  exact submit_spec rfl hwallet

theorem bncSend_spec (amount1 : Signed) (to_address : String) (privateKey : Option String)
    (memo : String) (sequence : Nat) :
    wp p.perform (bncSend amount1 to_address privateKey memo sequence)
      (Transferred p (.transferBNBBep2 amount1 to_address privateKey memo)) [] := by
  unfold bncSend
  rw [wp_tryCatch]
  apply (wp_bind _ _ _).mpr
  apply (wp_call _ _).mpr
  unfold Providers.perform
  rcases p.reply (.bncTransfer privateKey to_address amount1 memo sequence) with e | (_ | hash)
  · exact .refused rfl
  · exact .refused rfl
  · exact .sent ⟨.bnbTestnet, hash, privateKey⟩ rfl rfl (fun h => by cases h) _ rfl rfl

theorem transferBNBBep2_spec (amount1 : Signed) (to_address : String) (privateKey : Option String)
    (memo : String) :
    wp p.perform (transferBNBBep2 amount1 to_address privateKey memo)
      (Transferred p (.transferBNBBep2 amount1 to_address privateKey memo)) [] := by
  apply wp_ask fun _ => rfl
  · exact fun e _ => .raised e
  intro fromAddress _
  apply wp_ask fun _ => rfl
  · exact fun e _ => .raised e
  intro free _
  split
  · exact .refused rfl
  apply (wp_bind _ _ _).mpr
  rw [wp_tryCatch]
  apply (wp_call _ _).mpr
  rw [perform_quiet fun _ => rfl]
  cases p.reply (.sequence fromAddress) with
  | error e => exact bncSend_spec ..
  | ok sequence => exact bncSend_spec ..

/-- **The transfer functions**: what each answers, and what it has sent. -/
theorem program_spec (p : Providers) (t : Transfer) : Transferred p t (t.run p).1 (t.run p).2 := by
  cases t with
  | sendBitcoin amount to_address privateKey fees => exact sendBitcoin_spec ..
  | transferBep20 amount to_address privateKey coin fees =>
    exact transferToken_spec rfl _ _ amount to_address fees rfl
  | sendUSDTERC20 amount to_address privateKey fees => exact sendUSDTERC20_spec ..
  | transferBep20USDT amount to_address privateKey coin fees =>
    exact transferToken_spec rfl _ _ amount to_address fees rfl
  | transferETH amount to_address privateKey fees => exact transferETH_spec ..
  | transferBNBBep20 amount to_address privateKey fees => exact transferBNBBep20_spec ..
  | transferBNBBep2 amount to_address privateKey memo => exact transferBNBBep2_spec ..

/-- What was sent is answered by a success with its hash iff the wait for it, if
there is one, does not fail. -/
theorem answered_iff {b : Broadcast} (hb : b ∈ (t.run p).2) :
    (t.waits = true → ∃ receipt, p.reply (.wait b.node b.hash) = .ok receipt) ↔
      ∃ result, (t.run p).1 = .ok result ∧ result.success = true ∧ result.hash = .text b.hash := by
  have hspec := program_spec p t
  generalize (t.run p).1 = r at hspec
  generalize (t.run p).2 = sent at hspec hb
  cases hspec with
  | unsent _ => cases hb
  | lost b' hnode hkey hwaits e hfail hr =>
    obtain rfl := List.mem_singleton.mp hb
    constructor
    · intro h
      obtain ⟨receipt, hreceipt⟩ := h hwaits
      cases hreceipt.symm.trans hfail
    · rintro ⟨result, hresult, hsuccess, -⟩
      cases (hr result hresult).symm.trans hsuccess
  | sent b' hnode hkey hwait result hsuccess hhash =>
    obtain rfl := List.mem_singleton.mp hb
    exact ⟨fun _ => ⟨result, rfl, hsuccess, hhash⟩, fun _ h => (hwait h).2⟩

/-- A success is answered for a transaction that was sent. -/
theorem sent_of_success {result : WithdrawlResponse} (hr : (t.run p).1 = .ok result)
    (hs : result.success = true) : ∃ b, (t.run p).2 = [b] ∧ b.node = t.node ∧
      b.privateKey = t.privateKey ∧ result.hash = .text b.hash ∧
      (t.waits = true → ∃ address, p.reply (.wallet t.privateKey) = .ok address) := by
  have hspec := program_spec p t
  rw [hr] at hspec
  generalize (t.run p).2 = sent at hspec
  cases hspec with
  | unsent hfalse => cases (hfalse result rfl).symm.trans hs
  | lost b hnode hkey hwaits e hfail hfalse => cases (hfalse result rfl).symm.trans hs
  | sent b hnode hkey hwait _ _ hhash =>
    exact ⟨b, rfl, hnode, hkey, hhash, fun h => (hwait h).1⟩

end Spec

end Exchange.Wallets
