import Exchange.Polling.Sources

/-!
# Deposits from the request to the settled row

The whole way of a deposit: `WalletController.deposit` looks for an open row and
saves one, ticks of `deposit_cron` add jobs, and a job starts one program for
each of its rows and awaits none of them. All of them are interleaved at their
awaits. What the chains find for a row is outside.
-/

namespace Exchange.Polling

open Async Wallets Settlement

structure DepositDto where
  user_id : Nat
  coin : Coin
  network : String
  to_address : String
  deriving DecidableEq

/-- `success` of a refusal: `false`, or the error itself. -/
inductive Success where
  | no
  | error (error : Err)
  deriving DecidableEq

structure DepositResponse where
  success : Success
  message : String
  deriving DecidableEq

def ask (x : DepositOp) : Prog deposits x.Res := Proc.call (.other x : Op deposits)

/-- `saveDeposit`. -/
def saveDeposit (obj : NewDeposit) : Prog deposits Unit := save obj

def DepositDto.text (dto : DepositDto) : String :=
  "user id " ++ toString dto.user_id ++ " -adress:" ++ dto.to_address ++
    " coin:" ++ dto.coin.name ++ " network:" ++ dto.network

/-- The block that a request finds. The answer of the API is assigned to a
variable of its own and lost, and only the provider's block is kept. -/
def currentBlock (network : String) : Prog deposits (Option Nat) :=
  Proc.tryCatch
    (do
      let _current_block : Nat ← ask (.getblocknobytime (network = "BEP20"))
      pure none)
    fun error => do
      ask (.saveError (.raised error) "Block Number api call from depost function")
      let block : Nat ← ask (.getBlockNumber (network = "BEP20"))
      pure (some block)

/-- `POST /deposit`. A row that is saved is answered with `undefined`. -/
def deposit (dto : DepositDto) : Prog deposits (Option DepositResponse) :=
  Proc.tryCatch
    (do
      let alreadyExist : Bool ←
        ask (.checkForPendingDeposit dto.user_id dto.coin dto.network dto.to_address)
      if alreadyExist then
        pure (some ⟨.no,
          "There is already a pending transaction at this addresss,Please wait"⟩)
      else do
        let current_block : Option Nat ← currentBlock dto.network
        match current_block with
        | none | some 0 =>
          ask (.saveError (.text ("No current block for " ++ dto.text))
            "No current block found in deposit function ")
          pure (some ⟨.no, "Failed to accept deposit currently,Please wait"⟩)
        | some block =>
          Proc.tryCatch
            (do
              saveDeposit ⟨dto.user_id, dto.to_address, dto.coin, dto.network, some block⟩
              pure none)
            fun error => do
              ask (.saveError (.raised error)
                ("while saving deposit in  deposit function walet comtrller " ++ dto.text))
              pure (some ⟨.error error, "Failed to accept deposit currently,Please wait"⟩))
    fun error => do
      ask (.saveError (.raised error) ("Error  deposit function walet comtrller " ++ dto.text))
      pure (some ⟨.no, "Failed to accept deposit currently,Please wait"⟩)

/-- A request, whose answer nobody here reads. -/
def request (dto : DepositDto) : Prog deposits Unit := do
  let _response : Option DepositResponse ← deposit dto
  pure ()

/-- One row of a job. -/
def rowProgram (v : PendingDeposit) : Prog deposits Unit :=
  (processDepositRow v.row).embed (fun o => .other (.settle o)) fun _ r => r

inductive DepositEvent where
  | tick
  | deposit (dto : DepositDto)
  | work (job : Nat)
  | finish (job : Nat)
  | fail (job : Nat)
  | elapse (time : Nat)

/-- A job that is worked on starts the programs of its rows; its end is an event
of its own. -/
def DepositEvent.happen : DepositEvent → World deposits →
    Option (World deposits × List (Prog deposits Unit))
  | .tick, w => Polling.happen .tick w
  | .deposit dto, w => some (w, [request dto])
  | .work job, w =>
      (w.unfinished.find? fun j => j.1 = job).map fun j => (w, j.2.map rowProgram)
  | .finish job, w => Polling.happen (.finish job) w
  | .fail job, w => Polling.happen (.fail job) w
  | .elapse time, w => Polling.happen (.change (DepositChange.elapse time)) w

/-- Requests, ticks, jobs and the programs of their rows. -/
def depositLoop :
    Loop (Op deposits) Op.Res Err (World deposits) (Answer deposits) DepositEvent where
  awaits := Op.awaits
  effect := effect
  answer := answer
  happen := DepositEvent.happen

abbrev DepositTurn := Loop.Turn (Answer deposits) DepositEvent

end Exchange.Polling
