import Exchange.Async.Session
import Exchange.Binance.Cancelling
import Exchange.Wallets.Solvency

/-!
# Everything that moves funds, at the same time

The requests to place or to cancel an order at the exchange, the messages of its socket
and the jobs that these add; the requests for a withdrawal, the webhook, and the rows of
the jobs over withdrawals and deposits: all over one set of tables, their calls answered
in any order. Every call is taken to leave the process, also those that do not.

`protocol` says what each of them may do at all: an order, then the row of that order,
then the statement that settles that row; a cancellation, then the statement that deletes
its rows; a report of the socket, then its event, then the job of that event; a transfer,
then the row of that transfer, or a row for the admin.
-/

namespace Exchange.Funds

open Async Async.Proc Store Wallets Binance Settlement

/-! ## The event loop -/

inductive Op where
  | exchange (o : Binance.Op)
  | cancelling (o : CancelOp)
  | withdrawing (o : Wallets.Op)
  | settlement (o : Settlement.Op)

/-- A failure is an answer: each program catches its own errors. -/
abbrev Op.Res : Op → Type
  | exchange o => Except Binance.Err o.Res
  | cancelling o => Except Binance.Err o.Res
  | withdrawing o => Except Wallets.Err o.Res
  | settlement o => Except Wallets.Err o.Res

/-- What starts a program. -/
inductive Request where
  | placeOrder (req : PlaceOrder)
  | cancelOrder (req : CancelOrder)
  | onmessage (eventInfo : EventInfo)
  | processTrade (item : Item)
  | withdrawal (dto : WithdrawalDto)
  | hook (obj : HookObj)
  | processWithdrawal (v : PendingWithdrawal)
  | processDeposit (v : PendingDeposit)

abbrev Thread := Proc Op Op.Res Empty Unit

def Request.program : Request → Thread
  | placeOrder req => (BinanceController.placeOrder req).detach .exchange fun _ r => r
  | cancelOrder req => (BinanceController.cancelOrder req).detach .cancelling fun _ r => r
  | onmessage eventInfo => (BinanceController.onmessage eventInfo).detach .exchange fun _ r => r
  | processTrade item => (Binance.processTrade item).detach .exchange fun _ r => r
  | withdrawal dto => (WalletController.withdrawal .texts dto).detach .withdrawing fun _ r => r
  | hook obj => (Settlement.hook obj).detach .settlement fun _ r => r
  | processWithdrawal v => (processWithdrawalRow v).detach .settlement fun _ r => r
  | processDeposit v => (processDepositRow v.row).detach .settlement fun _ r => r

/-- The tables, what the transfer functions were asked and answered, the symbols and orders
that the exchange has cancelled, and what has arrived. -/
structure World extends Solvency.World where
  transfers : List (Transfer × Except Wallets.Err WithdrawlResponse)
  cancelled : List (String × String)
  arrived : List Request

def World.start (w : Solvency.World) : World := ⟨w, [], [], []⟩

/-- What is outside, when one call is answered. -/
structure Answers where
  exchange : Binance.Answers
  cancelling : CancelAnswers
  withdrawing : Wallets.Answers
  settlement : Settlement.Answers

/-- What a call asks of the transfer functions. -/
def World.transferred (w : World) (a : Wallets.Answers) :
    Wallets.Op → List (Transfer × Except Wallets.Err WithdrawlResponse)
  | .transfer t => w.transfers ++ [(t, a.transfer t)]
  | _ => w.transfers

/-- What a call has the exchange cancel. -/
def World.cancels (w : World) (a : CancelAnswers) : CancelOp → List (String × String)
  | .cancelOrder symbol orderId =>
      match a.cancelOrder symbol orderId with
      | .ok _ => w.cancelled ++ [(symbol, orderId)]
      | .error _ => w.cancelled
  | _ => w.cancelled

def World.withWallets (w : World) (wallets : Wallets.World) : World :=
  { w with settlement := { w.settlement with wallets := wallets } }

def answer (a : Answers) : (o : Op) → World → Except Empty o.Res × World
  | .exchange o, w =>
      let r := Binance.World.perform a.exchange o w.orders
      (.ok r.1, { w with toWorld := w.withOrders r.2 })
  | .cancelling o, w =>
      let r := Binance.World.performCancel a.cancelling o w.orders
      (.ok r.1, { w with
        toWorld := w.withOrders r.2
        cancelled := w.cancels a.cancelling o })
  | .withdrawing o, w =>
      let r := Wallets.World.perform a.withdrawing o w.settlement.wallets
      (.ok r.1, { w.withWallets r.2 with transfers := w.transferred a.withdrawing o })
  | .settlement o, w =>
      let r := Settlement.World.perform a.settlement o w.settlement
      (.ok r.1, { w with settlement := r.2 })

/-- Everything may come at any time. A job on trades is started by its queue, which may start
it again. -/
def happen (c : Request) (w : World) : Option (World × List Thread) :=
  some ({ w with arrived := w.arrived ++ [c] }, [c.program])

/-- No call is without effect outside, so this is never the answer. -/
def Op.unanswered : (o : Op) → o.Res
  | exchange _ => .error .typeError
  | cancelling _ => .error .typeError
  | withdrawing _ => .error .rejected
  | settlement _ => .error .rejected

def loop : Loop Op Op.Res Empty World Answers Request where
  awaits := fun _ => true
  effect := fun o w => (.ok o.unanswered, w, [])
  answer := fun a o w => some (answer a o w)
  happen := happen

abbrev State := Loop.State Op Op.Res Empty World

abbrev Turn := Loop.Turn Answers Request

def State.start (w : Solvency.World) : State := ⟨.start w, []⟩

/-- One BTC is bought by every order, every cancellation is confirmed, and no transfer
succeeds. -/
def buying : Answers where
  exchange := .accepting .filledBuy
  cancelling :=
    ⟨fun _ _ => .ok "CANCELED", fun _ => none, fun _ user_id r => toString r.user_id == user_id⟩
  withdrawing := ⟨fun _ => .error .typeError, fun _ => false⟩
  settlement := ⟨0, .error .typeError, .error .typeError, fun _ => false⟩

/-! ## The protocol -/

/-- The row of a trade is that of the order of a request, at the price of its first fill. -/
def Records (placed : PlaceOrder × OrderResponse) (row : BinanceTrade) : Prop :=
  ∃ now fill, placed.2.fills.head? = some fill ∧
    row = BinanceController.insertInBinanceTrade placed.1.userId now placed.2 fill.price

/-- The statement that settles a row. -/
def query (row : BinanceTrade) : WalletQuery :=
  walletQuery row.side row.symbol row.executedQty row.cummulativeQuoteQty row.user_id

/-- Something of the order was executed. -/
def Executed (row : BinanceTrade) : Prop := row.status = .FILLED ∨ row.status = .PARTIALLY_FILLED

/-- The event of a message that is a report. -/
def Notes (eventInfo : EventInfo) (row : TradeEvent) : Prop :=
  eventInfo.e = "executionReport" ∧
    row = ⟨eventInfo.c, BinanceController.item eventInfo, eventInfo⟩

/-- The report of a trade, which is to be worked on. -/
def Trades (eventInfo : EventInfo) : Prop := eventInfo.x = "TRADE" ∧ eventInfo.x ≠ "FILLED"

instance (eventInfo : EventInfo) : Decidable (Trades eventInfo) := by
  unfold Trades
  infer_instance

/-- A call of the transfer function that a request asks for. -/
def AsksFor (dto : WithdrawalDto) (t : Transfer) : Prop :=
  ∃ privateKey fees, WalletController.transferFor dto privateKey fees = some t

/-- The object has what the request asks for. -/
structure Requested (dto : WithdrawalDto) (obj : NewWithdrawal) : Prop where
  user_id : obj.user_id = dto.user_id
  to_address : obj.to_address = dto.to_address
  coin : obj.coin = dto.coin
  network : obj.network = dto.network
  with_amount : obj.with_amount = dto.amount.value

/-- The object of a transfer: it succeeded, with this hash. -/
structure Confirms (r : Except Wallets.Err WithdrawlResponse) (obj : NewWithdrawal) : Prop where
  success : ∃ response, r = .ok response ∧ response.success = true ∧
    response.hash ≠ .undefined ∧ obj.transaction_hash = WalletController.Field.column response.hash
  from_address : obj.from_address.isSome = true

/-- The object of a withdrawal that the admin is to pay. -/
structure ForAdmin (obj : NewWithdrawal) : Prop where
  status : obj.status = .Pending
  transaction_hash : obj.transaction_hash = none
  from_address : obj.from_address = none

/-- How far a program is. -/
inductive Phase where
  | placing (req : PlaceOrder)
  | ordered (req : PlaceOrder) (o : OrderResponse)
  | recorded (row : BinanceTrade)
  | cancelling (req : CancelOrder)
  | cancelled (req : CancelOrder)
  | heard (eventInfo : EventInfo)
  | noted (item : Item)
  | asking (dto : WithdrawalDto)
  | sent (dto : WithdrawalDto) (t : Transfer) (r : Except Wallets.Err WithdrawlResponse)
  | closed

/-- What is written about withdrawals and deposits: nothing becomes pending again, and no
statement adds to a wallet. -/
def Decides : Settlement.Op → Prop
  | .updateWithdrawals _ status => status ≠ .Pending
  | .updateWtihdrawalById _ (.status status _) => status ≠ .Pending
  | .updateDepositById _ (.status status ..) => status ≠ .Pending
  | .incrementWallet _ column amount | .decrementWallet _ column amount =>
      Column.ofName column = none ∨ amount = none
  | _ => True

def may (s : Phase) : Op → Prop
  | .exchange (.newOrder _) => ∃ req, s = .placing req
  | .exchange (.insertInBinanceTrade row) => ∃ req o, s = .ordered req o ∧ Records (req, o) row
  | .exchange (.updateWalletQuery q) => ∃ row, s = .recorded row ∧ Executed row ∧ q = query row
  | .exchange (.insertEventData row) => ∃ eventInfo, s = .heard eventInfo ∧ Notes eventInfo row
  | .exchange (.addTrade item) => s = .noted item
  | .exchange _ => True
  | .cancelling (.cancelOrder symbol orderId) =>
      ∃ req, s = .cancelling req ∧ symbol = req.symbol ∧ orderId = req.orderId
  | .cancelling (.deleteOrder orderId user_id) =>
      ∃ req, s = .cancelled req ∧ orderId = req.orderId ∧ user_id = req.user_id
  | .withdrawing (.transfer t) => ∃ dto, s = .asking dto ∧ AsksFor dto t
  | .withdrawing (.saveWithdrawal obj) =>
      (∃ dto, s = .asking dto ∧ Requested dto obj ∧ ForAdmin obj) ∨
        ∃ dto t r, s = .sent dto t r ∧ Requested dto obj ∧ Confirms r obj
  | .withdrawing _ => True
  | .settlement o => Decides o

/-- The exchange has answered an order. -/
def Phase.order (s : Phase) (r : Except Binance.Err OrderResponse) : Phase :=
  match s, r with
  | .placing req, .ok o => .ordered req o
  | _, _ => .closed

/-- The row of the order has been answered. -/
def Phase.record (row : BinanceTrade) : Except Binance.Err Unit → Phase
  | .ok () => .recorded row
  | .error _ => .closed

/-- The event of a report has been answered. -/
def Phase.note (row : TradeEvent) : Except Binance.Err Unit → Phase
  | .ok () => if Trades row.full_event then .noted row.event else .closed
  | .error _ => .closed

/-- The exchange has answered a cancellation. -/
def Phase.cancel (s : Phase) (r : Except Binance.Err String) : Phase :=
  match s, r with
  | .cancelling req, .ok _ => .cancelled req
  | _, _ => .closed

def Phase.send (s : Phase) (t : Transfer) (r : Except Wallets.Err WithdrawlResponse) : Phase :=
  match s with
  | .asking dto => .sent dto t r
  | _ => .closed

def next (s : Phase) : (o : Op) → Except Empty o.Res → Phase
  | .exchange (.newOrder _), .ok r => s.order r
  | .exchange (.insertInBinanceTrade row), .ok r => Phase.record row r
  | .exchange (.updateWalletQuery _), .ok _ => .closed
  | .exchange (.insertEventData row), .ok r => Phase.note row r
  | .exchange (.addTrade _), .ok _ => .closed
  | .cancelling (.cancelOrder ..), .ok r => s.cancel r
  | .cancelling (.deleteOrder ..), .ok _ => .closed
  | .withdrawing (.transfer t), .ok r => s.send t r
  | .withdrawing (.saveWithdrawal _), .ok _ => .closed
  | _, _ => s

def protocol : Protocol Op Op.Res Empty Phase := ⟨may, next⟩

/-- What is known of the answers: the update of a trade is refused. -/
def Honest : (o : Op) → Except Empty o.Res → Prop
  | .exchange (.updateBinanceTrade _), .ok r => ∃ e, r = .error e
  | _, _ => True

theorem answer_honest (a : Answers) (o : Op) (w : World) : Honest o (answer a o w).1 := by
  cases o with
  | exchange o =>
    cases o with
    | updateBinanceTrade item => exact ⟨_, rfl⟩
    | _ => trivial
  | cancelling o => trivial
  | withdrawing o => trivial
  | settlement o => trivial

/-- Where a call that is allowed leads, whatever it is answered. -/
inductive Move : Phase → Op → Phase → Prop
  | idle (s : Phase) (o : Op) : Move s o s
  | order (req : PlaceOrder) (n : Binance.NewOrder) (o : OrderResponse) :
      Move (.placing req) (.exchange (.newOrder n)) (.ordered req o)
  | refuse (req : PlaceOrder) (n : Binance.NewOrder) :
      Move (.placing req) (.exchange (.newOrder n)) .closed
  | record (req : PlaceOrder) (o : OrderResponse) (row : BinanceTrade) :
      Move (.ordered req o) (.exchange (.insertInBinanceTrade row)) (.recorded row)
  | skip (req : PlaceOrder) (o : OrderResponse) (row : BinanceTrade) :
      Move (.ordered req o) (.exchange (.insertInBinanceTrade row)) .closed
  | settle (row : BinanceTrade) (q : WalletQuery) :
      Move (.recorded row) (.exchange (.updateWalletQuery q)) .closed
  | note (eventInfo : EventInfo) (row : TradeEvent) :
      Move (.heard eventInfo) (.exchange (.insertEventData row)) (.noted row.event)
  | pass (eventInfo : EventInfo) (row : TradeEvent) :
      Move (.heard eventInfo) (.exchange (.insertEventData row)) .closed
  | queue (item : Item) : Move (.noted item) (.exchange (.addTrade item)) .closed
  | cancel (req : CancelOrder) :
      Move (.cancelling req) (.cancelling (.cancelOrder req.symbol req.orderId)) (.cancelled req)
  | reject (req : CancelOrder) :
      Move (.cancelling req) (.cancelling (.cancelOrder req.symbol req.orderId)) .closed
  | delete (req : CancelOrder) :
      Move (.cancelled req) (.cancelling (.deleteOrder req.orderId req.user_id)) .closed
  | send (dto : WithdrawalDto) (t : Transfer) (r : Except Wallets.Err WithdrawlResponse) :
      Move (.asking dto) (.withdrawing (.transfer t)) (.sent dto t r)
  | leave (dto : WithdrawalDto) (obj : NewWithdrawal) :
      Move (.asking dto) (.withdrawing (.saveWithdrawal obj)) .closed
  | store (dto : WithdrawalDto) (t : Transfer) (r : Except Wallets.Err WithdrawlResponse)
      (obj : NewWithdrawal) :
      Move (.sent dto t r) (.withdrawing (.saveWithdrawal obj)) .closed

theorem next_move {s : Phase} {o : Op} (r : Except Empty o.Res) (hmay : may s o) :
    Move s o (next s o r) := by
  cases r with
  | error e => exact e.elim
  | ok r =>
    cases o with
    | exchange o =>
      cases o with
      | newOrder n =>
        obtain ⟨req, rfl⟩ := hmay
        cases r with
        | error e => exact .refuse req n
        | ok o => exact .order req n o
      | insertInBinanceTrade row =>
        obtain ⟨req, o, rfl, -⟩ := hmay
        cases r with
        | error e => exact .skip req o row
        | ok _ => exact .record req o row
      | updateWalletQuery q =>
        obtain ⟨row, rfl, -⟩ := hmay
        exact .settle row q
      | insertEventData row =>
        obtain ⟨eventInfo, rfl, -⟩ := hmay
        cases r with
        | error e => exact .pass eventInfo row
        | ok _ =>
          simp only [next, Phase.note]
          split
          · exact .note eventInfo row
          · exact .pass eventInfo row
      | addTrade item =>
        cases hmay
        exact .queue item
      | _ => exact .idle _ _
    | cancelling o =>
      cases o with
      | cancelOrder symbol orderId =>
        obtain ⟨req, rfl, rfl, rfl⟩ := hmay
        cases r with
        | error e => exact .reject req
        | ok data => exact .cancel req
      | deleteOrder orderId user_id =>
        obtain ⟨req, rfl, rfl, rfl⟩ := hmay
        exact .delete req
    | withdrawing o =>
      cases o with
      | transfer t =>
        obtain ⟨dto, rfl, -⟩ := hmay
        exact .send dto t r
      | saveWithdrawal obj =>
        rcases hmay with ⟨dto, rfl, -⟩ | ⟨dto, t, r, rfl, -⟩
        · exact .leave dto obj
        · exact .store dto t r obj
      | _ => exact .idle _ _
    | settlement o => exact .idle _ _

/-! ## Arrivals -/

@[simp] theorem answer_arrived (a : Answers) (o : Op) (w : World) :
    (answer a o w).2.arrived = w.arrived := by
  cases o <;> rfl

/-- What an arrival changes: a program starts. -/
structure Arrives (c : Request) (w w' : World) (started : List Thread) : Prop where
  started : started = [c.program]
  arrived : w'.arrived = w.arrived ++ [c]
  settlement : w'.settlement = w.settlement
  transfers : w'.transfers = w.transfers
  cancelled : w'.cancelled = w.cancelled
  binance : w'.binance = w.binance

theorem happen_arrives {c : Request} {w w' : World} {started : List Thread}
    (h : happen c w = some (w', started)) : Arrives c w w' started := by
  cases h
  exact ⟨rfl, rfl, rfl, rfl, rfl, rfl⟩

end Exchange.Funds
