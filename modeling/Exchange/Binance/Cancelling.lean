import Exchange.Binance.Controller

/-!
# Cancelling orders at the exchange

`BinanceController.cancelOrder`, as a program over the exchange and `binance_trade`. The
endpoint has no guard, and the user is the one in the body. The texts of the body are
put into the statement as they are, so what its condition selects is outside.
-/

namespace Exchange.Binance

open Async

/-- The body of a request to `cancelOrder`. -/
structure CancelOrder where
  symbol : String
  orderId : String
  user_id : String
  deriving DecidableEq

structure CancelResponse where
  success : Bool
  message : String
  data : String
  deriving DecidableEq

inductive CancelOp where
  | cancelOrder (symbol orderId : String)
  | deleteOrder (orderId user_id : String)

/-- The exchange answers with data that are passed on. -/
abbrev CancelOp.Res : CancelOp → Type
  | cancelOrder .. => String
  | deleteOrder .. => Unit

/-- What is outside: the exchange, the failures of the database, and the rows that the
condition of the statement selects. -/
structure CancelAnswers where
  cancelOrder : String → String → Except Err String
  fails : CancelOp → Option Err
  selects : String → String → BinanceTrade → Bool

def Tables.deleteOrder (db : Tables) (selects : BinanceTrade → Bool) : Tables :=
  { db with binance_trade := db.binance_trade.filter fun r => !selects r }

def World.performCancel (a : CancelAnswers) : Handler CancelOp CancelOp.Res Err World
  | .cancelOrder symbol orderId, w => (a.cancelOrder symbol orderId, w)
  | .deleteOrder orderId user_id, w =>
      match a.fails (.deleteOrder orderId user_id) with
      | some e => (.error e, w)
      | none => (.ok (), { w with db := w.db.deleteOrder (a.selects orderId user_id) })

/-- What the handler of errors answers is not returned. -/
def BinanceController.cancelOrder (req : CancelOrder) :
    Proc CancelOp CancelOp.Res Err (Option CancelResponse) :=
  Proc.tryCatch
    (do
      let data : String ← Proc.call (CancelOp.cancelOrder req.symbol req.orderId)
      Proc.call (CancelOp.deleteOrder req.orderId req.user_id)
      pure (some ⟨true, "Cancelled successfully", data⟩))
    fun _ => pure none

end Exchange.Binance
