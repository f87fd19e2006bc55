import Exchange.Text.Sql

/-!
# The statements of the exchange, as texts

The methods of `DatabaseService` on `binance_trade` and `trade_event` put their arguments
into the texts of their statements. `Call.text` is the text of each, from the same
pieces, and `Call.intended` is the statement that it is written for: the columns it
lists, with the arguments. Numbers and events are given as the texts that they
are printed as; a time is printed here (`sqlTime`).

Proved here: a statement is read back as it was intended iff its arguments are
faithful and it is not `updateBinanceTrade`, in which a comma is missing between two
assignments (`roundTrips_iff`).
-/

namespace Exchange.Binance

open Text.Sql

/-! ## Times -/

/-- Year, month and day, from the days since the first of January 1970. -/
def civil (days : Nat) : Nat × Nat × Nat :=
  -- years from March on, in eras of 400 years
  let z := days + 719468
  let doe := z % 146097
  let yoe := (doe - doe / 1460 + doe / 36524 - doe / 146096) / 365
  let doy := doe - (365 * yoe + yoe / 4 - yoe / 100)
  let mp := (5 * doy + 2) / 153
  let month := if mp < 10 then mp + 3 else mp - 9
  (yoe + z / 146097 * 400 + (if month ≤ 2 then 1 else 0), month, doy - (153 * mp + 2) / 5 + 1)

def padStart (width n : Nat) : List Char :=
  List.replicate (width - (Nat.toDigits 10 n).length) '0' ++ Nat.toDigits 10 n

/-- A year of more than four digits has six, after a sign. -/
def yearText (year : Nat) : List Char :=
  if year ≤ 9999 then padStart 4 year else '+' :: padStart 6 year

def isoText (year month day hour minute second milli : Nat) : List Char :=
  yearText year ++ '-' :: padStart 2 month ++ '-' :: padStart 2 day ++
    'T' :: padStart 2 hour ++ ':' :: padStart 2 minute ++ ':' :: padStart 2 second ++
    '.' :: padStart 3 milli ++ ['Z']

def toISOString (time : Nat) : List Char :=
  isoText (civil (time / 86400000)).1 (civil (time / 86400000)).2.1
    (civil (time / 86400000)).2.2 (time / 3600000 % 24) (time / 60000 % 60) (time / 1000 % 60)
    (time % 1000)

/-- `toISOString().slice(0, 19).replace('T', ' ')`. -/
def sqlTime (time : Nat) : List Char := ((toISOString time).take 19).replace 'T' ' '

example : sqlTime 1709210096789 = "2024-02-29 12:34:56".toList := by decide +kernel

/-- Neither a quote nor a backslash. -/
def plain (c : Char) : Bool := c ≠ '\'' && c ≠ '\\'

theorem plain_of_isDigit {c : Char} (h : c.isDigit = true) : plain c = true := by
  simp only [plain, Bool.and_eq_true, decide_eq_true_eq]
  constructor
  · rintro rfl
    cases h
  · rintro rfl
    cases h

theorem padStart_plain (width n : Nat) : (padStart width n).all plain = true := by
  rw [padStart, List.all_append, Bool.and_eq_true]
  constructor
  · rw [List.all_replicate]
    simp [plain]
  · rw [List.all_eq_true]
    intro c hc
    exact plain_of_isDigit (Nat.isDigit_of_mem_toDigits (by omega) (by omega) hc)

theorem yearText_plain (year : Nat) : (yearText year).all plain = true := by
  unfold yearText
  split
  · exact padStart_plain 4 year
  · rw [List.all_cons, padStart_plain]
    rfl

theorem isoText_plain (year month day hour minute second milli : Nat) :
    (isoText year month day hour minute second milli).all plain = true := by
  simp only [isoText, List.all_append, List.all_cons, List.all_nil, padStart_plain,
    yearText_plain]
  rfl

theorem toISOString_plain (time : Nat) : (toISOString time).all plain = true :=
  isoText_plain _ _ _ _ _ _ _

theorem replace_plain {cs : List Char} (h : cs.all plain = true) (c : Char) :
    (cs.replace c ' ').all plain = true := by
  induction cs with
  | nil => exact h
  | cons d cs ih =>
    rw [List.all_cons, Bool.and_eq_true] at h
    rw [List.replace_cons]
    split
    · rw [List.all_cons, h.2]
      rfl
    · rw [List.all_cons, h.1, ih h.2]
      rfl

theorem faithful_sqlTime (time : Nat) : faithful (sqlTime time) = true := by
  apply faithful_of_forall
  intro c hc
  have htake : ((toISOString time).take 19).all plain = true := by
    rw [List.all_eq_true]
    intro d hd
    exact List.all_eq_true.mp (toISOString_plain time) d (List.mem_of_mem_take hd)
  have hplain := List.all_eq_true.mp (replace_plain htake 'T') c hc
  simpa [plain] using hplain

/-! ## Statements -/

/-- A call of a method that puts its arguments into the text of a statement, `time` being when
it is made, and `event_date` and `full_event_data` the texts of the two events. -/
inductive Call where
  | insertInBinanceTradeTablensertInB (user_id clientOrderId price oQty exQty side type status fills
      symbol orderId cummulativeQuoteQty settled_price : String) (time : Nat)
  | updateBinanceTrade (clientOrderId side type newStatus symbol orderId : String) (date : Nat)
      (execQty settled_price : String)
  | insertEventData (clientOrderId event_date full_event_data : String)
  | getOrderFromTable (orderId user_id : String)
  | deleteOrder (orderId user_id : String)

namespace Call

/-- The texts that it is given. -/
def arguments : Call → List String
  | insertInBinanceTradeTablensertInB user_id clientOrderId price oQty exQty side type status fills
      symbol orderId cummulativeQuoteQty settled_price _ =>
      [user_id, clientOrderId, price, oQty, exQty, side, type, status, fills, symbol, orderId,
        cummulativeQuoteQty, settled_price]
  | updateBinanceTrade clientOrderId side type newStatus symbol orderId _ execQty settled_price =>
      [clientOrderId, side, type, newStatus, symbol, orderId, execQty, settled_price]
  | insertEventData clientOrderId event_date full_event_data =>
      [clientOrderId, event_date, full_event_data]
  | getOrderFromTable orderId user_id | deleteOrder orderId user_id => [orderId, user_id]

/-- `INSERT` with the columns of `binance_trade`, up to the first value. -/
def insertTrade : String :=
  "INSERT INTO binance_trade (`user_id`,`clientOrderId`, `price`, `origQty`,`executedQty`," ++
    "`status`,`type`,`side`,`fills`,`created_at`,`symbol`,`orderId`,`cummulativeQuoteQty`," ++
    "`settled_price`) VALUES ("

/-- The text up to the first quote. -/
def first : Call → String
  | insertInBinanceTradeTablensertInB .. => insertTrade
  | updateBinanceTrade .. => "UPDATE  binance_trade SET `status`="
  | insertEventData .. =>
      "INSERT INTO trade_event (`clientOrderId`, `event`, `full_event`) VALUES ("
  | getOrderFromTable .. => "SELECT * FROM  binance_trade WHERE `orderId`="
  | deleteOrder .. => "DELETE FROM  binance_trade WHERE `orderId`="

/-- What stands between quotes, and the text from the second quote to the next. -/
def quoted : Call → List (List Char × String)
  | insertInBinanceTradeTablensertInB user_id clientOrderId price oQty exQty side type status fills
      symbol orderId cummulativeQuoteQty settled_price time =>
      [(user_id.toList, ", "), (clientOrderId.toList, ", "), (price.toList, ", "),
        (oQty.toList, ", "), (exQty.toList, ", "), (status.toList, ", "), (type.toList, ", "),
        (side.toList, ", "), (fills.toList, ","), (sqlTime time, ","), (symbol.toList, ","),
        (orderId.toList, ","), (cummulativeQuoteQty.toList, ","), (settled_price.toList, ")")]
  | updateBinanceTrade clientOrderId side type newStatus symbol orderId date execQty
      settled_price =>
      [(newStatus.toList, ",`updated_at`="), (sqlTime date, ",`executedQty`="),
        (execQty.toList, "`settled_price`="),
        (settled_price.toList, " WHERE \n   `clientOrderId`="),
        (clientOrderId.toList, " AND `orderId`="), (orderId.toList, " AND `side`="),
        (side.toList, "\n    AND `type`="), (type.toList, " AND `symbol`="),
        (symbol.toList, " ")]
  | insertEventData clientOrderId event_date full_event_data =>
      [(clientOrderId.toList, ","), (event_date.toList, ","), (full_event_data.toList, ")")]
  | getOrderFromTable orderId user_id =>
      [(orderId.toList, " AND `user_id`="),
        (user_id.toList, " AND DATE(`created_at`)=DATE(NOW())")]
  | deleteOrder orderId user_id =>
      [(orderId.toList, " AND `user_id`="), (user_id.toList, "")]

def template (call : Call) : List (List Char × List Char) :=
  call.quoted.map fun x => (x.1, x.2.toList)

/-- The text of the statement. -/
def text (call : Call) : List Char := render call.first.toList call.template

/-- The columns that it lists, with the arguments for them. -/
def intended : Call → Statement
  | insertInBinanceTradeTablensertInB user_id clientOrderId price oQty exQty side type status fills
      symbol orderId cummulativeQuoteQty settled_price time =>
      .insert "binance_trade".toList
        (["user_id", "clientOrderId", "price", "origQty", "executedQty", "status", "type", "side",
          "fills", "created_at", "symbol", "orderId", "cummulativeQuoteQty",
          "settled_price"].map String.toList)
        [user_id.toList, clientOrderId.toList, price.toList, oQty.toList, exQty.toList,
          status.toList, type.toList, side.toList, fills.toList, sqlTime time, symbol.toList,
          orderId.toList, cummulativeQuoteQty.toList, settled_price.toList]
  | updateBinanceTrade clientOrderId side type newStatus symbol orderId date execQty
      settled_price =>
      .update "binance_trade".toList
        [("status".toList, newStatus.toList), ("updated_at".toList, sqlTime date),
          ("executedQty".toList, execQty.toList), ("settled_price".toList, settled_price.toList)]
        [.equals "clientOrderId".toList clientOrderId.toList,
          .equals "orderId".toList orderId.toList, .equals "side".toList side.toList,
          .equals "type".toList type.toList, .equals "symbol".toList symbol.toList]
  | insertEventData clientOrderId event_date full_event_data =>
      .insert "trade_event".toList (["clientOrderId", "event", "full_event"].map String.toList)
        [clientOrderId.toList, event_date.toList, full_event_data.toList]
  | getOrderFromTable orderId user_id =>
      .select "binance_trade".toList
        [.equals "orderId".toList orderId.toList, .equals "user_id".toList user_id.toList,
          .today "created_at".toList]
  | deleteOrder orderId user_id =>
      .delete "binance_trade".toList
        [.equals "orderId".toList orderId.toList, .equals "user_id".toList user_id.toList]

/-- Its text is read as one statement, the intended one. -/
def RoundTrips (call : Call) : Prop := parse call.text = some call.intended

instance (call : Call) : Decidable call.RoundTrips := inferInstanceAs (Decidable (_ = _))

/-- It is not `updateBinanceTrade`. -/
def isComplete : Call → Bool
  | updateBinanceTrade .. => false
  | _ => true

theorem template_ne_nil (call : Call) : call.template ≠ [] := by
  cases call <;> exact List.cons_ne_nil _ _

theorem values_intended (call : Call) : call.intended.values = call.template.map Prod.fst := by
  cases call <;> simp [intended, template, quoted, Statement.values, Condition.values]

/-- The times need no condition. -/
theorem faithful_template (call : Call) :
    (∀ a ∈ call.template.map Prod.fst, faithful a = true) ↔
      ∀ a ∈ call.arguments, faithful a.toList = true := by
  cases call with
  | insertInBinanceTradeTablensertInB =>
    simp [template, quoted, arguments, faithful_sqlTime]
    tauto
  | updateBinanceTrade =>
    simp [template, quoted, arguments, faithful_sqlTime]
    tauto
  | _ => simp [template, quoted, arguments]

theorem run_insertTrade : run .between insertTrade.toList =
    (.between, .word "INSERT".toList :: .word "INTO".toList :: .word "binance_trade".toList ::
      .symbol '(' :: .name "user_id".toList :: .symbol ',' :: .name "clientOrderId".toList ::
      .symbol ',' :: .name "price".toList :: .symbol ',' :: .name "origQty".toList ::
      .symbol ',' :: .name "executedQty".toList :: .symbol ',' :: .name "status".toList ::
      .symbol ',' :: .name "type".toList :: .symbol ',' :: .name "side".toList ::
      .symbol ',' :: .name "fills".toList :: .symbol ',' :: .name "created_at".toList ::
      .symbol ',' :: .name "symbol".toList :: .symbol ',' :: .name "orderId".toList ::
      .symbol ',' :: .name "cummulativeQuoteQty".toList :: .symbol ',' ::
      .name "settled_price".toList :: .symbol ')' :: .word "VALUES".toList ::
      [.symbol '(']) := by
  decide +kernel

theorem neutral_insertTrade : neutral insertTrade.toList = true := by
  rw [neutral, run_insertTrade]
  rfl

/-- The pieces of the templates are read as they stand. -/
theorem fits (call : Call) : Fits call.first.toList (blankAfter call.template) := by
  cases call with
  | insertInBinanceTradeTablensertInB =>
    refine ⟨neutral_insertTrade, ?_⟩
    simp only [template, quoted, List.map, blankAfter, List.forall_mem_cons]
    decide +kernel
  | _ =>
    simp only [Fits, first, template, quoted, List.map, blankAfter, List.forall_mem_cons]
    decide +kernel

/-- What the templates are meant for: between two assignments of `updateBinanceTrade` there
is no comma. -/
theorem statement_intended (call : Call) :
    statement (Text.Sql.intended call.first.toList (blankAfter call.template)) =
      if call.isComplete then some call.intended else none := by
  cases call with
  | insertInBinanceTradeTablensertInB =>
    simp only [first, template, quoted, List.map, blankAfter, Text.Sql.intended, run_insertTrade]
    rfl
  | _ =>
    simp only [first, template, quoted, List.map, blankAfter, Text.Sql.intended]
    rfl

end Call

/-- **When a statement carries its arguments**: they have no quote, and a backslash only before
`%` or `_`. `updateBinanceTrade` is never read as it was intended. -/
theorem roundTrips_iff (call : Call) :
    call.RoundTrips ↔
      call.isComplete = true ∧ ∀ a ∈ call.arguments, faithful a.toList = true := by
  unfold Call.RoundTrips Call.text
  rw [parse_render_iff call.template_ne_nil call.fits call.values_intended,
    call.statement_intended, call.faithful_template]
  cases call.isComplete <;> simp

/-- A user id with a quote in it goes on as a part of the statement: an order that is to be
deleted for one user is deleted for all. The update of an order is no statement. -/
theorem user_id_read_as_condition :
    ¬ (Call.deleteOrder "17" "x' OR '1'='1").RoundTrips ∧
      (lex (Call.deleteOrder "17" "x' OR '1'='1").text).map literals =
        some (["17", "x", "1", "1"].map String.toList) ∧
      ¬ (Call.updateBinanceTrade "c1" "BUY" "LIMIT" "FILLED" "BNBUSDT" "17" 1709210096789 "1"
        "250").RoundTrips := by
  decide +kernel

end Exchange.Binance
