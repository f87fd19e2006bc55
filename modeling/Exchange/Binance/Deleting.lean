import Exchange.Binance.Cancelling
import Exchange.Binance.Statements
import Exchange.Text.Where

/-!
# What a cancellation deletes

`deleteOrder` puts the texts of a request into the condition of its statement. Here
`deleted` reads that condition, and a database that does what is read (`Reads`) may do
anything with a text that is not.

Proved here: with faithful texts the rows of that order and that user are selected, and
no others (`Reads.faithful`). With a quote in the text of the user, the condition goes on:
the rows with any value in any column can be selected (`Reads.orColumn`), or all rows
(`Reads.orAlways`).
-/

namespace Exchange.Binance

open Text.Sql

/-- The columns of `binance_trade` that the statements name. -/
def tradeColumns : List (List Char) :=
  ["user_id", "clientOrderId", "price", "origQty", "executedQty", "status", "type", "side", "fills",
    "created_at", "updated_at", "symbol", "orderId", "cummulativeQuoteQty",
    "settled_price"].map String.toList

/-- The condition of `deleteOrder`, if its text is a deletion from `binance_trade`. -/
def deleted (orderId user_id : String) : Option (List (List Comparison)) :=
  (lex (Call.deleteOrder orderId user_id).text).bind fun ts =>
    (deletion tradeColumns ts).bind fun (table, parts) =>
      if table = "binance_trade".toList then some parts else none

/-- The statement selects what is read in its text. -/
def CancelAnswers.Reads (K : Collation BinanceTrade) (a : CancelAnswers) : Prop :=
  ∀ orderId user_id parts, deleted orderId user_id = some parts →
    ∀ r, a.selects orderId user_id r = K.selects parts r

/-- The rows that are selected when a text that is not read selects none. -/
def deletes (K : Collation BinanceTrade) (orderId user_id : String) (r : BinanceTrade) : Bool :=
  match deleted orderId user_id with
  | some parts => K.selects parts r
  | none => false

theorem deletes_of_deleted {K : Collation BinanceTrade} {orderId user_id : String}
    {parts : List (List Comparison)} (h : deleted orderId user_id = some parts)
    (r : BinanceTrade) : deletes K orderId user_id r = K.selects parts r := by
  rw [deletes, h]

/-- A text after which the condition goes on with another column. -/
def orColumn (x column y : String) : String := x ++ "' OR `" ++ column ++ "`='" ++ y

/-- A text after which the condition goes on with what is always true. -/
def orAlways (x : String) : String := x ++ "' OR '1'='1"

section Reading

variable {orderId user_id x column y : String}

theorem deleted_of_lex {ts : List Token} {parts : List (List Comparison)}
    (hlex : lex (Call.deleteOrder orderId user_id).text = some ts)
    (hts : deletion tradeColumns ts = some ("binance_trade".toList, parts)) :
    deleted orderId user_id = some parts := by
  rw [deleted, hlex, Option.bind_some, hts]
  rfl

/-- What stands between the texts when another column is compared. -/
def columnPiece (column : List Char) : List Char := " OR `".toList ++ (column ++ "`=".toList)

theorem run_columnPiece {s : List Char} (h : ∀ c ∈ s, c ≠ Char.ofNat 96) :
    run .between (columnPiece s) = (.between, [.word "OR".toList, .name s, .symbol '=']) := by
  have hfirst : run .between " OR `".toList = (.name [], [.word "OR".toList]) := by
    decide +kernel
  have hlast : run (.name s) "`=".toList = (.between, [.name s, .symbol '=']) := by
    simp [run, step, start]
    decide
  simp only [columnPiece, run_append, hfirst, run_name h, List.nil_append, hlast]
  rfl

theorem tradeColumns_plain : ∀ s ∈ tradeColumns, ∀ c ∈ s, c ≠ Char.ofNat 96 := by
  have hall : (tradeColumns.all fun s => s.all fun c => c ≠ Char.ofNat 96) = true := rfl
  simpa using hall

/-- **Faithful texts select the rows of the order and the user.** -/
theorem deleted_faithful (ho : faithful orderId.toList = true)
    (hu : faithful user_id.toList = true) : deleted orderId user_id = some
      [[.column "orderId".toList orderId.toList, .column "user_id".toList user_id.toList]] := by
  apply deleted_of_lex
  · exact lex_render (Call.template_ne_nil _) (Call.fits _)
      (by simp [Call.template, Call.quoted, ho, hu])
  · show deletion _ _ = some (_, [[("orderId".toList, orderId.toList),
      ("user_id".toList, user_id.toList)].map fun c => .column c.1 c.2])
    exact deletion_of_statement (Call.statement_intended (.deleteOrder orderId user_id))
      (by simp; decide)

/-- The template that a text of `orColumn` fills. -/
def columnTemplate (o x column y : List Char) : List (List Char × List Char) :=
  [(o, " AND `user_id`=".toList), (x, columnPiece column), (y, [])]

/-- The template that a text of `orAlways` fills. -/
def alwaysTemplate (o x : List Char) : List (List Char × List Char) :=
  [(o, " AND `user_id`=".toList), (x, " OR ".toList), (['1'], ['=']), (['1'], [])]

/-- The quotes of a text are those of the statement. -/
theorem text_deleteOrder_quoted {inner y : List Char} (hu : user_id.toList =
    x.toList ++ '\'' :: (inner ++ '\'' :: y)) : (Call.deleteOrder orderId user_id).text =
      render "DELETE FROM  binance_trade WHERE `orderId`=".toList
        [(orderId.toList, " AND `user_id`=".toList), (x.toList, inner), (y, [])] := by
  show render _ [(orderId.toList, " AND `user_id`=".toList), (user_id.toList, [])] = _
  rw [hu, render, render_quoted]
  rfl

theorem text_orColumn : (Call.deleteOrder orderId (orColumn x column y)).text =
    render "DELETE FROM  binance_trade WHERE `orderId`=".toList
      (columnTemplate orderId.toList x.toList column.toList y.toList) :=
  text_deleteOrder_quoted (by simp [orColumn, columnPiece])

theorem text_orAlways : (Call.deleteOrder orderId (orAlways x)).text =
    render "DELETE FROM  binance_trade WHERE `orderId`=".toList
      (alwaysTemplate orderId.toList x.toList) := by
  have hu : (orAlways x).toList =
      x.toList ++ '\'' ::
        (" OR ".toList ++ '\'' :: (['1'] ++ '\'' :: (['='] ++ '\'' :: ['1']))) := by
    simp [orAlways]
  rw [text_deleteOrder_quoted hu, render, render, render_quoted]
  rfl

theorem fits_columnTemplate {s : List Char} (hs : s ∈ tradeColumns) (o x y : List Char) :
    Fits "DELETE FROM  binance_trade WHERE `orderId`=".toList
      (blankAfter (columnTemplate o x s y)) := by
  have hpiece := run_columnPiece (tradeColumns_plain s hs)
  have hneutral : neutral (columnPiece s) = true := by
    rw [neutral, hpiece]
    rfl
  have hends : ends (columnPiece s) = true := rfl
  refine ⟨by decide +kernel, ?_⟩
  simp only [columnTemplate, blankAfter, List.forall_mem_cons, hneutral, hends, List.not_mem_nil,
    false_implies, implies_true, and_true]
  decide +kernel

theorem fits_alwaysTemplate (o x : List Char) :
    Fits "DELETE FROM  binance_trade WHERE `orderId`=".toList
      (blankAfter (alwaysTemplate o x)) := by
  simp only [Fits, alwaysTemplate, blankAfter, List.forall_mem_cons]
  decide +kernel

theorem names_or (o u : List Char) {c : Comparison} (hc : c.names tradeColumns = true) :
    ∀ part ∈ [[.column "orderId".toList o, .column "user_id".toList u], [c]], ∀ d ∈ part,
      Comparison.names tradeColumns d = true := by
  simp only [List.forall_mem_cons, Comparison.names_column, hc, List.not_mem_nil, false_implies,
    implies_true, and_true]
  decide

/-- **A quote lets a request select by any column.** -/
theorem deleted_orColumn (ho : faithful orderId.toList = true) (hx : faithful x.toList = true)
    (hcolumn : column.toList ∈ tradeColumns) (hy : faithful y.toList = true) :
    deleted orderId (orColumn x column y) = some
      [[.column "orderId".toList orderId.toList, .column "user_id".toList x.toList],
        [.column column.toList y.toList]] := by
  have hlex : lex (render _ (columnTemplate orderId.toList x.toList column.toList y.toList)) =
      some _ :=
    lex_render (List.cons_ne_nil _ _) (fits_columnTemplate hcolumn _ _ _)
      (by simp [columnTemplate, ho, hx, hy])
  refine deleted_of_lex (text_orColumn ▸ hlex) ?_
  simp only [columnTemplate, blankAfter, intended, run_columnPiece (tradeColumns_plain _ hcolumn)]
  exact deletion_of_alternatives _ rfl rfl (names_or _ _ (by simpa using hcolumn))

/-- **A quote lets a request select all rows.** -/
theorem deleted_orAlways (ho : faithful orderId.toList = true) (hx : faithful x.toList = true) :
    deleted orderId (orAlways x) = some
      [[.column "orderId".toList orderId.toList, .column "user_id".toList x.toList],
        [.text ['1'] ['1']]] := by
  have hlex : lex (render _ (alwaysTemplate orderId.toList x.toList)) = some _ :=
    lex_render (List.cons_ne_nil _ _) (fits_alwaysTemplate _ _)
      (by simp [alwaysTemplate, ho, hx]; decide)
  refine deleted_of_lex (text_orAlways ▸ hlex) ?_
  exact deletion_of_alternatives _ rfl rfl (names_or _ _ (Comparison.names_text ..))

/-! What a database that reads the texts selects. -/

variable {K : Collation BinanceTrade} {a : CancelAnswers}

theorem CancelAnswers.Reads.faithful (h : a.Reads K) (ho : faithful orderId.toList = true)
    (hu : Text.Sql.faithful user_id.toList = true) (r : BinanceTrade) :
    a.selects orderId user_id r = (K.column "orderId".toList r orderId.toList &&
      K.column "user_id".toList r user_id.toList) := by
  simp [h _ _ _ (deleted_faithful ho hu)]

theorem CancelAnswers.Reads.orColumn (h : a.Reads K) (ho : Text.Sql.faithful orderId.toList = true)
    (hx : Text.Sql.faithful x.toList = true) (hcolumn : column.toList ∈ tradeColumns)
    (hy : Text.Sql.faithful y.toList = true) (r : BinanceTrade) :
    a.selects orderId (Binance.orColumn x column y) r =
      (K.column "orderId".toList r orderId.toList && K.column "user_id".toList r x.toList ||
        K.column column.toList r y.toList) := by
  simp [h _ _ _ (deleted_orColumn ho hx hcolumn hy)]

theorem CancelAnswers.Reads.orAlways (h : a.Reads K) (ho : Text.Sql.faithful orderId.toList = true)
    (hx : Text.Sql.faithful x.toList = true) (r : BinanceTrade) :
    a.selects orderId (Binance.orAlways x) r = true := by
  simp [h _ _ _ (deleted_orAlways ho hx)]

end Reading

end Exchange.Binance
