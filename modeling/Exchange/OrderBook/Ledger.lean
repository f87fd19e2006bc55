import Exchange.OrderBook.Sharing
import Exchange.OrderBook.Walk

/-!
# Fills and trades

An execution records a trade and appends an entry to the `fills` of both
orders. The trade has the price of the resting order; a limit matcher gives one
of the two entries the limit of the incoming order instead.

`ledger_of_pricesAgree`: along every run whose orders only reach resting orders
at their own limit, what is appended to the fills of an order are its trades.
-/

namespace Exchange

open Async OrderBookService Store

/-! ## Entries -/

/-- The entry of a trade with its recorded size and price. -/
def NewTrade.fill (t : NewTrade) : Fill := ⟨roundTo 8 t.size, t.price.map (roundTo 8)⟩

def Trade.fill (t : Trade) : Fill := ⟨t.size, t.price⟩

/-- The trade that a write records. -/
def Write.recorded : Write → Option Fill
  | .trade t _ => some t.fill
  | _ => none

/-- The trade that a write records, if the order with key `id` takes part in it. -/
def Write.executes (id : Nat) : Write → Option Fill
  | .trade t x => if x.taker.id = id ∨ x.maker.id = id then some t.fill else none
  | _ => none

/-- The entries in the fills of the order with key `id`. -/
def Tables.fillsOf (db : Tables) (id : Nat) : List Fill :=
  (db.tbl_order_books.rows.find? fun r => r.id = id).elim [] fun r => parseFills r.fills

/-! ## One plan -/

/-- The entries of an execution at which a matcher gives both orders the price of the trade. -/
structure Agrees (m : Matcher) (price : Option ℚ) (f : OrderBook × ℚ) : Prop where
  size : roundTo 8 f.2 = f.2
  stored : f.1.price.map (roundTo 8) = f.1.price
  limit : m.type = .Limit → f.1.price = price

/-- Where a limit order meets its own price, and in every market order, all
entries have the price of the resting order. -/
def OrderBookService.Matcher.SamePrice (m : Matcher) : Prop :=
  ∀ price price', (m.type = .Limit → price' = price) →
    m.fullTakerPrice price price' = price' ∧ m.fullMakerPrice price price' = price' ∧
    m.partTakerPrice price price' = price' ∧ m.partMakerPrice price price' = price'

theorem Request.matcher_samePrice (req : Request) : req.matcher.SamePrice := by
  intro price price' h
  rcases req with ⟨_, side, _, _, _⟩ | ⟨_, side, _, _⟩
  · cases side <;> (rw [h rfl]; exact ⟨rfl, rfl, rfl, rfl⟩)
  · cases side <;> exact ⟨rfl, rfl, rfl, rfl⟩

theorem Agrees.fill {m : Matcher} {order r : OrderBook} {q : ℚ} (h : Agrees m order.price (r, q))
    (is_buyer now : Nat) : (m.trade order r q is_buyer now).fill = ⟨q, r.price⟩ := by
  rw [NewTrade.fill, Matcher.trade, h.size, h.stored]

/-- The fills of a row after some writes are its fills before and the trades it took part in. -/
def Ledger (ws : List Write) (r : OrderBook) : Prop :=
  parseFills (rowAfter ws r).fills = parseFills r.fills ++ ws.filterMap (Write.executes r.id)

theorem Ledger.append {ws ws' : List Write} {r : OrderBook} (h : Ledger ws r)
    (hid : (rowAfter ws r).id = r.id) (h' : Ledger ws' (rowAfter ws r)) :
    Ledger (ws ++ ws') r := by
  unfold Ledger at *
  rw [hid] at h'
  rw [rowAfter, List.foldl_append, List.filterMap_append, ← List.append_assoc, ← h]
  exact h'

/-- The row and the matcher's copies of the orders have the same fills. -/
structure SameFills (order : OrderBook) (L : List OrderBook) (row : OrderBook) : Prop where
  own : row.id = order.id → parseFills row.fills = parseFills order.fills
  resting : ∀ r ∈ L, row.id = r.id → parseFills row.fills = parseFills r.fills

/-- One pass: both orders get the entry of the trade. -/
theorem ledger_three {a b : Nat} (hne : a ≠ b) {u₁ u₂ : OrderUpdate} {t : NewTrade} {x : Execution}
    {row : OrderBook} (hx : ∀ id, x.taker.id = id ∨ x.maker.id = id ↔ id = a ∨ id = b)
    (h₁ : row.id = a → u₁.fills = parseFills row.fills ++ [t.fill])
    (h₂ : row.id = b → u₂.fills = parseFills row.fills ++ [t.fill]) :
    Ledger [.update a u₁ x, .trade t x, .update b u₂ x] row := by
  unfold Ledger rowAfter
  simp only [List.foldl_cons, List.foldl_nil, Write.onRow, List.filterMap_cons, List.filterMap_nil,
    Write.executes, hx]
  by_cases ha : row.id = a
  · have hb : row.id ≠ b := fun e => hne (ha ▸ e)
    rw [if_pos ha, if_neg (by exact hb), if_pos (.inl ha)]
    exact h₁ ha
  · rw [if_neg ha]
    by_cases hb : row.id = b
    · rw [if_pos hb, if_pos (.inr hb)]
      exact h₂ hb
    · rw [if_neg hb, if_neg (not_or.mpr ⟨ha, hb⟩)]
      exact (List.append_nil _).symm

section Passes

variable {m : Matcher} {order r row : OrderBook} {L : List OrderBook}

theorem ledger_fullWrites (hm : m.SamePrice) (hne : r.id ≠ order.id)
    (ha : Agrees m order.price (r, order.size)) (hrow : SameFills order (r :: L) row)
    (t₁ t₂ t₃ : Nat) : Ledger (m.fullWrites order r t₁ t₂ t₃) row := by
  obtain ⟨htaker, hmaker, -, -⟩ := hm order.price r.price ha.limit
  apply ledger_three hne.symm
  · exact fun id => by simp only [eq_comm]
  · intro hid
    rw [ha.fill, htaker, hrow.own hid]
  · intro hid
    rw [ha.fill, hrow.resting r List.mem_cons_self hid, hmaker]
    split <;> rfl

theorem ledger_partWrites (hm : m.SamePrice) (hne : r.id ≠ order.id)
    (ha : Agrees m order.price (r, r.size)) (hrow : SameFills order (r :: L) row)
    (t₁ t₂ : Nat) : Ledger (m.partWrites order r t₁ t₂) row := by
  obtain ⟨-, -, htaker, hmaker⟩ := hm order.price r.price ha.limit
  apply ledger_three hne
  · exact fun id => by simp only [eq_comm, or_comm]
  · intro hid
    rw [ha.fill, hmaker, hrow.resting r List.mem_cons_self hid]
  · intro hid
    rw [ha.fill, Matcher.partFills, htaker, hrow.own hid]

theorem matching_partWrites (m : Matcher) (order r : OrderBook) (t₁ t₂ : Nat) :
    ∀ wr ∈ m.partWrites order r t₁ t₂, wr.Matching := by
  simp [Matcher.partWrites, Write.Matching]

/-- A pass leaves the rows of other orders. -/
theorem rowAfter_partWrites_other (hr : row.id ≠ r.id) (horder : row.id ≠ order.id)
    {t₁ t₂ : Nat} : rowAfter (m.partWrites order r t₁ t₂) row = row := by
  apply rowAfter_untouched
  rw [touches_partWrites]
  exact not_or.mpr ⟨hr, horder⟩

/-- After a pass that takes the whole of `r`, the row agrees with what the loop goes on with. -/
theorem SameFills.rest (hrow : SameFills order (r :: L) row) (hne : r.id ≠ order.id)
    (hL : ∀ r' ∈ L, r'.id ≠ r.id ∧ r'.id ≠ order.id) (t₁ t₂ : Nat) :
    SameFills (m.rest order r) L (rowAfter (m.partWrites order r t₁ t₂) row) := by
  have hid := (rowAfter_worked (matching_partWrites m order r t₁ t₂) row).id
  constructor
  · intro hown
    rw [hid, Matcher.rest_id] at hown
    have hnr : row.id ≠ r.id := fun e => hne (e ▸ hown)
    simp [rowAfter, Matcher.partWrites, Write.onRow, hown, hown ▸ hnr, OrderUpdate.apply,
      Matcher.rest, parseFills]
  · intro r' hr' hrid
    rw [hid] at hrid
    obtain ⟨hnr, hno⟩ := hL r' hr'
    rw [rowAfter_partWrites_other (hrid ▸ hnr) (hrid ▸ hno)]
    exact hrow.resting r' (List.mem_cons_of_mem _ hr') hrid

end Passes

/-- **Every plan keeps the ledger**, if the prices of all its executions agree. -/
theorem Plan.ledger {m : Matcher} {order : OrderBook} {L : List OrderBook} {ws : List Write}
    (h : Plan m order L ws) (hm : m.SamePrice) (hnd : (L.map OrderBook.id).Nodup)
    (hne : ∀ r ∈ L, r.id ≠ order.id)
    (hagrees : ∀ f ∈ Plan.fills m order L, Agrees m order.price f) {row : OrderBook}
    (hrow : SameFills order L row) : Ledger ws row := by
  induction h generalizing row with
  | nil | stop => simp [Ledger, rowAfter]
  | @full order r L t₁ t₂ t₃ h hs =>
    apply ledger_fullWrites hm (hne r List.mem_cons_self) _ hrow
    apply hagrees
    rw [Plan.fills_full h hs]
    exact List.mem_singleton_self _
  | @part order r L ws t₁ t₂ h hs hp ih =>
    rw [Plan.fills_part h hs, List.forall_mem_cons] at hagrees
    rw [List.map_cons, List.nodup_cons] at hnd
    rw [List.forall_mem_cons] at hne
    have hpass := ledger_partWrites hm hne.1 hagrees.1 hrow t₁ t₂
    have hid := (rowAfter_worked (matching_partWrites m order r t₁ t₂) row).id
    apply hpass.append hid
    apply ih hnd.2 hne.2 hagrees.2
    apply hrow.rest hne.1
    intro r' hr'
    exact ⟨fun e => hnd.1 (e ▸ List.mem_map_of_mem hr'), hne.2 r' hr'⟩

/-! ## Trades and keys -/

theorem Tables.writeAll_trades_fill (db : Tables) {ws : List Write} (h : ∀ wr ∈ ws, wr.Matching) :
    (db.writeAll ws).tbl_trades.rows.map Trade.fill =
      db.tbl_trades.rows.map Trade.fill ++ ws.filterMap Write.recorded := by
  obtain ⟨rows, hrows, hfill⟩ := db.writeAll_reads (φ := Trade.fill) (ψ := Write.recorded)
    (fun _ _ _ => rfl) (fun _ _ _ => rfl) h
  rw [hrows, List.map_append, hfill]

theorem Tables.writeAll_next (db : Tables) {ws : List Write} (h : ∀ wr ∈ ws, wr.Matching) :
    (db.writeAll ws).tbl_order_books.next = db.tbl_order_books.next := by
  induction ws generalizing db with
  | nil => rfl
  | cons wr ws ih =>
    rw [List.forall_mem_cons] at h
    refine (ih _ h.2).trans ?_
    cases wr with
    | order o now => exact h.1.elim
    | update id u x => rfl
    | trade t x => rfl

/-- The keys of the orders that a write executes. -/
def Write.Below (next : Nat) (wr : Write) : Prop :=
  ∀ x ∈ wr.traded, x.taker.id < next ∧ x.maker.id < next

theorem Write.Below.executes_eq {next : Nat} {wr : Write} (h : wr.Below next) {id : Nat}
    (hid : next ≤ id) : wr.executes id = none := by
  cases wr with
  | order o now => rfl
  | update id u x => rfl
  | trade t x =>
    obtain ⟨htaker, hmaker⟩ := h x rfl
    apply if_neg
    omega

theorem Plan.maker_mem {m : Matcher} {order : OrderBook} {L : List OrderBook} {ws : List Write}
    (h : Plan m order L ws) {t : NewTrade} {x : Execution} (hm : Write.trade t x ∈ ws) :
    x.maker ∈ L := by
  have htaken : (x.maker, t.size) ∈ ws.filterMap Write.taken := List.mem_filterMap.mpr ⟨_, hm, rfl⟩
  rw [h.taken_eq] at htaken
  exact (Greedy.fills_prefix order.size L).subset (List.mem_map_of_mem htaken)

variable {env : Env} {req : Request} {w w₀ : World}

theorem Request.inserted_next :
    (req.inserted env w).tbl_order_books.next = w.db.tbl_order_books.next + 1 := by
  simp only [Request.inserted, Tables.write, Tables.saveOrderBook, Request.toSave_id]
  exact max_eq_right (Nat.le_succ _)

theorem Handled.next {r : Except Err Response} {w' : World} {ws done : List Write}
    (h : Handled env req w r w' ws done) :
    w'.db.tbl_order_books.next = w.db.tbl_order_books.next + 1 := by
  rw [h.db, Tables.writeAll_next _ h.matching, Request.inserted_next]

/-! ## Runs -/

/-- The condition on a step: the order only reaches resting orders at its own
stored limit, if it has one, and takes sizes that the columns store as they are. -/
def PricesAgree (req : Request) (w : World) : Prop :=
  ∀ f ∈ req.reached w, roundTo 8 f.2 = f.2 ∧
    (req.price.isSome = true → f.1.price = req.price.map (roundTo 8))

/-- Prices in the table have the places of their column. -/
def Tables.PricesStored (db : Tables) : Prop :=
  ∀ r ∈ db.tbl_order_books.rows, r.price.map (roundTo 8) = r.price

/-- Since `w₀` the journal has grown by `log`, the trades by those in the log,
and the fills of each order by the trades in the log that execute it. -/
structure LedgerSince (w₀ w : World) (log : List Entry) : Prop where
  journal : w.journal = w₀.journal ++ log
  trades : w.db.tbl_trades.rows.map Trade.fill =
    w₀.db.tbl_trades.rows.map Trade.fill ++ (log.map Entry.write).filterMap Write.recorded
  fills : ∀ r ∈ w.db.tbl_order_books.rows, parseFills r.fills =
    w₀.db.fillsOf r.id ++ (log.map Entry.write).filterMap (Write.executes r.id)

/-- What a run keeps. -/
structure InLedger (w₀ w : World) : Prop where
  stored : w.db.PricesStored
  next : w₀.db.tbl_order_books.next ≤ w.db.tbl_order_books.next
  ledger : ∃ log, LedgerSince w₀ w log ∧ ∀ e ∈ log, e.write.Below w.db.tbl_order_books.next

theorem Tables.fillsOf_of_next_le {db : Tables} {id : Nat} (h : db.tbl_order_books.next ≤ id) :
    db.fillsOf id = [] := by
  have hnone : (db.tbl_order_books.rows.find? fun r => r.id = id) = none := by
    apply List.find?_eq_none.mpr
    intro r hr he
    have hlt := db.tbl_order_books.fresh r hr
    have hid : r.id = id := of_decide_eq_true he
    omega
  rw [Tables.fillsOf, hnone]
  rfl

theorem Tables.fillsOf_of_mem {db : Tables} {r : OrderBook} (h : r ∈ db.tbl_order_books.rows) :
    db.fillsOf r.id = parseFills r.fills := by
  cases hfind : db.tbl_order_books.rows.find? fun r' => r'.id = r.id with
  | none => simpa using List.find?_eq_none.mp hfind r h
  | some r' =>
    have hid : r'.id = r.id := by simpa using List.find?_some hfind
    rw [Tables.fillsOf, hfind, Table.eq_of_key (List.mem_of_find?_eq_some hfind) h hid]
    rfl

theorem InLedger.start (h : w₀.db.PricesStored) : InLedger w₀ w₀ := by
  refine ⟨h, le_refl _, [], ⟨(List.append_nil _).symm, (List.append_nil _).symm, ?_⟩, by simp⟩
  intro r hr
  rw [Tables.fillsOf_of_mem hr]
  exact (List.append_nil _).symm

theorem request_agrees (hw : w.db.PricesStored) (hC : PricesAgree req w) :
    ∀ f ∈ Plan.fills req.matcher (req.taker env w) (req.resting w),
      Agrees req.matcher (req.taker env w).price f := by
  rw [plan_fills]
  intro f hf
  obtain ⟨hsize, hlimit⟩ := hC f hf
  have hrest : f.1 ∈ req.resting w :=
    (Greedy.fills_prefix req.size (req.resting w)).subset (List.mem_map_of_mem hf)
  refine ⟨hsize, hw f.1 (Request.resting_rows hrest).1, fun hm => ?_⟩
  rw [Request.taker_price]
  apply hlimit
  cases req with
  | limit dto => rfl
  | market dto =>
    rcases dto with ⟨_, side, _, _⟩
    cases side <;> cases hm

/-- The row inserted for an order and the resting rows have the fills that its matcher holds. -/
theorem sameFills_inserted {row : OrderBook}
    (hrow : row ∈ w.db.tbl_order_books.rows ++ [req.row env w]) :
    SameFills (req.taker env w) (req.resting w) row := by
  constructor
  · intro hid
    rw [Request.row_of_next hrow hid]
    rfl
  · intro r hr hid
    rw [Request.row_of_resting hrow hr hid]

/-- The price of the new row is rounded when it is stored, and no later write changes a price. -/
theorem Handled.pricesStored {r : Except Err Response} {w' : World} {ws done : List Write}
    (h : Handled env req w r w' ws done) (hw : w.db.PricesStored) : w'.db.PricesStored := by
  intro row' hrow'
  rw [h.rows] at hrow'
  obtain ⟨row, hrow, rfl⟩ := List.mem_map.mp hrow'
  rw [(rowAfter_worked h.matching row).price]
  rcases List.mem_append.mp hrow with hrow | hrow
  · exact hw row hrow
  · obtain rfl := List.mem_singleton.mp hrow
    rw [Request.row_price]
    exact map_roundTo req.price

/-- Only the new order and the resting orders are executed. -/
theorem Handled.below {r : Except Err Response} {w' : World} {ws done : List Write}
    (h : Handled env req w r w' ws done) :
    ∀ wr ∈ done, wr.Below (w.db.tbl_order_books.next + 1) := by
  intro wr hwr x hx
  obtain ⟨t, rfl⟩ := Write.mem_traded.mp hx
  have htrade := h.made.subset hwr
  have htaker := (h.plan.trade_eq htrade).1
  have hmaker := Request.resting_lt (h.plan.maker_mem htrade)
  rw [Request.taker_id] at htaker
  omega

/-- What is written for an order keeps the ledger of every row. -/
theorem Handled.ledger {r : Except Err Response} {w' : World} {ws done : List Write}
    (h : Handled env req w r w' ws done) (hdone : done = ws) (hw : w.db.PricesStored)
    (hC : PricesAgree req w) :
    ∀ row ∈ w.db.tbl_order_books.rows ++ [req.row env w], Ledger done row := by
  subst hdone
  intro row hrow
  apply h.plan.ledger req.matcher_samePrice (w.db.resting_nodup _ _)
  · intro r hr
    exact (Request.resting_lt hr).ne
  · exact request_agrees hw hC
  · exact sameFills_inserted hrow

/-- No earlier trade executes a later order. -/
theorem executes_eq_nil {log : List Entry} {next id : Nat}
    (hbelow : ∀ e ∈ log, e.write.Below next) (hid : next ≤ id) :
    (log.map Entry.write).filterMap (Write.executes id) = [] := by
  apply List.filterMap_eq_nil_iff.mpr
  intro wr hwr
  obtain ⟨e, he, rfl⟩ := List.mem_map.mp hwr
  exact (hbelow e he).executes_eq hid

/-- The fills of a row before the order is handled, which are none for the new row. -/
theorem InLedger.fills_inserted {log : List Entry} (h : InLedger w₀ w)
    (hlog : LedgerSince w₀ w log)
    (hbelow : ∀ e ∈ log, e.write.Below w.db.tbl_order_books.next) {row : OrderBook}
    (hrow : row ∈ w.db.tbl_order_books.rows ++ [req.row env w]) :
    parseFills row.fills =
      w₀.db.fillsOf row.id ++ (log.map Entry.write).filterMap (Write.executes row.id) := by
  rcases List.mem_append.mp hrow with hrow | hrow
  · exact hlog.fills row hrow
  · obtain rfl := List.mem_singleton.mp hrow
    rw [Request.row_id, executes_eq_nil hbelow (le_refl _), Tables.fillsOf_of_next_le h.next]
    simp [Request.row, NewOrder.toRow, parseFills]

theorem serve_inLedger (henv : env.Reliable) (hT : w.db.HasTrade req.symbol)
    (h : InLedger w₀ w) (hC : PricesAgree req w) : InLedger w₀ (req.serve env w).2 := by
  rcases serve_served env req w with ⟨hf, -, -⟩ | ⟨ws, done, hh⟩
  · rw [henv] at hf
    cases hf
  have hdone : done = ws := hh.complete hT (fun n o _ => henv n o) fun wr _ n => henv n wr.op
  obtain ⟨log, hlog, hbelow⟩ := h.ledger
  have hwrites : (log ++ ⟨w.db, .order req.toSave (env.clock w.calls)⟩ ::
      (req.inserted env w).entries done).map Entry.write =
      log.map Entry.write ++ .order req.toSave (env.clock w.calls) :: done := by
    rw [List.map_append, List.map_cons, Tables.entries_write]
  have hnext := h.next
  refine ⟨hh.pricesStored h.stored, ?_, log ++ ⟨w.db, .order req.toSave (env.clock w.calls)⟩ ::
    (req.inserted env w).entries done, ⟨?_, ?_, ?_⟩, ?_⟩
  · rw [hh.next]
    omega
  · rw [hh.journal, hlog.journal, List.append_assoc]
  · rw [hh.db, Tables.writeAll_trades_fill _ hh.matching, Request.inserted_trades, hlog.trades,
      hwrites, List.filterMap_append, List.append_assoc]
    rfl
  · intro row' hrow'
    rw [hh.rows] at hrow'
    obtain ⟨row, hrow, rfl⟩ := List.mem_map.mp hrow'
    have hafter := hh.ledger hdone h.stored hC row hrow
    unfold Ledger at hafter
    rw [hafter, (rowAfter_worked hh.matching row).id, hwrites, List.filterMap_append,
      ← List.append_assoc, h.fills_inserted hlog hbelow hrow]
    rfl
  · intro e he
    rw [hh.next]
    rcases List.mem_append.mp he with he | he
    · intro x hx
      have := hbelow e he x hx
      omega
    · rcases List.mem_cons.mp he with rfl | he
      · rintro x ⟨⟩
      · apply hh.below
        rw [← Tables.entries_write (req.inserted env w) done]
        exact List.mem_map_of_mem he

/-- **Fills agree with trades** along a run whose orders only reach resting
orders at their own limit. -/
theorem ledger_of_pricesAgree (henv : env.Reliable) {reqs : List Request}
    (hw : w.db.PricesStored) (hT : ∀ req ∈ reqs, w.db.HasTrade req.symbol)
    (hC : StepsMeet env PricesAgree reqs w) :
    ∃ log, LedgerSince w (serveAll env reqs w).2 log := by
  have hrun := serveAll_invariant env
    (I := fun w' => InLedger w w' ∧ ∀ req ∈ reqs, w'.db.HasTrade req.symbol)
    (fun req w' hI hC => ⟨serve_inLedger henv (hI.2 req hC.2) hI.1 hC.1,
      fun req' hreq' => serve_hasTrade (hI.2 req' hreq')⟩)
    ⟨InLedger.start hw, hT⟩ (hC.and_forall (P := fun req => req ∈ reqs) fun _ h => h)
  obtain ⟨log, hlog, -⟩ := hrun.1.ledger
  exact ⟨log, hlog⟩

/-- A BUY at 10 takes a part of a SELL at 10. -/
theorem ledger_at_one_price :
    let w := World.start (Tables.traded.place [.btc 1 .SELL 10 3])
    ∃ log, LedgerSince w (serveAll .steady [.limit ⟨2, .BUY, "BTC/USDT", 10, 1⟩] w).2 log := by
  intro w
  have hw : w.db.PricesStored := by
    unfold Tables.PricesStored
    decide +kernel
  have hT : ∀ req ∈ [Request.limit ⟨2, .BUY, "BTC/USDT", 10, 1⟩], w.db.HasTrade req.symbol := by
    unfold Tables.HasTrade
    decide +kernel
  have hagree : PricesAgree (.limit ⟨2, .BUY, "BTC/USDT", 10, 1⟩) w := by
    unfold PricesAgree
    decide +kernel
  exact ledger_of_pricesAgree (fun _ _ => rfl) hw hT ⟨hagree, trivial⟩

/-- A BUY at 11 meets a SELL at 10: the trade and the entry of the BUY say 10,
the entry of the SELL says 11. -/
theorem maker_filled_at_other_price :
    let w := World.start (Tables.traded.place [.btc 1 .SELL 10 3])
    let w' := (serveAll .steady [.limit ⟨2, .BUY, "BTC/USDT", 11, 1⟩] w).2
    Env.steady.Reliable ∧ w.db.PricesStored ∧ w.db.HasTrade "BTC/USDT" ∧
      ¬ ∃ log, LedgerSince w w' log := by
  intro w w'
  refine ⟨fun _ _ => rfl, ?_, ?_, ?_⟩
  · unfold Tables.PricesStored
    decide +kernel
  · unfold Tables.HasTrade
    decide +kernel
  · rintro ⟨log, hlog⟩
    have hlog' : w'.journal = log := hlog.journal
    have hfills := hlog.fills
    rw [← hlog'] at hfills
    revert hfills
    decide +kernel

end Exchange
