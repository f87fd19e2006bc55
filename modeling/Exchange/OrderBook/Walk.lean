import Exchange.OrderBook.Serve

/-!
# The orders a matcher walks

`fillOrderBook` fetches at most a hundred open orders of a side, sorted by
price; a matcher walks them from the last. Proved here: an open order of the
side is walked or behind the limit, the orders walked are different, open, and
in the reverse of the order of the query.
-/

namespace Exchange

open OrderBookService Store

/-- The open orders behind the limit of `fillOrderBook`. -/
def Tables.unfetched (db : Tables) (side : Side) (symbol : String) : List OrderBook :=
  beyondLimit (byPrice side.fetched) 100 (db.openOrders side symbol)

/-- The orders the match of the request reaches, with what it takes from each. -/
def Request.reached (req : Request) (w : World) : List (OrderBook × ℚ) :=
  Greedy.fills doubles (req.matcher.halts req.held) OrderBook.size req.size (req.resting w)

/-- The orders the match of the request reaches, each after the size with which it is reached. -/
def Request.passes (req : Request) (w : World) : List (ℚ × OrderBook) :=
  Greedy.passes doubles (req.matcher.halts req.held) OrderBook.size req.size (req.resting w)

section Tables

variable {db : Tables} {side : Side} {symbol : String} {a b : OrderBook}

theorem Tables.mem_openOrders : a ∈ db.openOrders side symbol ↔
    a ∈ db.tbl_order_books.rows ∧ a.side = side ∧ a.symbol = symbol ∧ a.is_filled = false := by
  simp [Tables.openOrders]

theorem Tables.mem_openOrders_iff : a ∈ db.openOrders side symbol ↔
    a ∈ db.resting side symbol ∨ a ∈ db.unfetched side symbol := by
  rw [Tables.resting, List.mem_reverse]
  exact mem_iff_kept_or_lost

theorem Tables.openOrders_nodup : ((db.openOrders side symbol).map OrderBook.id).Nodup :=
  db.tbl_order_books.nodup.sublist (List.filter_sublist.map _)

theorem Tables.resting_nodup (db : Tables) (side : Side) (symbol : String) :
    ((db.resting side symbol).map OrderBook.id).Nodup := by
  rw [Tables.resting, List.map_reverse, List.nodup_reverse]
  exact nodup_orderByLimit db.openOrders_nodup

theorem Tables.resting_ne_unfetched (ha : a ∈ db.resting side symbol)
    (hb : b ∈ db.unfetched side symbol) : b.id ≠ a.id :=
  (not_kept_and_lost db.openOrders_nodup (List.mem_reverse.mp ha) hb).symm

/-- In the order of the walk, an order comes before what the query put after it. -/
theorem Tables.resting_pairwise (db : Tables) (side : Side) (symbol : String) :
    (db.resting side symbol).Pairwise fun a b => byPrice side.fetched b a = true := by
  rw [Tables.resting, List.pairwise_reverse]
  exact pairwise_orderByLimit (byPrice_total _)

end Tables

section NewOrder

variable {env : Env} {order : NewOrder} {w : World} {row : OrderBook}

/-- The row as which an order is saved: open, with the whole of its size. -/
structure NewOrder.SavedAs (order : NewOrder) (row : OrderBook) : Prop where
  side : row.side = order.side
  size : row.size = roundTo 8 order.size
  orgSize : row.orgSize = roundTo 8 order.size
  is_filled : row.is_filled = false

theorem NewOrder.savedAs_toRow (id now : Nat) : order.SavedAs (order.submitted.toRow id now) :=
  ⟨submitted_side, congrArg (roundTo 8) submitted_size, congrArg (roundTo 8) submitted_orgSize, rfl⟩

theorem NewOrder.savedAs_overwrite (row : OrderBook) :
    order.SavedAs (order.submitted.overwrite row) :=
  ⟨submitted_side, congrArg (roundTo 8) submitted_size, congrArg (roundTo 8) submitted_orgSize, rfl⟩

/-- After the save a row is that of the order, or stands as it stood before. -/
theorem NewOrder.inserted_row (hrow : row ∈ (order.inserted env w).tbl_order_books.rows) :
    row.id = (order.taker env w).id ∧ order.SavedAs row ∧
        (row.id = w.db.tbl_order_books.next ∨ order.id = some row.id) ∨
      row.id ≠ (order.taker env w).id ∧ row ∈ w.db.tbl_order_books.rows := by
  unfold inserted Tables.write Tables.saveOrderBook at hrow
  unfold taker Tables.saveOrderBook
  simp only [submitted_id] at hrow ⊢
  cases hid : order.id with
  | none =>
    simp only [hid] at hrow ⊢
    rcases List.mem_append.mp hrow with hrow | hrow
    · exact .inr ⟨(w.db.tbl_order_books.fresh row hrow).ne, hrow⟩
    · obtain rfl := List.mem_singleton.mp hrow
      exact .inl ⟨rfl, savedAs_toRow _ _, .inl rfl⟩
  | some id =>
    simp only [hid] at hrow ⊢
    by_cases hkey : id ∈ w.db.tbl_order_books.rows.map OrderBook.id
    · simp only [dif_pos hkey] at hrow ⊢
      obtain ⟨old, hold, rfl⟩ := Table.mem_modify.mp hrow
      split
      · next he => exact .inl ⟨he, savedAs_overwrite old, .inr (congrArg some he.symm)⟩
      · next hne => exact .inr ⟨hne, hold⟩
    · simp only [dif_neg hkey] at hrow ⊢
      rcases List.mem_append.mp hrow with hrow | hrow
      · exact .inr ⟨fun he => hkey (List.mem_map.mpr ⟨row, hrow, he⟩), hrow⟩
      · obtain rfl := List.mem_singleton.mp hrow
        exact .inl ⟨rfl, savedAs_toRow _ _, .inr rfl⟩

theorem NewOrder.exists_inserted : ∃ row, row ∈ (order.inserted env w).tbl_order_books.rows := by
  unfold inserted Tables.write Tables.saveOrderBook
  simp only
  split
  · exact ⟨_, List.mem_append_right _ (List.mem_singleton_self _)⟩
  · split
    · next hkey =>
      obtain ⟨old, hold, rfl⟩ := List.mem_map.mp hkey
      exact ⟨_, List.mem_map_of_mem hold⟩
    · exact ⟨_, List.mem_append_right _ (List.mem_singleton_self _)⟩

/-- The orders that an order meets are open rows of others, as they stood before. -/
theorem NewOrder.resting_row (hrow : row ∈ order.resting env w) :
    row ∈ (order.inserted env w).tbl_order_books.rows ∧ row.id ≠ (order.taker env w).id ∧
      row ∈ w.db.tbl_order_books.rows ∧ row.is_filled = false := by
  have hopen := Tables.mem_openOrders.mp (Tables.mem_openOrders_iff.mpr (.inl hrow))
  rcases inserted_row hopen.1 with ⟨-, hsaved, -⟩ | ⟨hne, hold⟩
  · have hside := hsaved.side.symm.trans hopen.2.1
    cases hs : order.side <;> simp [hs, Side.opposite] at hside
  · exact ⟨hopen.1, hne, hold, hopen.2.2.2⟩

end NewOrder

section Request

variable {env : Env} {req : Request} {w w' : World} {r : Except Err Response}
  {ws done : List Write}

theorem Request.resting_rows {r : OrderBook} (h : r ∈ req.resting w) :
    r ∈ w.db.tbl_order_books.rows ∧ r.is_filled = false := by
  have hopen := Tables.mem_openOrders.mp (Tables.mem_openOrders_iff.mpr (.inl h))
  exact ⟨hopen.1, hopen.2.2.2⟩

theorem Request.resting_lt {r : OrderBook} (h : r ∈ req.resting w) :
    r.id < w.db.tbl_order_books.next :=
  w.db.tbl_order_books.fresh r (Request.resting_rows h).1

/-- After the insertion, the row of the order is known by its key. -/
theorem Request.row_of_next {row : OrderBook}
    (hrow : row ∈ w.db.tbl_order_books.rows ++ [req.row env w])
    (hid : row.id = w.db.tbl_order_books.next) : row = req.row env w := by
  rcases List.mem_append.mp hrow with hrow | hrow
  · have hlt := w.db.tbl_order_books.fresh row hrow
    omega
  · exact List.mem_singleton.mp hrow

/-- After the insertion, the row of a resting order is known by its key. -/
theorem Request.row_of_resting {row r : OrderBook}
    (hrow : row ∈ w.db.tbl_order_books.rows ++ [req.row env w]) (hr : r ∈ req.resting w)
    (hid : row.id = r.id) : row = r := by
  rcases List.mem_append.mp hrow with hrow | hrow
  · exact Table.eq_of_key hrow (Request.resting_rows hr).1 hid
  · obtain rfl := List.mem_singleton.mp hrow
    have hlt := Request.resting_lt hr
    rw [Request.row_id] at hid
    omega

theorem plan_fills : Plan.fills req.matcher (req.taker env w) (req.resting w) = req.reached w := by
  rw [Plan.fills, Request.taker_held, Request.taker_size, Request.reached]

theorem plan_passes :
    Plan.passes req.matcher (req.taker env w) (req.resting w) = req.passes w := by
  rw [Plan.passes, Request.taker_held, Request.taker_size, Request.passes]

theorem Handled.taken_eq (h : Handled env req w r w' ws done) :
    ws.filterMap Write.taken = req.reached w := by
  rw [h.plan.taken_eq, plan_fills]

end Request

end Exchange
