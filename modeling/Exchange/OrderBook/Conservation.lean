import Exchange.OrderBook.Walk

/-!
# Conservation of size

What the orders of a user lose in size is what the user's trades record. A
match keeps this balance pass by pass (`Plan.balanced`), as long as the trade
of the pass is accepted and the difference of the two sizes is not rounded; a
trade that the database refuses takes size out of the book and leaves no trade
(`size_vanishes`).

`conserved_of_tradesFit`: the balance holds along every run in which each order
is refused at its insertion or only reaches orders whose trades fit and whose
sizes are subtracted exactly.
-/

namespace Exchange

open Async OrderBookService Store

/-! ## The two totals -/

/-- `q`, if the row belongs to this side, user and symbol. -/
def OrderBook.share (side : Side) (u : Nat) (s : String) (r : OrderBook) (q : ℚ) : ℚ :=
  if r.side = side ∧ r.uid = u ∧ r.symbol = s then q else 0

/-- What the rows of a user on one side of a symbol have lost in size. -/
def Tables.executed (db : Tables) (side : Side) (u : Nat) (s : String) : ℚ :=
  (db.tbl_order_books.rows.map fun r => r.share side u s (r.orgSize - r.size)).sum

theorem OrderBook.share_add (side : Side) (u : Nat) (s : String) (r : OrderBook) (p q : ℚ) :
    r.share side u s (p + q) = r.share side u s p + r.share side u s q := by
  unfold OrderBook.share
  split
  · rfl
  · exact (add_zero 0).symm

/-- The size a trade will record, if it is of this side, user and symbol. -/
def NewTrade.share (side : Side) (u : Nat) (s : String) (t : NewTrade) : ℚ :=
  if t.symbol = s ∧ t.party side = u then roundTo 8 t.size else 0

/-- The size of a trade with key at least `n`, if it is of this side, user and symbol. -/
def Trade.share (n : Nat) (side : Side) (u : Nat) (s : String) (t : Trade) : ℚ :=
  if t.symbol = s ∧ t.party side = u ∧ n ≤ t.id then t.size else 0

/-- The total size of a user's trades with key at least `n`. -/
def Tables.tradedFrom (n : Nat) (db : Tables) (side : Side) (u : Nat) (s : String) : ℚ :=
  (db.tbl_trades.rows.map (Trade.share n side u s)).sum

/-- From `db` to `db'` the orders lose what the trades with key at least `n` record. -/
def Balanced (n : Nat) (db db' : Tables) : Prop :=
  ∀ side u s, db'.executed side u s - db.executed side u s =
    db'.tradedFrom n side u s - db.tradedFrom n side u s

theorem Balanced.trans {n : Nat} {db db' db'' : Tables} (h : Balanced n db db')
    (h' : Balanced n db' db'') : Balanced n db db'' := by
  intro side u s
  have h₁ := h side u s
  have h₂ := h' side u s
  linarith

theorem executed_update {db : Tables} {r : OrderBook} (hr : r ∈ db.tbl_order_books.rows)
    (update : OrderUpdate) (side : Side) (u : Nat) (s : String) :
    (db.updateOrderBook r.id update).executed side u s =
      db.executed side u s + r.share side u s (r.size - roundTo 8 update.size) := by
  have h := Table.sum_modify (fun r => r.share side u s (r.orgSize - r.size)) hr update.apply
    fun _ => rfl
  have hsplit : (update.apply r).orgSize - (update.apply r).size =
      (r.orgSize - r.size) + (r.size - roundTo 8 update.size) := by
    simp only [OrderUpdate.apply]
    ring
  have hshare : ∀ q, (update.apply r).share side u s q = r.share side u s q := fun _ => rfl
  rw [hsplit, hshare, OrderBook.share_add] at h
  unfold Tables.executed Tables.updateOrderBook
  linarith

theorem traded_trade (db : Tables) {n : Nat} (hn : n ≤ db.tbl_trades.next) (t : NewTrade)
    (side : Side) (u : Nat) (s : String) :
    (db.saveTrade t).tradedFrom n side u s = db.tradedFrom n side u s + t.share side u s := by
  have h := Table.sum_insert (t := db.tbl_trades) (Trade.share n side u s)
    (t.toRow db.tbl_trades.next) rfl
  have hshare : Trade.share n side u s (t.toRow db.tbl_trades.next) = t.share side u s := by
    rw [Trade.share, NewTrade.toRow_party, NewTrade.share]
    simp [NewTrade.toRow, hn]
  rw [hshare] at h
  exact h

/-! ## One pass -/

theorem balanced_three {db : Tables} {n : Nat} (hn : n ≤ db.tbl_trades.next) {a b : OrderBook}
    (ha : a ∈ db.tbl_order_books.rows) (hb : b ∈ db.tbl_order_books.rows) (hne : b.id ≠ a.id)
    {u₁ u₂ : OrderUpdate} {t : NewTrade} (x : Execution)
    (hshare : ∀ side u s, a.share side u s (a.size - roundTo 8 u₁.size) +
      b.share side u s (b.size - roundTo 8 u₂.size) = t.share side u s) :
    Balanced n db (db.writeAll [.update a.id u₁ x, .trade t x, .update b.id u₂ x]) := by
  intro side u s
  have hb' : b ∈ ((db.updateOrderBook a.id u₁).saveTrade t).tbl_order_books.rows :=
    Tables.mem_update_of_ne u₁ hb hne
  have h₁ := executed_update ha u₁ side u s
  have h₂ := executed_update hb' u₂ side u s
  have h₃ := traded_trade (db.updateOrderBook a.id u₁) hn t side u s
  have h₄ := hshare side u s
  change ((((db.updateOrderBook a.id u₁).saveTrade t).updateOrderBook b.id u₂).executed side u s)
    - _ = ((db.updateOrderBook a.id u₁).saveTrade t).tradedFrom n side u s - _
  rw [h₂, h₃]
  change (db.updateOrderBook a.id u₁).executed side u s + _ - _ = db.tradedFrom n side u s + _ - _
  rw [h₁]
  linarith

theorem Matcher.trade_party (m : Matcher) (order r : OrderBook) (size : ℚ) (is_buyer now : Nat)
    (side : Side) : (m.trade order r size is_buyer now).party side =
      if side = m.side then order.uid else r.uid := by
  cases side <;> cases hside : m.side <;> simp [Matcher.trade, NewTrade.party, hside]

/-- The trade of a pass is shared by the order and the resting order. -/
theorem share_trade {m : Matcher} {order o r : OrderBook}
    (ho : o.uid = order.uid ∧ o.side = m.side ∧ o.symbol = order.symbol)
    (hr : r.side = m.side.opposite ∧ r.symbol = order.symbol) (size : ℚ) (is_buyer now : Nat)
    (side : Side) (u : Nat) (s : String) :
    o.share side u s (roundTo 8 size) + r.share side u s (roundTo 8 size) =
      (m.trade order r size is_buyer now).share side u s := by
  obtain ⟨hou, hos, hosym⟩ := ho
  obtain ⟨hrs, hrsym⟩ := hr
  have htrade : (m.trade order r size is_buyer now).share side u s =
      if order.symbol = s ∧ (if side = m.side then order.uid else r.uid) = u then roundTo 8 size
      else 0 := by
    rw [NewTrade.share, Matcher.trade_party]
    rfl
  rw [htrade]
  simp only [OrderBook.share, hou, hos, hosym, hrs, hrsym]
  cases side <;> cases m.side <;> simp [Side.opposite, and_comm]

/-- In eight places the difference of the doubles is the difference of the sizes. -/
def Exact (a b : ℚ) : Prop := roundTo 8 (Double.sub a b) = roundTo 8 a - roundTo 8 b

instance (a b : ℚ) : Decidable (Exact a b) := inferInstanceAs (Decidable (_ = _))

/-- The tables hold the order and the resting orders as the matcher holds them. -/
structure Ready (m : Matcher) (order : OrderBook) (L : List OrderBook) (db : Tables) : Prop where
  own : ∃ o ∈ db.tbl_order_books.rows, o.id = order.id ∧
    (o.uid = order.uid ∧ o.side = m.side ∧ o.symbol = order.symbol) ∧
      o.size = roundTo 8 order.size
  resting : ∀ r ∈ L, r ∈ db.tbl_order_books.rows ∧
    (r.side = m.side.opposite ∧ r.symbol = order.symbol) ∧ r.id ≠ order.id ∧ IsDecimal 8 r.size
  nodup : (L.map OrderBook.id).Nodup

/-- After a pass that takes the whole of `r`, the tables are ready for the rest. -/
theorem Ready.rest {m : Matcher} {order r : OrderBook} {L : List OrderBook} {db : Tables}
    (h : Ready m order (r :: L) db) (t₁ t₂ : Nat) :
    Ready m (m.rest order r) L (db.writeAll (m.partWrites order r t₁ t₂)) := by
  obtain ⟨⟨o, ho, hid, hcols, hsize⟩, hresting, hnd⟩ := h
  obtain ⟨hr, -, hrid, -⟩ := hresting r (List.mem_cons_self ..)
  rw [List.map_cons, List.nodup_cons] at hnd
  refine ⟨?_, ?_, hnd.2⟩
  · have hne : o.id ≠ r.id := fun e => hrid (e ▸ hid)
    exact ⟨_, Tables.mem_update_self _ (Tables.mem_update_of_ne _ ho hne) hid, hid, hcols, rfl⟩
  · intro r' hr'
    obtain ⟨hrow, hcols', hid', hdec'⟩ := hresting r' (List.mem_cons_of_mem _ hr')
    have hne : r'.id ≠ r.id := fun e => hnd.1 (e ▸ List.mem_map_of_mem hr')
    refine ⟨?_, hcols', hid', hdec'⟩
    exact Tables.mem_update_of_ne _ (Tables.mem_update_of_ne _ hrow hne) hid'

/-- The difference of a pass is exact. -/
def ExactPass (p : ℚ × OrderBook) : Prop :=
  if Double.fl p.1 ≤ Double.fl p.2.size then Exact p.2.size p.1 else Exact p.1 p.2.size

instance (p : ℚ × OrderBook) : Decidable (ExactPass p) :=
  inferInstanceAs (Decidable
    (if Double.fl p.1 ≤ Double.fl p.2.size then Exact p.2.size p.1 else Exact p.1 p.2.size))

theorem exactPass_full {size : ℚ} {r : OrderBook} (hs : Double.fl size ≤ Double.fl r.size) :
    ExactPass (size, r) ↔ Exact r.size size := by
  rw [ExactPass, if_pos hs]

theorem exactPass_part {size : ℚ} {r : OrderBook} (hs : Double.fl r.size < Double.fl size) :
    ExactPass (size, r) ↔ Exact size r.size := by
  rw [ExactPass, if_neg hs.not_ge]

/-- **Every plan of exact passes keeps the balance.** -/
theorem Plan.balanced {m : Matcher} {order : OrderBook} {L : List OrderBook} {ws : List Write}
    (h : Plan m order L ws) (hexact : ∀ p ∈ Plan.passes m order L, ExactPass p) {db : Tables}
    {n : Nat} (hready : Ready m order L db) (hn : n ≤ db.tbl_trades.next) :
    Balanced n db (db.writeAll ws) := by
  induction h generalizing db with
  | nil => exact fun _ _ _ => by simp [Tables.writeAll]
  | stop => exact fun _ _ _ => by simp [Tables.writeAll]
  | @full order r L t₁ t₂ t₃ h hs =>
    rw [Plan.passes_full h hs, List.forall_mem_singleton, exactPass_full hs] at hexact
    obtain ⟨⟨o, ho, hid, hcols, hsize⟩, hresting, -⟩ := hready
    obtain ⟨hr, hrcols, hrid, hrdec⟩ := hresting r (List.mem_cons_self ..)
    rw [Matcher.fullWrites, ← hid]
    refine balanced_three hn ho hr (hid ▸ hrid) _ fun side u s => ?_
    rw [Matcher.full_size, hexact, hrdec.roundTo_eq, roundTo_zero, hsize, sub_zero, sub_sub_cancel]
    exact share_trade hcols hrcols _ _ _ side u s
  | @part order r L ws t₁ t₂ h hs hp ih =>
    rw [Plan.passes_part h hs, List.forall_mem_cons, exactPass_part hs] at hexact
    have hrest := hready.rest t₁ t₂
    rw [Tables.writeAll_append]
    refine Balanced.trans ?_ (ih hexact.2 hrest (hn.trans (le_max_left _ _)))
    obtain ⟨⟨o, ho, hid, hcols, hsize⟩, hresting, -⟩ := hready
    obtain ⟨hr, hrcols, hrid, hrdec⟩ := hresting r (List.mem_cons_self ..)
    have hshare := share_trade hcols hrcols r.size m.part_is_buyer t₂
    rw [hrdec.roundTo_eq] at hshare
    rw [Matcher.partWrites, ← hid]
    refine balanced_three hn hr ho (hid ▸ hrid.symm) _ fun side u s => ?_
    rw [hexact.1, hrdec.roundTo_eq, roundTo_zero, hsize, sub_zero, sub_sub_cancel, add_comm]
    exact hshare side u s

/-! ## Sizes and columns -/

/-- A size that the size columns store as it is, and not below 0. -/
structure SoundSize (q : ℚ) : Prop where
  nonneg : 0 ≤ q
  decimal : IsDecimal 8 q
  fits : fits 17 8 q = true

/-- What an exact difference leaves of a size is a size. -/
theorem Exact.sound {a b : ℚ} (h : Exact a b) (ha : fits 17 8 a = true) (hb : 0 ≤ b)
    (hle : Double.fl b ≤ Double.fl a) : SoundSize (roundTo 8 (Double.sub a b)) := by
  have hnonneg : 0 ≤ roundTo 8 (Double.sub a b) := roundTo_nonneg (Double.sub_nonneg hle)
  refine ⟨hnonneg, isDecimal_roundTo _, fits_of_le hnonneg (q := roundTo 8 a) ?_ ?_⟩
  · have hb' : 0 ≤ roundTo 8 b := roundTo_nonneg hb
    rw [h]
    linarith
  · rw [fits_roundTo]
    exact ha

/-- Every open order has a sound size, and a price that its column stores. -/
def Tables.WellFormed (db : Tables) : Prop :=
  ∀ r ∈ db.tbl_order_books.rows, r.is_filled = false →
    SoundSize r.size ∧ r.price.all (fits 17 8) = true

/-- A plan writes sound sizes. -/
theorem Plan.updates_sound {m : Matcher} {order : OrderBook} {L : List OrderBook}
    {ws : List Write} (h : Plan m order L ws) (h0 : 0 ≤ order.size)
    (hfits : fits 17 8 order.size = true) (hL : ∀ r ∈ L, SoundSize r.size)
    (hexact : ∀ p ∈ Plan.passes m order L, ExactPass p) (id : Nat) (u : OrderUpdate)
    (x : Execution) (hm : Write.update id u x ∈ ws) : SoundSize (roundTo 8 u.size) := by
  have hzero : SoundSize (roundTo 8 0) := by
    rw [roundTo_zero]
    exact ⟨le_refl _, IsDecimal.zero, fits_zero 17⟩
  induction h with
  | nil | stop => simp at hm
  | @full order r L t₁ t₂ t₃ h hs =>
    rw [Plan.passes_full h hs, List.forall_mem_singleton, exactPass_full hs] at hexact
    simp only [Matcher.fullWrites, List.mem_cons, Write.update.injEq, reduceCtorEq, false_or,
      List.not_mem_nil, or_false] at hm
    rcases hm with ⟨-, rfl, -⟩ | ⟨-, rfl, -⟩
    · exact hzero
    · rw [Matcher.full_size]
      exact hexact.sound (hL r (List.mem_cons_self ..)).fits h0 hs
  | @part order r L ws t₁ t₂ h hs hp ih =>
    rw [Plan.passes_part h hs, List.forall_mem_cons, exactPass_part hs] at hexact
    have hr := hL r (List.mem_cons_self ..)
    have hrest := hexact.1.sound hfits hr.nonneg hs.le
    rcases List.mem_append.mp hm with hm | hm
    · simp only [Matcher.partWrites, List.mem_cons, Write.update.injEq, reduceCtorEq, false_or,
        List.not_mem_nil, or_false] at hm
      rcases hm with ⟨-, rfl, -⟩ | ⟨-, rfl, -⟩
      · exact hzero
      · exact hrest
    · refine ih (Double.sub_nonneg hs.le) ?_ (fun r' hr' => hL r' (List.mem_cons_of_mem _ hr'))
        hexact.2 hm
      rw [← fits_roundTo]
      exact hrest.fits

theorem rowAfter_sound {ws : List Write}
    (hws : ∀ id u x, Write.update id u x ∈ ws → SoundSize (roundTo 8 u.size)) {r : OrderBook}
    (hr : r.is_filled = false → SoundSize r.size) :
    (rowAfter ws r).is_filled = false → SoundSize (rowAfter ws r).size := by
  induction ws generalizing r with
  | nil => exact hr
  | cons wr ws ih =>
    refine ih (r := wr.onRow r) (fun id u x hm => hws id u x (List.mem_cons_of_mem _ hm)) ?_
    cases wr with
    | order o now => exact hr
    | trade t x => exact hr
    | update id u x =>
      simp only [Write.onRow]
      split
      · intro _
        exact hws id u x (List.mem_cons_self ..)
      · exact hr

/-- The trade that takes `q` from `r` fits its columns. -/
def TradeFits (r : OrderBook) (q : ℚ) : Prop :=
  r.price.isSome = true ∧ fits 10 2 (Double.mul (number r.price) q) = true

instance (r : OrderBook) (q : ℚ) : Decidable (TradeFits r q) := inferInstanceAs (Decidable (_ ∧ _))

/-- The trade of a pass fits its columns. -/
def FittingPass (p : ℚ × OrderBook) : Prop :=
  TradeFits p.2 (if Double.fl p.1 ≤ Double.fl p.2.size then p.1 else p.2.size)

instance (p : ℚ × OrderBook) : Decidable (FittingPass p) := inferInstanceAs (Decidable (_ ∧ _))

theorem trade_admissible {m : Matcher} {order r : OrderBook} {q : ℚ} {is_buyer now : Nat}
    (hfits : TradeFits r q) (hprice : r.price.all (fits 17 8) = true)
    (hq : fits 17 8 q = true) : (m.trade order r q is_buyer now).admissible = true := by
  obtain ⟨hsome, hvolume⟩ := hfits
  simp [NewTrade.admissible, Matcher.trade, NewTrade.volume, hsome, hprice, hq, hvolume]

theorem Plan.trades_admissible {m : Matcher} {order : OrderBook} {L : List OrderBook}
    {ws : List Write} (h : Plan m order L ws) (hfits : fits 17 8 order.size = true)
    (hL : ∀ r ∈ L, SoundSize r.size ∧ r.price.all (fits 17 8) = true)
    (hpasses : ∀ p ∈ Plan.passes m order L, FittingPass p ∧ ExactPass p) {t : NewTrade}
    {x : Execution} (hm : Write.trade t x ∈ ws) : t.admissible = true := by
  induction h with
  | nil | stop => simp at hm
  | @full order r L t₁ t₂ t₃ h hs =>
    rw [Plan.passes_full h hs, List.forall_mem_singleton, FittingPass, if_pos hs] at hpasses
    simp only [Matcher.fullWrites, List.mem_cons, Write.trade.injEq, reduceCtorEq, false_or,
      List.not_mem_nil, or_false] at hm
    obtain ⟨rfl, -⟩ := hm
    exact trade_admissible hpasses.1 (hL r (List.mem_cons_self ..)).2 hfits
  | @part order r L ws t₁ t₂ h hs hp ih =>
    have hr := hL r (List.mem_cons_self ..)
    rw [Plan.passes_part h hs, List.forall_mem_cons, FittingPass, if_neg hs.not_ge,
      exactPass_part hs] at hpasses
    rcases List.mem_append.mp hm with hm | hm
    · simp only [Matcher.partWrites, List.mem_cons, Write.trade.injEq, reduceCtorEq, false_or,
        List.not_mem_nil, or_false] at hm
      obtain ⟨rfl, -⟩ := hm
      exact trade_admissible hpasses.1.1 hr.2 hr.1.fits
    · have hrest := (hpasses.1.2.sound hfits hr.1.nonneg hs.le).fits
      rw [fits_roundTo] at hrest
      exact ih hrest (fun r' hr' => hL r' (List.mem_cons_of_mem _ hr')) hpasses.2 hm

/-- If the trades fit, every write of a plan is accepted. -/
theorem Plan.admissible {m : Matcher} {order : OrderBook} {L : List OrderBook} {ws : List Write}
    (h : Plan m order L ws) (h0 : 0 ≤ order.size) (hfits : fits 17 8 order.size = true)
    (hL : ∀ r ∈ L, SoundSize r.size ∧ r.price.all (fits 17 8) = true)
    (hpasses : ∀ p ∈ Plan.passes m order L, FittingPass p ∧ ExactPass p) :
    ∀ wr ∈ ws, wr.op.admissible = true := by
  intro wr hwr
  cases wr with
  | order o now => exact (h.matching _ hwr).elim
  | trade t x => exact h.trades_admissible hfits hL hpasses hwr
  | update id u x =>
    have hsound := h.updates_sound h0 hfits (fun r hr => (hL r hr).1)
      (fun p hp => (hpasses p hp).2) id u x hwr
    change fits 17 8 u.size = true
    rw [← fits_roundTo]
    exact hsound.fits

/-! ## The step and the run -/

/-- The condition on a step: the insertion is refused, or all trades fit and leave exact rests. -/
def TradesFit (req : Request) (w : World) : Prop :=
  req.toSave.admissible = true → ∀ p ∈ req.passes w, FittingPass p ∧ ExactPass p

variable {env : Env} {req : Request} {w : World}

/-- After the insertion the tables are ready for the match. -/
theorem ready_inserted (hw : w.db.WellFormed) :
    Ready req.matcher (req.taker env w) (req.resting w) (req.inserted env w) := by
  refine ⟨⟨req.row env w, ?_, rfl, ?_, ?_⟩, ?_, w.db.resting_nodup _ _⟩
  · simp [Request.inserted_rows]
  · simp
  · simp
  · intro r hr
    have hopen := Tables.mem_openOrders.mp (Tables.mem_openOrders_iff.mpr (.inl hr))
    refine ⟨?_, ?_, ?_, (hw r hopen.1 hopen.2.2.2).1.decimal⟩
    · simp [Request.inserted_rows, hopen.1]
    · simp [hopen.2.1, hopen.2.2.1]
    · have := w.db.tbl_order_books.fresh r hopen.1
      simp only [Request.taker_id]
      omega

theorem balanced_inserted {n : Nat} : Balanced n w.db (req.inserted env w) := by
  intro side u s
  have htrades : (req.inserted env w).tradedFrom n side u s = w.db.tradedFrom n side u s := by
    rw [Tables.tradedFrom, Request.inserted_trades]
    rfl
  have horders : (req.inserted env w).executed side u s = w.db.executed side u s := by
    rw [Tables.executed, Request.inserted_rows, List.map_append, List.sum_append]
    simp [OrderBook.share, Tables.executed]
  rw [htrades, horders, sub_self, sub_self]

/-- What a run keeps: the balance from `db₀` on, and sound open orders. -/
structure InBalance (db₀ db : Tables) : Prop where
  wellFormed : db.WellFormed
  next : db₀.tbl_trades.next ≤ db.tbl_trades.next
  balanced : Balanced db₀.tbl_trades.next db₀ db

theorem Request.size_fits (h : req.toSave.admissible = true) : fits 17 8 req.size = true := by
  simp only [NewOrder.admissible, Bool.and_eq_true, Request.toSave_size] at h
  exact h.1.1.2

/-- The row of an accepted order is as an open order should be. -/
theorem Request.row_wellFormed (h0 : 0 ≤ req.size) (h : req.toSave.admissible = true) :
    SoundSize (req.row env w).size ∧ (req.row env w).price.all (fits 17 8) = true := by
  have hfits := Request.size_fits h
  refine ⟨⟨?_, ?_, ?_⟩, ?_⟩
  · simpa using roundTo_nonneg h0
  · simpa using isDecimal_roundTo req.size
  · simpa [fits_roundTo] using hfits
  · simp only [NewOrder.admissible, Bool.and_eq_true, Request.toSave_price] at h
    rw [Request.row_price, Option.all_map]
    simpa [Function.comp_def, fits_roundTo] using h.1.1.1

/-- Sound writes to sound open orders leave sound open orders. -/
theorem Handled.wellFormed {r : Except Err Response} {w' : World} {ws done : List Write}
    (hh : Handled env req w r w' ws done) (hw : w.db.WellFormed)
    (hrow : SoundSize (req.row env w).size ∧ (req.row env w).price.all (fits 17 8) = true)
    (hsound : ∀ id u x, Write.update id u x ∈ done → SoundSize (roundTo 8 u.size)) :
    w'.db.WellFormed := by
  intro r' hr' hopen
  rw [hh.rows] at hr'
  obtain ⟨r, hr, rfl⟩ := List.mem_map.mp hr'
  have hworked := rowAfter_worked hh.matching r
  have hr₀ : r.is_filled = false → SoundSize r.size ∧ r.price.all (fits 17 8) = true := by
    rcases List.mem_append.mp hr with hr | hr
    · exact hw r hr
    · intro _
      obtain rfl := List.mem_singleton.mp hr
      exact hrow
  refine ⟨rowAfter_sound hsound (fun ho => (hr₀ ho).1) hopen, ?_⟩
  rw [hworked.price]
  exact (hr₀ (hworked.open hopen)).2

/-- One order that meets its condition keeps the balance. -/
theorem serve_inBalance {db₀ : Tables} (henv : env.Constrained) (hT : w.db.HasTrade req.symbol)
    (h0 : 0 ≤ req.size) (h : InBalance db₀ w.db) (hC : TradesFit req w) :
    InBalance db₀ (req.serve env w).2.db := by
  rcases serve_served env req w with ⟨-, -, hw⟩ | ⟨ws, done, hh⟩
  · rw [hw]
    exact h
  have haccepted : req.toSave.admissible = true := by
    have := hh.accepted
    rw [henv] at this
    simpa [Op.admissible] using this
  have hfits := Request.size_fits haccepted
  have hpasses := hC haccepted
  have hplanned : Plan.passes req.matcher (req.taker env w) (req.resting w) = _ := plan_passes
  rw [← hplanned] at hpasses
  have hresting : ∀ r ∈ req.resting w, SoundSize r.size ∧ r.price.all (fits 17 8) = true :=
    fun r hr => h.wellFormed r (Request.resting_rows hr).1 (Request.resting_rows hr).2
  have hadmissible := hh.plan.admissible (by simpa using h0) (by simpa using hfits) hresting
    hpasses
  have hdone : done = ws := by
    refine hh.complete hT (fun n o ho => ?_) (fun wr hwr n => ?_)
    · rw [henv, Op.admissible_of_reads ho]
      rfl
    · rw [henv, hadmissible wr hwr]
      rfl
  have hnext : db₀.tbl_trades.next ≤ (req.inserted env w).tbl_trades.next := by
    rw [Request.inserted_trades]
    exact h.next
  refine ⟨?_, ?_, ?_⟩
  · apply hh.wellFormed h.wellFormed (Request.row_wellFormed h0 haccepted)
    rw [hdone]
    exact hh.plan.updates_sound (by simpa using h0) (by simpa using hfits)
      (fun r hr => (hresting r hr).1) fun p hp => (hpasses p hp).2
  · rw [hh.db]
    exact hnext.trans (Tables.next_le_writeAll _ _)
  · rw [hh.db, hdone]
    exact h.balanced.trans (balanced_inserted.trans
      (hh.plan.balanced (fun p hp => (hpasses p hp).2) (ready_inserted h.wellFormed) hnext))

theorem tradedFrom_next (db : Tables) (side : Side) (u : Nat) (s : String) :
    db.tradedFrom db.tbl_trades.next side u s = 0 := by
  have h : db.tbl_trades.rows.map (Trade.share db.tbl_trades.next side u s) =
      db.tbl_trades.rows.map fun _ => 0 := by
    apply List.map_congr_left
    intro t ht
    have := db.tbl_trades.fresh t ht
    exact if_neg fun h => by omega
  rw [Tables.tradedFrom, h]
  simp

/-- **Size is conserved** along a run in which each order is refused at its
insertion or only reaches orders whose trades fit and whose sizes are subtracted
exactly: what a user's orders lost since the start is what the trades recorded
since then say. -/
theorem conserved_of_tradesFit (henv : env.Constrained) {reqs : List Request}
    (hw : w.db.WellFormed) (hT : ∀ req ∈ reqs, w.db.HasTrade req.symbol)
    (hsize : ∀ req ∈ reqs, 0 < req.size)
    (hC : StepsMeet env TradesFit reqs w) (side : Side) (u : Nat) (s : String) :
    (serveAll env reqs w).2.db.executed side u s - w.db.executed side u s =
      (serveAll env reqs w).2.db.tradedFrom w.db.tbl_trades.next side u s := by
  have hC' := hC.and_forall (P := fun req => req ∈ reqs) fun _ h => h
  have hstart : InBalance w.db w.db := ⟨hw, le_refl _, fun _ _ _ => by simp⟩
  have hrun := serveAll_invariant env
    (I := fun w' => InBalance w.db w'.db ∧ ∀ req ∈ reqs, w'.db.HasTrade req.symbol)
    (fun req w' hI hC => ⟨serve_inBalance henv (hI.2 req hC.2) (hsize req hC.2).le hI.1
      hC.1, fun req' hreq' => serve_hasTrade (hI.2 req' hreq')⟩)
    ⟨hstart, hT⟩ hC'
  have := hrun.1.balanced side u s
  rw [tradedFrom_next, sub_zero] at this
  exact this

/-- A market BUY that takes one order whole and a part of the next is balanced. -/
theorem conserved_market_buy :
    let w := World.start (Tables.traded.place [.btc 1 .SELL 11 1, .btc 1 .SELL 10 1])
    let w' := (serveAll .constrained [.market ⟨3, .BUY, "BTC/USDT", 3/2⟩] w).2
    w'.db.executed .SELL 1 "BTC/USDT" - w.db.executed .SELL 1 "BTC/USDT" =
      w'.db.tradedFrom w.db.tbl_trades.next .SELL 1 "BTC/USDT" := by
  intro w w'
  have hone : SoundSize 1 := ⟨by decide, by exact_mod_cast IsDecimal.natCast 1, by decide +kernel⟩
  have hrows : ∀ r ∈ w.db.tbl_order_books.rows, r.size = 1 ∧ r.price.all (fits 17 8) = true := by
    decide +kernel
  have hw : w.db.WellFormed := fun r hr _ => ⟨(hrows r hr).1 ▸ hone, (hrows r hr).2⟩
  have hT : ∀ req ∈ [Request.market ⟨3, .BUY, "BTC/USDT", 3/2⟩], w.db.HasTrade req.symbol := by
    unfold Tables.HasTrade
    decide +kernel
  have hfits : TradesFit (.market ⟨3, .BUY, "BTC/USDT", 3/2⟩) w := by
    unfold TradesFit
    decide +kernel
  refine conserved_of_tradesFit Env.constrained_constrained hw hT ?_ ⟨hfits, trivial⟩ _ _ _
  intro req hreq
  obtain rfl := List.mem_singleton.mp hreq
  norm_num [Request.size]

/-- The leftover of a market SELL has no price; the BUY that meets it loses its
size without a trade. -/
theorem size_vanishes :
    let w := World.start .traded
    let reqs : List Request :=
      [.market ⟨2, .SELL, "BTC/USDT", 5⟩, .limit ⟨1, .BUY, "BTC/USDT", 10, 3⟩]
    let w' := (serveAll .constrained reqs w).2
    w.db.WellFormed ∧ (∀ req ∈ reqs, w.db.HasTrade req.symbol) ∧
      w'.db.executed .BUY 1 "BTC/USDT" - w.db.executed .BUY 1 "BTC/USDT" = 3 ∧
      w'.db.tradedFrom w.db.tbl_trades.next .BUY 1 "BTC/USDT" = 0 := by
  refine ⟨?_, ?_, by decide +kernel, by decide +kernel⟩
  · intro r hr
    cases hr
  · unfold Tables.HasTrade
    decide +kernel

end Exchange
