import Exchange.OrderBook.Ledger

/-!
# Sizes of rows

A row should have a size between zero and its original size, and be closed
exactly at size zero. Sizes come unchecked from the request and are rounded when
they are written, while the matcher goes on with the doubles it holds: a negative
order makes the resting order larger (`resting_order_grows`), and of 0.1 and 0.7
taken from 0.8 a rest stays that is written as 0. A body with
the key of a row sets the size of that row.

`soundRows_of_soundSizes`: along every run of orders, with keys or without, in
which whatever an order leaves open rounds to a positive size that is not larger
than before, the rows are as they should be.
-/

namespace Exchange

open Async OrderBookService Store

structure OrderBook.Sound (row : OrderBook) : Prop where
  nonneg : 0 ≤ row.size
  le_orgSize : row.size ≤ row.orgSize
  filled : row.is_filled = true ↔ row.size = 0

/-- The update closes the row, or leaves it open with a positive size that is not larger. -/
def OrderUpdate.Shrinks (u : OrderUpdate) (row : OrderBook) : Prop :=
  u.is_filled = some true ∧ u.size = 0 ∨
    u.is_filled = none ∧ 0 < roundTo 8 u.size ∧ roundTo 8 u.size ≤ row.size

theorem OrderUpdate.Shrinks.size_le {u : OrderUpdate} {row : OrderBook} (h : u.Shrinks row)
    (hrow : row.Sound) : (u.apply row).size ≤ row.size := by
  rcases h with ⟨-, hsize⟩ | ⟨-, -, hle⟩
  · simpa [OrderUpdate.apply, hsize] using hrow.nonneg
  · exact hle

theorem OrderUpdate.Shrinks.sound {u : OrderUpdate} {row : OrderBook} (h : u.Shrinks row)
    (hrow : row.Sound) : (u.apply row).Sound := by
  have hle := (h.size_le hrow).trans hrow.le_orgSize
  rcases h with ⟨hfilled, hsize⟩ | ⟨hfilled, hpos, hless⟩
  · constructor
    · simp [OrderUpdate.apply, hsize]
    · exact hle
    · simp [OrderUpdate.apply, hsize, hfilled]
  · have hopen : row.is_filled = false := by
      rw [← Bool.not_eq_true, hrow.filled]
      exact (hpos.trans_le hless).ne'
    constructor
    · exact hpos.le
    · exact hle
    · simp [OrderUpdate.apply, hfilled, hopen, hpos.ne']

/-! ## Writes -/

/-- An update of the row shrinks it; a trade has a positive size. -/
def Write.Shrinks : Write → OrderBook → Prop
  | .update id u _, row => row.id = id → u.Shrinks row
  | .trade t _, _ => 0 < roundTo 8 t.size
  | .order .., _ => True

/-- Every write, if the columns accept it and those before it, shrinks the row. -/
def ShrinkingWrites : List Write → OrderBook → Prop
  | [], _ => True
  | wr :: ws, row => wr.op.admissible = true → wr.Shrinks row ∧ ShrinkingWrites ws (wr.onRow row)

theorem Write.Shrinks.onRow {wr : Write} {row : OrderBook} (h : wr.Shrinks row)
    (hrow : row.Sound) : (wr.onRow row).Sound ∧ (wr.onRow row).size ≤ row.size := by
  cases wr with
  | order o now => exact ⟨hrow, le_refl _⟩
  | trade t x => exact ⟨hrow, le_refl _⟩
  | update id u x =>
    simp only [Write.onRow]
    split
    · next hid => exact ⟨(h hid).sound hrow, (h hid).size_le hrow⟩
    · exact ⟨hrow, le_refl _⟩

theorem ShrinkingWrites.rowAfter {ws done : List Write} {row : OrderBook}
    (h : ShrinkingWrites ws row) (hdone : done <+: ws)
    (hadm : ∀ wr ∈ done, wr.op.admissible = true) (hrow : row.Sound) :
    (rowAfter done row).Sound ∧ (rowAfter done row).size ≤ row.size := by
  induction done generalizing ws row with
  | nil => exact ⟨hrow, le_refl _⟩
  | cons wr done ih =>
    obtain ⟨post, rfl⟩ := hdone
    rw [List.forall_mem_cons] at hadm
    obtain ⟨hwr, hws⟩ := h hadm.1
    obtain ⟨hsound, hle⟩ := hwr.onRow hrow
    obtain ⟨hsound', hle'⟩ := ih hws (List.prefix_append ..) hadm.2 hsound
    exact ⟨hsound', hle'.trans hle⟩

/-- Sizes stay numbers that the column stores as they are. -/
theorem rowAfter_stored (ws : List Write) {row : OrderBook}
    (h : roundTo 8 row.size = row.size) :
    roundTo 8 (rowAfter ws row).size = (rowAfter ws row).size := by
  induction ws generalizing row with
  | nil => exact h
  | cons wr ws ih =>
    have hwr : roundTo 8 (wr.onRow row).size = (wr.onRow row).size := by
      cases wr with
      | order o now => exact h
      | trade t x => exact h
      | update id u x =>
        simp only [Write.onRow]
        split
        · exact (isDecimal_roundTo _).roundTo_eq
        · exact h
    exact ih hwr

theorem ShrinkingWrites.recorded {ws done : List Write} {row : OrderBook}
    (h : ShrinkingWrites ws row) (hdone : done <+: ws)
    (hadm : ∀ wr ∈ done, wr.op.admissible = true) :
    ∀ f ∈ done.filterMap Write.recorded, 0 < f.size := by
  induction done generalizing ws row with
  | nil => simp
  | cons wr done ih =>
    obtain ⟨post, rfl⟩ := hdone
    rw [List.forall_mem_cons] at hadm
    obtain ⟨hwr, hws⟩ := h hadm.1
    have hrest := ih hws (List.prefix_append ..) hadm.2
    cases wr with
    | order o now => exact hrest
    | update id u x => exact hrest
    | trade t x =>
      change ∀ f ∈ t.fill :: done.filterMap Write.recorded, 0 < f.size
      rw [List.forall_mem_cons]
      exact ⟨hwr, hrest⟩

/-! ## One plan -/

/-- The columns accept the trade that takes `q` from `r`. -/
def tradable (r : OrderBook) (q : ℚ) : Bool :=
  r.price.isSome && r.price.all (fits 17 8) && fits 17 8 q &&
    fits 10 2 (Double.mul (number r.price) q)

/-- What is left rounds to a positive size that is not larger than before. -/
def shrinks (size left : ℚ) : Bool := 0 < roundTo 8 left && roundTo 8 left ≤ roundTo 8 size

/-- Along the walk with demand `s`, what stays open after an accepted trade shrinks. -/
def soundWalk (m : Matcher) (price : Text.Value) : ℚ → List OrderBook → Bool
  | _, [] => true
  | s, r :: L =>
      m.halts price r ||
        if Double.fl s ≤ Double.fl r.size then
          !tradable r s || Double.sub r.size s = 0 || shrinks r.size (Double.sub r.size s)
        else
          !tradable r r.size ||
            (shrinks s (Double.sub s r.size) && soundWalk m price (Double.sub s r.size) L)

/-- The row has the sizes of the matcher's copies of the orders, rounded. -/
structure SameSizes (order : OrderBook) (L : List OrderBook) (row : OrderBook) : Prop where
  own : row.id = order.id → row.size = roundTo 8 order.size
  resting : ∀ r ∈ L, row.id = r.id → row.size = r.size

section Passes

variable {m : Matcher} {order r row : OrderBook} {L : List OrderBook} {ws : List Write}

theorem shrinking_fullWrites (hpos : 0 < roundTo 8 order.size)
    (hsound : tradable r order.size = true →
      Double.sub r.size order.size = 0 ∨ shrinks r.size (Double.sub r.size order.size) = true)
    (hstored : roundTo 8 r.size = r.size) (hne : r.id ≠ order.id)
    (hrow : SameSizes order (r :: L) row) (t₁ t₂ t₃ : Nat) :
    ShrinkingWrites (m.fullWrites order r t₁ t₂ t₃) row := by
  intro _
  refine ⟨fun _ => .inl ⟨rfl, rfl⟩, fun htrade => ⟨hpos, fun _ => ⟨?_, trivial⟩⟩⟩
  by_cases hown : row.id = order.id
  · simp only [Write.onRow, if_pos hown]
    exact fun hid => absurd (hid.symm.trans hown) hne
  simp only [Write.onRow, if_neg hown]
  intro hid
  have hsize := hrow.resting r List.mem_cons_self hid
  split
  · exact .inl ⟨rfl, rfl⟩
  · next h0 =>
    have hleft := (hsound htrade).resolve_left h0
    simp only [shrinks, Bool.and_eq_true, decide_eq_true_eq] at hleft
    exact .inr ⟨rfl, hleft.1, hleft.2.trans (hstored.trans hsize.symm).le⟩

theorem shrinking_partWrites (hr : 0 < r.size) (hstored : roundTo 8 r.size = r.size)
    (hrest : tradable r r.size = true →
      shrinks order.size (Double.sub order.size r.size) = true)
    (hne : r.id ≠ order.id) (hrow : SameSizes order (r :: L) row) (t₁ t₂ : Nat)
    (hws : tradable r r.size = true →
      ShrinkingWrites ws (rowAfter (m.partWrites order r t₁ t₂) row)) :
    ShrinkingWrites (m.partWrites order r t₁ t₂ ++ ws) row := by
  have htaken : 0 < roundTo 8 r.size := hstored.symm ▸ hr
  intro _
  refine ⟨fun _ => .inl ⟨rfl, rfl⟩, fun htrade => ⟨htaken, fun _ => ⟨?_, hws htrade⟩⟩⟩
  by_cases hrid : row.id = r.id
  · simp only [Write.onRow, if_pos hrid]
    exact fun hid => absurd (hrid.symm.trans hid) hne
  simp only [Write.onRow, if_neg hrid]
  intro hid
  have hleft := hrest htrade
  simp only [shrinks, Bool.and_eq_true, decide_eq_true_eq, ← hrow.own hid] at hleft
  exact .inr ⟨rfl, hleft.1, hleft.2⟩

/-- After a pass that takes the whole of `r`, the row agrees with what the loop goes on with. -/
theorem SameSizes.rest (hrow : SameSizes order (r :: L) row) (hne : r.id ≠ order.id)
    (hL : ∀ r' ∈ L, r'.id ≠ r.id ∧ r'.id ≠ order.id) (t₁ t₂ : Nat) :
    SameSizes (m.rest order r) L (rowAfter (m.partWrites order r t₁ t₂) row) := by
  have hid := (rowAfter_worked (matching_partWrites m order r t₁ t₂) row).id
  constructor
  · intro hown
    rw [hid, Matcher.rest_id] at hown
    have hnr : row.id ≠ r.id := fun e => hne (e ▸ hown)
    simp [rowAfter, Matcher.partWrites, Write.onRow, hown, hown ▸ hnr, OrderUpdate.apply]
  · intro r' hr' hrid
    rw [hid] at hrid
    obtain ⟨hnr, hno⟩ := hL r' hr'
    rw [rowAfter_partWrites_other (hrid ▸ hnr) (hrid ▸ hno)]
    exact hrow.resting r' (List.mem_cons_of_mem _ hr') hrid

end Passes

/-- **Every plan shrinks every row**, as far as its writes are accepted, if what
the walk leaves open shrinks. -/
theorem Plan.shrinking {m : Matcher} {order : OrderBook} {L : List OrderBook} {ws : List Write}
    (h : Plan m order L ws) (hpos : 0 < roundTo 8 order.size)
    (hwalk : soundWalk m order.held order.size L = true)
    (hL : ∀ r ∈ L, 0 < r.size ∧ roundTo 8 r.size = r.size)
    (hnd : (L.map OrderBook.id).Nodup) (hne : ∀ r ∈ L, r.id ≠ order.id) {row : OrderBook}
    (hrow : SameSizes order L row) : ShrinkingWrites ws row := by
  induction h generalizing row with
  | nil | stop => trivial
  | @full order r L t₁ t₂ t₃ h hs =>
    have hr := hL r List.mem_cons_self
    apply shrinking_fullWrites hpos _ hr.2 (hne r List.mem_cons_self) hrow
    intro htrade
    simpa [soundWalk, h, hs, htrade] using hwalk
  | @part order r L ws t₁ t₂ h hs hp ih =>
    rw [List.forall_mem_cons] at hL hne
    rw [List.map_cons, List.nodup_cons] at hnd
    have hwalk' : tradable r r.size = true →
        shrinks order.size (Double.sub order.size r.size) = true ∧
          soundWalk m order.held (Double.sub order.size r.size) L = true := by
      intro htrade
      simpa [soundWalk, h, hs.not_ge, htrade] using hwalk
    apply shrinking_partWrites hL.1.1 hL.1.2 _ hne.1 hrow
    · intro htrade
      obtain ⟨hshrinks, hwalk'⟩ := hwalk' htrade
      have hpos' : 0 < roundTo 8 (Double.sub order.size r.size) := by
        simp only [shrinks, Bool.and_eq_true, decide_eq_true_eq] at hshrinks
        exact hshrinks.1
      apply ih hpos' hwalk' hL.2 hnd.2 hne.2
      apply hrow.rest hne.1
      intro r' hr'
      exact ⟨fun e => hnd.1 (e ▸ List.mem_map_of_mem hr'), hne.2 r' hr'⟩
    · exact fun htrade => (hwalk' htrade).1

/-- The first write of a plan closes an order. -/
theorem Plan.shrinking_first {m : Matcher} {order : OrderBook} {L : List OrderBook}
    {ws : List Write} (h : Plan m order L ws) (row : OrderBook) :
    ShrinkingWrites (ws.take 1) row := by
  cases h with
  | nil | stop => trivial
  | full => exact fun _ => ⟨fun _ => .inl ⟨rfl, rfl⟩, trivial⟩
  | part => exact fun _ => ⟨fun _ => .inl ⟨rfl, rfl⟩, trivial⟩

/-! ## Calls -/

/-- The rows are sound, with stored sizes, and so are the sizes of the trades. -/
structure Tables.Sound (db : Tables) : Prop where
  orders : ∀ row ∈ db.tbl_order_books.rows, row.Sound ∧ roundTo 8 row.size = row.size
  trades : ∀ t ∈ db.tbl_trades.rows, 0 < t.size

/-- No row of `db` has a larger size in `db'`. -/
def Tables.NoneGrows (db db' : Tables) : Prop :=
  ∀ row ∈ db.tbl_order_books.rows, ∀ row' ∈ db'.tbl_order_books.rows,
    row'.id = row.id → row'.size ≤ row.size

/-- The condition on a step: the save is refused; or the order rounds to a positive
size, which is no larger than that of the row whose key it has, and, if the symbol
has a trade, whatever it leaves open shrinks. -/
def SoundSizes (env : Env) (order : NewOrder) (w : World) : Prop :=
  env.fails w.calls (.saveOrderBook order.submitted) = true ∨
    0 < roundTo 8 order.size ∧
      (∀ row ∈ w.db.tbl_order_books.rows, order.id = some row.id →
        roundTo 8 order.size ≤ row.size) ∧
      (w.db.HasTrade order.symbol →
        soundWalk order.matcher (order.taker env w).held order.size (order.resting env w) = true)

section Calls

variable {env : Env} {order : NewOrder} {w : World}

/-- The world after the order has been handled. -/
abbrev NewOrder.after (order : NewOrder) (env : Env) (w : World) : World :=
  ((handleOrder order).run (World.perform env) w).2

theorem sameSizes_inserted {row : OrderBook}
    (hrow : row ∈ (order.inserted env w).tbl_order_books.rows) :
    SameSizes (order.taker env w) (order.resting env w) row := by
  constructor
  · intro hid
    rcases NewOrder.inserted_row hrow with ⟨-, hsaved, -⟩ | ⟨hne, -⟩
    · rw [hsaved.size, NewOrder.taker_size]
    · exact absurd hid hne
  · intro r hr hid
    rw [Table.eq_of_key hrow (NewOrder.resting_row hr).1 hid]

/-- The row of an order that rounds to a positive size. -/
theorem NewOrder.SavedAs.sound {row : OrderBook} (h : order.SavedAs row)
    (hpos : 0 < roundTo 8 order.size) : row.Sound where
  nonneg := by
    rw [h.size]
    exact hpos.le
  le_orgSize := by rw [h.size, h.orgSize]
  filled := by simpa [h.size, h.is_filled] using hpos.ne'

section Processed

variable {r : Except Err Response} {w' : World} {ws done : List Write}

/-- What is written for an order shrinks every row. -/
theorem Processed.shrinking (h : Processed env order w r w' ws done) (hw : w.db.Sound)
    (hC : SoundSizes env order w)
    {row : OrderBook} (hrow : row ∈ (order.inserted env w).tbl_order_books.rows) :
    ∃ ws', done <+: ws' ∧ ShrinkingWrites ws' row := by
  obtain ⟨hpos, -, hwalk⟩ := hC.resolve_left (by simp [h.accepted])
  by_cases hT : w.db.HasTrade order.symbol
  · refine ⟨ws, h.made, ?_⟩
    apply h.plan.shrinking
    · rw [NewOrder.taker_size]
      exact hpos
    · rw [NewOrder.taker_size]
      exact hwalk hT
    · intro r hr
      obtain ⟨-, -, hrow, hopen⟩ := NewOrder.resting_row hr
      obtain ⟨hsound, hstored⟩ := hw.orders r hrow
      refine ⟨lt_of_le_of_ne hsound.nonneg fun h0 => ?_, hstored⟩
      rw [hsound.filled.mpr h0.symm] at hopen
      cases hopen
    · exact (order.inserted env w).resting_nodup _ _
    · exact fun r hr => (NewOrder.resting_row hr).2.1
    · exact sameSizes_inserted hrow
  · -- the emission after the first write raises
    have hfirst : done <+: ws.take 1 := List.prefix_take_iff.mpr ⟨h.made, h.stuck hT⟩
    exact ⟨ws.take 1, hfirst, h.plan.shrinking_first row⟩

theorem NewOrder.inserted_sound (hw : w.db.Sound) (hpos : 0 < roundTo 8 order.size) :
    ∀ row ∈ (order.inserted env w).tbl_order_books.rows,
      row.Sound ∧ roundTo 8 row.size = row.size := by
  intro row hrow
  rcases NewOrder.inserted_row hrow with ⟨-, hsaved, -⟩ | ⟨-, hold⟩
  · refine ⟨hsaved.sound hpos, ?_⟩
    rw [hsaved.size]
    exact (isDecimal_roundTo _).roundTo_eq
  · exact hw.orders row hold

/-- Every row comes from one that was sound and not smaller. -/
theorem Processed.rows_sound (h : Processed env order w r w' ws done)
    (henv : env.RefusesInadmissible) (hw : w.db.Sound) (hC : SoundSizes env order w) :
    ∀ row ∈ (order.inserted env w).tbl_order_books.rows,
      (rowAfter done row).Sound ∧ (rowAfter done row).size ≤ row.size := by
  intro row hrow
  obtain ⟨hpos, -, -⟩ := hC.resolve_left (by simp [h.accepted])
  obtain ⟨ws', hdone, hws'⟩ := h.shrinking hw hC hrow
  exact hws'.rowAfter hdone (h.done_admissible henv) (NewOrder.inserted_sound hw hpos row hrow).1

theorem Processed.trades_sound (h : Processed env order w r w' ws done)
    (henv : env.RefusesInadmissible) (hw : w.db.Sound) (hC : SoundSizes env order w) :
    ∀ t ∈ w'.db.tbl_trades.rows, 0 < t.size := by
  intro t ht
  have hfill := List.mem_map_of_mem (f := Trade.fill) ht
  rw [h.db, Tables.writeAll_trades_fill _ h.matching, NewOrder.inserted_trades] at hfill
  rcases List.mem_append.mp hfill with hfill | hfill
  · obtain ⟨t', ht', he⟩ := List.mem_map.mp hfill
    have hsize : t'.size = t.size := congrArg Fill.size he
    exact hsize ▸ hw.trades t' ht'
  · obtain ⟨row, hrow⟩ : ∃ row, row ∈ (order.inserted env w).tbl_order_books.rows :=
      NewOrder.exists_inserted
    obtain ⟨ws', hdone, hws'⟩ := h.shrinking hw hC hrow
    exact hws'.recorded hdone (h.done_admissible henv) _ hfill

theorem Processed.sound (h : Processed env order w r w' ws done)
    (henv : env.RefusesInadmissible) (hw : w.db.Sound) (hC : SoundSizes env order w) :
    w'.db.Sound where
  orders := by
    obtain ⟨hpos, -, -⟩ := hC.resolve_left (by simp [h.accepted])
    intro row' hrow'
    rw [h.rows] at hrow'
    obtain ⟨row, hrow, rfl⟩ := List.mem_map.mp hrow'
    exact ⟨(h.rows_sound henv hw hC row hrow).1,
      rowAfter_stored done (NewOrder.inserted_sound hw hpos row hrow).2⟩
  trades := h.trades_sound henv hw hC

theorem Processed.noneGrows (h : Processed env order w r w' ws done)
    (henv : env.RefusesInadmissible) (hw : w.db.Sound) (hC : SoundSizes env order w) :
    w.db.NoneGrows w'.db := by
  obtain ⟨-, hkey, -⟩ := hC.resolve_left (by simp [h.accepted])
  intro row hrow row' hrow' hid
  rw [h.rows] at hrow'
  obtain ⟨row₀, hrow₀, rfl⟩ := List.mem_map.mp hrow'
  rw [(rowAfter_worked h.matching row₀).id] at hid
  apply (h.rows_sound henv hw hC row₀ hrow₀).2.trans
  rcases NewOrder.inserted_row hrow₀ with ⟨-, hsaved, hnew | hsome⟩ | ⟨-, hold⟩
  · have hlt := w.db.tbl_order_books.fresh row hrow
    omega
  · rw [hsaved.size]
    exact hkey row hrow (hid ▸ hsome)
  · rw [Table.eq_of_key hold hrow hid]

end Processed

theorem handleOrder_sound (henv : env.RefusesInadmissible) (hw : w.db.Sound)
    (hC : SoundSizes env order w) :
    (order.after env w).db.Sound ∧ w.db.NoneGrows (order.after env w).db := by
  rcases handleOrder_processed env order w with ⟨-, -, hw'⟩ | ⟨ws, done, h⟩
  · rw [NewOrder.after, hw']
    refine ⟨hw, fun row hrow row' hrow' hid => ?_⟩
    rw [Table.eq_of_key hrow' hrow hid]
  · exact ⟨h.sound henv hw hC, h.noneGrows henv hw hC⟩

/-- **Rows stay sound** and no call makes one larger, along a run in which what
an order leaves open rounds to positive sizes that are not larger than before. -/
theorem soundRows_of_soundSizes (henv : env.RefusesInadmissible) {orders : List NewOrder}
    (hw : w.db.Sound) (hC : OrdersMeet env (SoundSizes env) orders w) :
    (handleAll env orders w).db.Sound ∧
      OrdersMeet env (fun order w => w.db.NoneGrows (order.after env w).db) orders w := by
  induction orders generalizing w with
  | nil => exact ⟨hw, trivial⟩
  | cons order orders ih =>
    obtain ⟨hsound, hgrows⟩ := handleOrder_sound henv hw hC.1
    obtain ⟨hsound', hgrows'⟩ := ih hsound hC.2
    exact ⟨hsound', hgrows, hgrows'⟩

end Calls

theorem Tables.sound_of_ones {db : Tables} (horders : ∀ row ∈ db.tbl_order_books.rows,
      row.size = 1 ∧ row.orgSize = 1 ∧ row.is_filled = false)
    (htrades : ∀ t ∈ db.tbl_trades.rows, 0 < t.size) : db.Sound := by
  refine ⟨fun row hrow => ?_, htrades⟩
  obtain ⟨hsize, horg, hopen⟩ := horders row hrow
  have hstored : roundTo 8 1 = 1 := IsDecimal.roundTo_eq ⟨10 ^ 8, by norm_num⟩
  exact ⟨⟨by simp [hsize], by simp [hsize, horg], by simp [hsize, hopen]⟩, hsize ▸ hstored⟩

/-- A BUY takes one order whole and a part of the next. -/
theorem soundRows_after_buy :
    let w := World.start (Tables.traded.place [.btc 1 .SELL 11 1, .btc 1 .SELL 10 1])
    let orders := [Request.order (.limit ⟨2, .BUY, "BTC/USDT", 11, 3/2⟩)]
    (handleAll .constrained orders w).db.Sound ∧
      OrdersMeet .constrained
        (fun order w => w.db.NoneGrows (order.after .constrained w).db) orders w := by
  intro w orders
  have hw : w.db.Sound := Tables.sound_of_ones (by decide +kernel) (by decide +kernel)
  have hsizes : SoundSizes .constrained
      (Request.order (.limit ⟨2, .BUY, "BTC/USDT", 11, 3/2⟩)) w := by
    unfold SoundSizes Tables.HasTrade
    decide +kernel
  exact soundRows_of_soundSizes Env.constrained_constrained.refuses hw ⟨hsizes, trivial⟩

/-- A BUY of -1 is filled at once, and the SELL of 1 that it meets has size 2 after it. -/
theorem resting_order_grows :
    let w := World.start (Tables.traded.place [.btc 1 .SELL 10 1])
    let w' := handleAll .constrained [Request.order (.limit ⟨2, .BUY, "BTC/USDT", 10, -1⟩)] w
    w.db.Sound ∧ ¬ w'.db.Sound ∧ ¬ w.db.NoneGrows w'.db := by
  intro w w'
  refine ⟨Tables.sound_of_ones (by decide +kernel) (by decide +kernel), ?_, ?_⟩
  · intro h
    have htrades := h.trades
    revert htrades
    decide +kernel
  · unfold Tables.NoneGrows
    decide +kernel

-- a BUY of 0.8 takes 0.1 and 0.7, and stays open with size 0
example :
    let w := World.start (Tables.traded.place [.btc 1 .SELL 10 (1/10), .btc 1 .SELL 11 (7/10)])
    let w' := handleAll .constrained [Request.order (.limit ⟨2, .BUY, "BTC/USDT", 11, 8/10⟩)] w
    w'.db.tbl_order_books.rows.map (fun row => (row.uid, row.is_filled, row.size)) =
      [(1, true, 0), (1, true, 0), (2, false, 0)] := by
  decide +kernel

end Exchange
