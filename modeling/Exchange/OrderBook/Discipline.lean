import Exchange.OrderBook.Interleaving
import Exchange.OrderBook.Ledger
import Exchange.OrderBook.Ownership

/-!
# What concurrent requests keep

`Step` says which writes a request may make; `Advance` says what is left of the
tables, of the shared arrays and of the broadcasts when requests have interleaved.
The terms of an order never change, a trade is recorded at the price of a resting
order that the limit of the incoming one accepts, an array stays a sorted snapshot
of one side of one symbol, and what was broadcast was such a snapshot.
-/

namespace Exchange

open Async OrderBookService Store

/-! ## Rows and objects -/

/-- `row'` is `row` later on: the terms are the same, and a closed order stays closed. -/
structure OrderBook.Later (row row' : OrderBook) : Prop where
  kept : row.KeptIn row'
  closed : row.is_filled = true → row'.is_filled = true

theorem OrderBook.Later.refl (row : OrderBook) : row.Later row := ⟨rfl, fun hc => hc⟩

theorem OrderBook.Later.trans {row row' row'' : OrderBook} (h : row.Later row')
    (h' : row'.Later row'') : row.Later row'' :=
  ⟨h.kept.trans h'.kept, fun hc => h'.closed (h.closed hc)⟩

/-- The row of the order that this object is of; a column has rounded its price. -/
structure OrderBook.Backs (row r : OrderBook) : Prop where
  id : row.id = r.id
  uid : row.uid = r.uid
  side : row.side = r.side
  symbol : row.symbol = r.symbol
  type : row.type = r.type
  price : row.price = r.price.map (roundTo 8)
  held : row.held = r.held

theorem OrderBook.Later.backs {row row' r : OrderBook} (h : row.Later row') (hr : row.Backs r) :
    row'.Backs r := by
  have hkept := h.kept
  unfold OrderBook.KeptIn at hkept
  rw [hkept]
  exact ⟨hr.id, hr.uid, hr.side, hr.symbol, hr.type, hr.price, hr.held⟩

def Tables.Backs (db : Tables) (r : OrderBook) : Prop :=
  ∃ row ∈ db.tbl_order_books.rows, row.Backs r

/-- The object `r'` in an array is the object `r` with another size. -/
def OrderBook.Resized (r r' : OrderBook) : Prop := r' = { r with size := r'.size }

theorem OrderBook.Resized.refl (r : OrderBook) : r.Resized r := rfl

theorem OrderBook.Resized.trans {r r' r'' : OrderBook} (h : r.Resized r') (h' : r'.Resized r'') :
    r.Resized r'' := by
  unfold OrderBook.Resized at *
  rw [h', h]

theorem Tables.Backs.resized {db : Tables} {r r' : OrderBook} (h : db.Backs r)
    (hr : r.Resized r') : db.Backs r' := by
  obtain ⟨row, hrow, hb⟩ := h
  unfold OrderBook.Resized at hr
  rw [hr]
  exact ⟨row, hrow, hb.id, hb.uid, hb.side, hb.symbol, hb.type, hb.price, hb.held⟩

/-! ## Tables -/

/-- A price that a limit order of this side accepts; the two are compared as they are held. -/
def Side.accepts : Side → Text.Value → Text.Value → Bool
  | .BUY, limit, price => price.le Double.fl limit
  | .SELL, limit, price => limit.le Double.fl price

/-- The trade that executes the order `taker` against the resting order `maker`: between
their users, at the price of the resting order, which the limit of the other accepts. -/
structure Trade.Strikes (t : Trade) (taker maker : OrderBook) : Prop where
  opposite : maker.side = taker.side.opposite
  taken : t.party taker.side = taker.uid
  made : t.party maker.side = maker.uid
  symbol : t.symbol = taker.symbol
  type : t.type = taker.type
  price : t.price = maker.price
  limit : taker.type = .Limit → taker.side.accepts taker.held maker.held = true

/-- A limit with as many digits before the point as the price is kept as a number. -/
theorem Trade.Strikes.within {t : Trade} {taker maker : OrderBook} (h : t.Strikes taker maker)
    (htype : taker.type = .Limit) {limit price : ℚ} (htaker : taker.price = some limit)
    (hmaker : maker.price = some price) (hread : taker.numeric = false ∧ maker.numeric = false)
    (hlimit : 0 ≤ limit) (hprice : 0 ≤ price)
    (hdigits : Text.wholeDigits 8 limit = Text.wholeDigits 8 price) :
    match taker.side with
    | .BUY => roundTo 8 price ≤ roundTo 8 limit
    | .SELL => roundTo 8 limit ≤ roundTo 8 price := by
  have haccepts := h.limit htype
  cases hside : taker.side with
  | BUY =>
    rw [hside] at haccepts
    exact (OrderBook.held_le_iff hmaker htaker hread.2 hread.1 hprice hlimit hdigits.symm).mp
      haccepts
  | SELL =>
    rw [hside] at haccepts
    exact (OrderBook.held_le_iff htaker hmaker hread.1 hread.2 hlimit hprice hdigits).mp haccepts

/-- The row of the order that a call asks for. -/
structure PlacedBy (calls : List Call) (row : OrderBook) : Prop where
  call : ∃ req : Request, .order req ∈ calls ∧ row.uid = req.order.uid ∧
    row.side = req.order.side ∧ row.symbol = req.order.symbol ∧ row.type = req.order.type ∧
    row.price = req.order.price.map (roundTo 8) ∧ row.orgSize = roundTo 8 req.order.size

theorem Trade.Strikes.later {t : Trade} {taker taker' maker maker' : OrderBook}
    (h : t.Strikes taker maker) (ht : taker.Later taker') (hm : maker.Later maker') :
    t.Strikes taker' maker' := by
  have htaker := ht.kept
  have hmaker := hm.kept
  unfold OrderBook.KeptIn at htaker hmaker
  rw [htaker, hmaker]
  exact ⟨h.opposite, h.taken, h.made, h.symbol, h.type, h.price, h.limit⟩

theorem PlacedBy.later {calls : List Call} {row row' : OrderBook} (h : PlacedBy calls row)
    (hr : row.Later row') : PlacedBy calls row' := by
  have hkept := hr.kept
  unfold OrderBook.KeptIn at hkept
  rw [hkept]
  exact ⟨h.call⟩

/-- What the tables have become under these calls. -/
structure Disciplined (calls : List Call) (db db' : Tables) : Prop where
  kept : ∀ row ∈ db.tbl_order_books.rows, ∃ row' ∈ db'.tbl_order_books.rows, row.Later row'
  origin : ∀ row' ∈ db'.tbl_order_books.rows,
    (∃ row ∈ db.tbl_order_books.rows, row.Later row') ∨ PlacedBy calls row'
  log : db.tbl_trades.rows <+: db'.tbl_trades.rows
  struck : ∀ t ∈ db'.tbl_trades.rows, t ∈ db.tbl_trades.rows ∨
    ∃ taker ∈ db'.tbl_order_books.rows, ∃ maker ∈ db'.tbl_order_books.rows,
      PlacedBy calls taker ∧ t.Strikes taker maker

section Tables

variable {calls : List Call} {db db' db'' : Tables}

theorem Disciplined.refl (calls : List Call) (db : Tables) : Disciplined calls db db where
  kept := fun row h => ⟨row, h, OrderBook.Later.refl row⟩
  origin := fun row h => .inl ⟨row, h, OrderBook.Later.refl row⟩
  log := List.prefix_refl _
  struck := fun _ h => .inl h

theorem Disciplined.trans (h : Disciplined calls db db') (h' : Disciplined calls db' db'') :
    Disciplined calls db db'' where
  kept := by
    intro row hrow
    obtain ⟨row', hrow', hl⟩ := h.kept row hrow
    obtain ⟨row'', hrow'', hl'⟩ := h'.kept row' hrow'
    exact ⟨row'', hrow'', hl.trans hl'⟩
  origin := by
    intro row'' hrow''
    rcases h'.origin row'' hrow'' with ⟨row', hrow', hl'⟩ | hnew
    · rcases h.origin row' hrow' with ⟨row, hrow, hl⟩ | hnew
      · exact .inl ⟨row, hrow, hl.trans hl'⟩
      · exact .inr (hnew.later hl')
    · exact .inr hnew
  log := h.log.trans h'.log
  struck := by
    intro t ht
    rcases h'.struck t ht with ht | hnew
    · rcases h.struck t ht with ht | ⟨taker, htaker, maker, hmaker, hplaced, hs⟩
      · exact .inl ht
      · -- the two orders still have rows
        obtain ⟨taker', htaker', hl⟩ := h'.kept taker htaker
        obtain ⟨maker', hmaker', hl'⟩ := h'.kept maker hmaker
        exact .inr ⟨taker', htaker', maker', hmaker', hplaced.later hl, hs.later hl hl'⟩
    · exact .inr hnew

theorem Disciplined.backs (h : Disciplined calls db db') {r : OrderBook} (hr : db.Backs r) :
    db'.Backs r := by
  obtain ⟨row, hrow, hb⟩ := hr
  obtain ⟨row', hrow', hl⟩ := h.kept row hrow
  exact ⟨row', hrow', hl.backs hb⟩

/-- The row of the order `r`, one that a call asks for, is in the tables. -/
def Tables.Admits (db : Tables) (calls : List Call) (r : OrderBook) : Prop :=
  ∃ row ∈ db.tbl_order_books.rows, row.Backs r ∧ PlacedBy calls row

theorem Disciplined.admits (h : Disciplined calls db db') {r : OrderBook}
    (hr : db.Admits calls r) : db'.Admits calls r := by
  obtain ⟨row, hrow, hb, hplaced⟩ := hr
  obtain ⟨row', hrow', hl⟩ := h.kept row hrow
  exact ⟨row', hrow', hl.backs hb, hplaced.later hl⟩

/-- An update that reopens no order. -/
theorem Disciplined.update (db : Tables) (id : Nat) {u : OrderUpdate}
    (hu : u.is_filled ≠ some false) (x : Execution) :
    Disciplined calls db (db.write (.update id u x)) := by
  have hlater : ∀ row : OrderBook, row.Later (if row.id = id then u.apply row else row) := by
    intro row
    split
    · refine ⟨rfl, fun hc => ?_⟩
      cases hf : u.is_filled with
      | none => simpa [OrderUpdate.apply, hf] using hc
      | some b =>
        cases b with
        | true => simp [OrderUpdate.apply, hf]
        | false => exact absurd hf hu
    · exact OrderBook.Later.refl row
  constructor
  · intro row hrow
    exact ⟨_, List.mem_map_of_mem hrow, hlater row⟩
  · intro row' hrow'
    obtain ⟨row, hrow, rfl⟩ := List.mem_map.mp hrow'
    exact .inl ⟨row, hrow, hlater row⟩
  · exact List.prefix_refl _
  · exact fun t ht => .inl ht

theorem Tables.write_order (db : Tables) {o : NewOrder} (hid : o.id = none) (now : Nat) :
    (db.write (.order o now)).tbl_order_books.rows =
      db.tbl_order_books.rows ++ [o.toRow db.tbl_order_books.next now] := by
  simp only [Tables.write, Tables.saveOrderBook, hid]
  rfl

/-- The row of an order of one of the calls. -/
theorem Disciplined.order (db : Tables) {o : NewOrder} (hid : o.id = none) (now : Nat)
    (hplaced : PlacedBy calls (o.toRow db.tbl_order_books.next now)) :
    Disciplined calls db (db.write (.order o now)) := by
  have hrows := db.write_order hid now
  have htrades : (db.write (.order o now)).tbl_trades = db.tbl_trades :=
    db.saveOrderBook_trades o now
  constructor
  · intro row hrow
    exact ⟨row, by rw [hrows]; exact List.mem_append_left _ hrow, OrderBook.Later.refl row⟩
  · intro row' hrow'
    rw [hrows] at hrow'
    rcases List.mem_append.mp hrow' with hrow' | hrow'
    · exact .inl ⟨row', hrow', OrderBook.Later.refl row'⟩
    · exact .inr (List.mem_singleton.mp hrow' ▸ hplaced)
  · rw [htrades]
  · intro t ht
    rw [htrades] at ht
    exact .inl ht

/-- A trade between two orders that have rows, one of them an order of a call. -/
theorem Disciplined.trade (db : Tables) (t : NewTrade) (x : Execution)
    (h : ∃ taker ∈ db.tbl_order_books.rows, ∃ maker ∈ db.tbl_order_books.rows,
      PlacedBy calls taker ∧ ∀ id, (t.toRow id).Strikes taker maker) :
    Disciplined calls db (db.write (.trade t x)) := by
  constructor
  · exact fun row hrow => ⟨row, hrow, OrderBook.Later.refl row⟩
  · exact fun row hrow => .inl ⟨row, hrow, OrderBook.Later.refl row⟩
  · exact List.prefix_append _ _
  · intro t' ht'
    rcases List.mem_append.mp ht' with ht' | ht'
    · exact .inl ht'
    · obtain ⟨taker, htaker, maker, hmaker, hplaced, hs⟩ := h
      exact .inr ⟨taker, htaker, maker, hmaker, hplaced, List.mem_singleton.mp ht' ▸ hs _⟩

end Tables

/-! ## Snapshots -/

/-- What a reload fetches: at most a hundred orders of one side of one symbol, the best last. -/
structure Tables.Listed (db : Tables) (side : Side) (symbol : String) (l : List OrderBook) :
    Prop where
  limit : l.length ≤ 100
  orders : ∀ r ∈ l, r.side = side ∧ r.symbol = symbol ∧ r.is_filled = false ∧ db.Backs r
  sorted : l.Pairwise fun a b => byPrice side.fetched a b = true

/-- A broadcast is of two snapshots of one symbol and of its latest trades of one symbol. -/
structure Message.Genuine (m : Message) (db : Tables) : Prop where
  books : ∃ symbol, db.Listed .BUY symbol m.buy_orders ∧ db.Listed .SELL symbol m.sell_orders
  limit : m.trades.length ≤ 20
  trades : ∃ symbol, ∀ t ∈ m.trades, t.symbol = symbol ∧ t ∈ db.tbl_trades.rows
  latest : m.trades.Pairwise fun a b => b.created_at ≤ a.created_at
  last : m.trades.head? = some m.last_trade
  change : ∃ before, m.change_in_price = number m.last_trade.price - before ∧
    m.precentage_change = percentage m.change_in_price before

section Snapshots

variable {calls : List Call} {db db' : Tables} {side : Side} {symbol : String}
  {l l' : List OrderBook}

theorem Tables.Listed.later (h : db.Listed side symbol l) (hd : Disciplined calls db db') :
    db'.Listed side symbol l where
  limit := h.limit
  orders := by
    intro r hr
    obtain ⟨hside, hsymbol, hopen, hb⟩ := h.orders r hr
    exact ⟨hside, hsymbol, hopen, hd.backs hb⟩
  sorted := h.sorted

theorem byPrice_resized {order_by : Direction} {a a' b b' : OrderBook} (ha : a.Resized a')
    (hb : b.Resized b') : byPrice order_by a' b' = byPrice order_by a b := by
  unfold OrderBook.Resized at ha hb
  rw [ha, hb]
  cases order_by <;> rfl

theorem Tables.Listed.resized (h : db.Listed side symbol l)
    (hl : List.Forall₂ OrderBook.Resized l l') : db.Listed side symbol l' where
  limit := hl.length_eq ▸ h.limit
  orders := by
    have horders := h.orders
    clear h
    induction hl with
    | nil => simp
    | cons ha _ ih =>
      obtain ⟨⟨hside, hsymbol, hopen, hb⟩, hrest⟩ := List.forall_mem_cons.mp horders
      refine List.forall_mem_cons.mpr ⟨?_, ih hrest⟩
      refine ⟨?_, ?_, ?_, hb.resized ha⟩
      · rw [← hside, ha]
      · rw [← hsymbol, ha]
      · rw [← hopen, ha]
  sorted := by
    have hsorted := h.sorted
    clear h
    induction hl with
    | nil => exact .nil
    | cons ha hl ih =>
      rw [List.pairwise_cons] at hsorted ⊢
      refine ⟨?_, ih hsorted.2⟩
      intro b' hb'
      obtain ⟨i, hi, rfl⟩ := List.getElem_of_mem hb'
      obtain ⟨hlen, hget⟩ := List.forall₂_iff_get.mp hl
      have hb := hget i (hlen ▸ hi) hi
      simp only [List.get_eq_getElem] at hb
      rw [byPrice_resized ha hb]
      exact hsorted.1 _ (List.getElem_mem _)

theorem listed_findOrders (hdb : db.PricesStored) (side : Side) (symbol : String) :
    db.Listed side symbol (db.findOrders side symbol 100 side.fetched) where
  limit := List.length_take_le _ _
  orders := by
    intro r hr
    have hopen := mem_of_mem_orderByLimit hr
    simp only [Tables.openOrders, List.mem_filter, decide_eq_true_eq] at hopen
    obtain ⟨hrow, hside, hsymbol, hfilled⟩ := hopen
    exact ⟨hside, hsymbol, hfilled, r, hrow, rfl, rfl, rfl, rfl, rfl, (hdb r hrow).symm, rfl⟩
  sorted := pairwise_orderByLimit (byPrice_total side.fetched)

theorem Message.Genuine.later {m : Message} (h : m.Genuine db) (hd : Disciplined calls db db') :
    m.Genuine db' where
  books := by
    obtain ⟨symbol, hbuy, hsell⟩ := h.books
    exact ⟨symbol, hbuy.later hd, hsell.later hd⟩
  limit := h.limit
  trades := by
    obtain ⟨symbol, htrades⟩ := h.trades
    exact ⟨symbol, fun t ht => ⟨(htrades t ht).1, hd.log.subset (htrades t ht).2⟩⟩
  latest := h.latest
  last := h.last
  change := h.change

end Snapshots

/-! ## The world -/

/-- Every array is a snapshot, the two current ones of one symbol; every broadcast was one. -/
structure World.Genuine (w : World) : Prop where
  stored : w.db.PricesStored
  arrays : ∀ l ∈ w.arrays, ∃ side symbol, w.db.Listed side symbol l
  valid : ∀ side, w.side side < w.arrays.length
  current : ∃ symbol, ∀ side, w.db.Listed side symbol (w.array (w.side side))
  sent : ∀ m ∈ w.sent, m.Genuine w.db

/-- What requests make of the world, together. -/
structure Advance (calls : List Call) (w w' : World) : Prop where
  tables : Disciplined calls w.db w'.db
  arrays : ∀ (orders : Nat) (l : List OrderBook), w.arrays[orders]? = some l →
    ∃ l', w'.arrays[orders]? = some l' ∧ List.Forall₂ OrderBook.Resized l l'
  sent : w.sent <+: w'.sent
  genuine : w.Genuine → w'.Genuine

section World

variable {calls : List Call} {w w' w'' : World}

theorem forall₂_resized_refl (l : List OrderBook) : List.Forall₂ OrderBook.Resized l l :=
  List.forall₂_same.mpr fun r _ => OrderBook.Resized.refl r

theorem forall₂_resized_trans {l l' l'' : List OrderBook}
    (h : List.Forall₂ OrderBook.Resized l l') (h' : List.Forall₂ OrderBook.Resized l' l'') :
    List.Forall₂ OrderBook.Resized l l'' := by
  induction h generalizing l'' with
  | nil => exact h'
  | cons ha _ ih =>
    cases h' with
    | cons ha' hl' => exact .cons (ha.trans ha') (ih hl')

theorem Advance.refl (calls : List Call) (w : World) : Advance calls w w where
  tables := Disciplined.refl calls w.db
  arrays := fun _ l h => ⟨l, h, forall₂_resized_refl l⟩
  sent := List.prefix_refl _
  genuine := id

theorem Advance.trans (h : Advance calls w w') (h' : Advance calls w' w'') :
    Advance calls w w'' where
  tables := h.tables.trans h'.tables
  arrays := by
    intro orders l hl
    obtain ⟨l', hl', ha⟩ := h.arrays orders l hl
    obtain ⟨l'', hl'', ha'⟩ := h'.arrays orders l' hl'
    exact ⟨l'', hl'', forall₂_resized_trans ha ha'⟩
  sent := h.sent.trans h'.sent
  genuine := fun hw => h'.genuine (h.genuine hw)

/-- A step that writes nothing, reloads nothing and sends nothing; sizes in arrays may change. -/
theorem Advance.of_resized (hdb : w'.db = w.db) (hb : w'.order_books = w.order_books)
    (hs : w'.sent = w.sent)
    (ha : List.Forall₂ (List.Forall₂ OrderBook.Resized) w.arrays w'.arrays) :
    Advance calls w w' := by
  obtain ⟨hlen, hget⟩ := List.forall₂_iff_get.mp ha
  have hside : w'.side = w.side := by
    funext side
    cases side <;> simp [World.side, hb]
  constructor
  · exact hdb ▸ Disciplined.refl calls w.db
  · intro orders l hl
    obtain ⟨hlt, rfl⟩ := List.getElem?_eq_some_iff.mp hl
    exact ⟨_, List.getElem?_eq_getElem (hlen ▸ hlt), hget orders hlt (hlen ▸ hlt)⟩
  · rw [hs]
  · intro hw
    refine ⟨hdb ▸ hw.stored, ?_, ?_, ?_, ?_⟩
    · intro l' hl'
      obtain ⟨k, hlt, rfl⟩ := List.getElem_of_mem hl'
      obtain ⟨side, symbol, hlist⟩ := hw.arrays _ (List.getElem_mem (hlen ▸ hlt))
      rw [hdb]
      exact ⟨side, symbol, hlist.resized (hget k (hlen ▸ hlt) hlt)⟩
    · rw [hside, ← hlen]
      exact hw.valid
    · obtain ⟨symbol, hcurrent⟩ := hw.current
      refine ⟨symbol, fun side => ?_⟩
      have hlt := hw.valid side
      have hlist := hcurrent side
      rw [w.array_eq hlt] at hlist
      rw [hdb, hside, w'.array_eq (hlen ▸ hlt)]
      exact hlist.resized (hget _ hlt (hlen ▸ hlt))
    · rw [hs, hdb]
      exact hw.sent

/-- A step that changes neither tables nor books nor broadcasts. -/
theorem Advance.of_eq (hdb : w'.db = w.db) (ha : w'.arrays = w.arrays)
    (hb : w'.order_books = w.order_books) (hs : w'.sent = w.sent) : Advance calls w w' := by
  apply Advance.of_resized hdb hb hs
  rw [ha]
  exact List.forall₂_same.mpr fun l _ => forall₂_resized_refl l

theorem Advance.tick (w : World) : Advance calls w w.tick := Advance.of_eq rfl rfl rfl rfl

/-- An accepted write that the discipline allows. -/
theorem Advance.commit {wr : Write} (h : Disciplined calls w.db (w.db.write wr))
    (hstored : w.db.PricesStored → (w.db.write wr).PricesStored) :
    Advance calls w (w.commit wr) where
  tables := h
  arrays := fun _ l hl => ⟨l, hl, forall₂_resized_refl l⟩
  sent := List.prefix_refl _
  genuine := by
    intro hw
    refine ⟨hstored hw.stored, ?_, hw.valid, ?_, ?_⟩
    · intro l hl
      obtain ⟨side, symbol, hlist⟩ := hw.arrays l hl
      exact ⟨side, symbol, hlist.later h⟩
    · obtain ⟨symbol, hcurrent⟩ := hw.current
      exact ⟨symbol, fun side => (hcurrent side).later h⟩
    · exact fun m hm => (hw.sent m hm).later h

theorem pricesStored_update {db : Tables} (h : db.PricesStored) (id : Nat) (u : OrderUpdate)
    (x : Execution) : (db.write (.update id u x)).PricesStored := by
  intro row' hrow'
  obtain ⟨row, hrow, rfl⟩ := List.mem_map.mp hrow'
  split
  · exact h row hrow
  · exact h row hrow

theorem pricesStored_order {db : Tables} (h : db.PricesStored) {o : NewOrder} (hid : o.id = none)
    (now : Nat) : (db.write (.order o now)).PricesStored := by
  intro row hrow
  rw [db.write_order hid now] at hrow
  rcases List.mem_append.mp hrow with hrow | hrow
  · exact h row hrow
  · rw [List.mem_singleton.mp hrow]
    exact map_roundTo o.price

/-- A reload by two snapshots of one symbol. -/
theorem Advance.setOrderBooks {now : Nat} {symbol : String}
    {buy_orders sell_orders : List OrderBook} (hb : w.db.Listed .BUY symbol buy_orders)
    (hs : w.db.Listed .SELL symbol sell_orders) :
    Advance calls w (World.answer now (.setOrderBooks buy_orders sell_orders) w).2 where
  tables := Disciplined.refl calls w.db
  arrays := by
    intro orders l hl
    refine ⟨l, ?_, forall₂_resized_refl l⟩
    have hlt := (List.getElem?_eq_some_iff.mp hl).1
    simpa [World.answer, List.getElem?_append_left hlt] using hl
  sent := List.prefix_refl _
  genuine := by
    intro hw
    refine ⟨hw.stored, ?_, ?_, ⟨symbol, ?_⟩, hw.sent⟩
    · intro l hl
      simp only [World.answer, List.mem_append, List.mem_cons, List.not_mem_nil, or_false] at hl
      rcases hl with hl | rfl | rfl
      · exact hw.arrays l hl
      · exact ⟨_, _, hb⟩
      · exact ⟨_, _, hs⟩
    · intro side
      cases side <;> simp [World.answer, World.side]
    · intro side
      cases side with
      | BUY => simpa [World.answer, World.side, World.array] using hb
      | SELL => simpa [World.answer, World.side, World.array] using hs

/-- Writing a size into an array. -/
theorem Advance.setSize (w : World) (now orders i : Nat) (size : ℚ) :
    Advance calls w (World.answer now (.setSize orders i size) w).2 := by
  have hall : List.Forall₂ (List.Forall₂ OrderBook.Resized) w.arrays
      (w.arrays.modify orders fun l => l.modify i fun r => { r with size := size }) := by
    apply forall₂_modify forall₂_resized_refl
    exact fun l _ => forall₂_modify OrderBook.Resized.refl fun r _ => rfl
  exact Advance.of_resized rfl rfl rfl hall

/-- A broadcast of snapshots. -/
theorem Advance.emit {now : Nat} {m : Message} (hm : m.Genuine w.db) :
    Advance calls w (World.answer now (.emit m) w).2 where
  tables := Disciplined.refl calls w.db
  arrays := fun _ l hl => ⟨l, hl, forall₂_resized_refl l⟩
  sent := List.prefix_append _ _
  genuine := by
    intro hw
    refine ⟨hw.stored, hw.arrays, hw.valid, hw.current, ?_⟩
    intro m' hm'
    rcases List.mem_append.mp hm' with hm' | hm'
    · exact hw.sent m' hm'
    · exact List.mem_singleton.mp hm' ▸ hm

end World

end Exchange
