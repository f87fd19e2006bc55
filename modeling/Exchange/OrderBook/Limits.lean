import Exchange.OrderBook.Discipline

/-!
# Limits and snapshots under interleaving

The requests of the order book controller, followed through every await: what the
other requests do in between keeps to `Advance`, and what this one does keeps to it
as well, because a matcher knows the row behind its order and the row behind every
object of its array (`Facing`, `Engaged`).

`interleave_disciplined` concludes for the tables: terms never change, and every trade
is at the price of a resting order that the limit of the incoming one accepts.
`interleave_genuine` concludes for the arrays and the broadcasts: all are snapshots.
-/

namespace Exchange

open Async Proc OrderBookService Store

/-! ## Threads over a relation -/

/-- A relation by which threads may change the world, calls being counted. -/
structure Interference (R : World → World → Prop) : Prop where
  refl : ∀ w, R w w
  trans : ∀ w w' w'', R w w' → R w' w'' → R w w''
  tick : ∀ w, R w w.tick

/-- What no change within `R` falsifies. -/
def Lasting (R : World → World → Prop) (I : World → Prop) : Prop := ∀ w w', R w w' → I w → I w'

section Relation

variable {R : World → World → Prop} {env : Env} {I : World → Prop} {w : World} {o : Op}

/-- An operation that keeps to `R` when the thread knows `I`. -/
theorem Interference.op (hR : Interference R) (hI : Lasting R I) (hw : I w)
    {Q : o.Res → World → Prop}
    (h : ∀ now v, I v → R v (World.answer now o v).2 ∧
      ∀ a, (World.answer now o v).1 = .ok a → Q a (World.answer now o v).2) :
    Safe (World.perform env) Op.awaits R (fun r w' => I w' ∧ ∀ a, r = .ok a → Q a w')
      (OrderBookService.call o) w := by
  apply Safe.call_of_stable hI hw
  intro w' hw'
  apply perform_rule env o w' (P := fun r v => R w' v ∧ I v ∧ ∀ a, r = .ok a → Q a v)
  · exact ⟨hR.tick w', hI _ _ (hR.tick w') hw', by simp⟩
  · intro now v hcase
    have hv : R w' v := by
      rcases hcase with rfl | rfl
      · exact hR.refl _
      · exact hR.tick _
    have hIv := hI _ _ hv hw'
    obtain ⟨hstep, hQ⟩ := h now v hIv
    exact ⟨hR.trans _ _ _ hv hstep, hI _ _ hstep hIv, hQ⟩

/-- A query of the database and what is known of its answer. -/
theorem Interference.query (hR : Interference R) (hI : Lasting R I) (hw : I w)
    (ho : ∀ now v, (World.answer now o v).2 = v) {Q : o.Res → World → Prop}
    (h : ∀ now v, I v → ∀ a, (World.answer now o v).1 = .ok a → Q a v) :
    Safe (World.perform env) Op.awaits R (fun r w' => I w' ∧ ∀ a, r = .ok a → Q a w')
      (OrderBookService.call o) w := by
  apply hR.op hI hw
  intro now v hv
  rw [ho]
  exact ⟨hR.refl v, h now v hv⟩

/-- An operation at which no other thread runs. -/
theorem Interference.prompt (hR : Interference R) (ho : o.awaits = false)
    {Q : Except Err o.Res → World → Prop} (hfail : o.external = true → Q (.error .rejected) w.tick)
    (h : ∀ now v, v = w ∨ v = w.tick → R v (World.answer now o v).2 ∧
      Q (World.answer now o v).1 (World.answer now o v).2) :
    Safe (World.perform env) Op.awaits R Q (OrderBookService.call o) w := by
  apply Safe.call
  rintro w' (rfl | ⟨ha, -⟩)
  · unfold World.perform
    split
    · next hext =>
      split
      · exact ⟨hR.tick _, hfail hext⟩
      · obtain ⟨hstep, hQ⟩ := h (env.clock w'.calls) w'.tick (.inr rfl)
        exact ⟨hR.trans _ _ _ (hR.tick _) hstep, hQ⟩
    · exact h (env.clock w'.calls) w' (.inl rfl)
  · rw [ho] at ha
    cases ha

/-- An operation on the memory of the process. -/
theorem own_safe (ho : o.external = false) {Q : Except Err o.Res → World → Prop}
    (h : ∀ now, R w (World.answer now o w).2 ∧
      Q (World.answer now o w).1 (World.answer now o w).2) :
    Safe (World.perform env) Op.awaits R Q (OrderBookService.call o) w := by
  have hawaits : o.awaits = false := by
    cases o <;> first | rfl | cases ho
  apply Safe.call
  rintro w' (rfl | ⟨ha, -⟩)
  · rw [World.perform, if_neg (by simp [ho])]
    exact h _
  · rw [hawaits] at ha
    cases ha

theorem Interference.get (hR : Interference R) (orders i : Nat) :
    Safe (World.perform env) Op.awaits R
      (fun r w' => w' = w ∧ ∀ a, r = .ok a → (w.array orders)[i]? = some a)
      (OrderBookService.call (.get orders i)) w := by
  apply own_safe rfl
  intro now
  simp only [World.answer]
  split
  · next r hr => exact ⟨hR.refl w, rfl, fun a ha => by cases ha; exact hr⟩
  · exact ⟨hR.refl w, rfl, fun a ha => by cases ha⟩

theorem Interference.now (hR : Interference R) :
    Safe (World.perform env) Op.awaits R (fun _ w' => w' = w) (OrderBookService.call .now) w := by
  apply own_safe rfl
  exact fun now => ⟨hR.refl w, rfl⟩

end Relation

theorem advance_interference (calls : List Call) : Interference (Advance calls) where
  refl := Advance.refl calls
  trans := fun _ _ _ => Advance.trans
  tick := Advance.tick

/-- `Proc.Safe` for the threads that keep to `Advance`. -/
abbrev Obeys {α : Type} (calls : List Call) (env : Env) (p : Prog α)
    (Q : Except Err α → World → Prop) (w : World) : Prop :=
  Safe (World.perform env) Op.awaits (Advance calls) Q p w

/-- What a thread knows that keeps to `Advance`: a fact that lasts in a genuine world. -/
structure Known (calls : List Call) (I : World → Prop) : Prop where
  lasting : Lasting (Advance calls) I
  genuine : ∀ w, I w → w.Genuine

section Threads

variable {α : Type} {calls : List Call} {env : Env} {I : World → Prop} {w w' : World}

/-! ## Reloads and emissions -/

theorem Known.listed (hI : Known calls I) (side : Side) (symbol : String) (l : List OrderBook) :
    Known calls fun w => I w ∧ w.db.Listed side symbol l where
  lasting := fun w w' h hw => ⟨hI.lasting w w' h hw.1, hw.2.later h.tables⟩
  genuine := fun w hw => hI.genuine w hw.1

theorem findOrders_obeys (hI : Known calls I) (hw : I w) (side : Side) (symbol : String) :
    Obeys calls env (OrderBookService.call (.findOrders side symbol 100 side.fetched))
      (fun r w' => I w' ∧ ∀ l, r = .ok l → w'.db.Listed side symbol l) w := by
  apply (advance_interference calls).query hI.lasting hw fun _ _ => rfl
  rintro now v hv l ⟨⟩
  exact listed_findOrders (hI.genuine v hv).stored side symbol

theorem fillOrderBook_obeys (hI : Known calls I) (hw : I w) (symbol : String) :
    Obeys calls env (fillOrderBook symbol) (fun _ w' => I w') w := by
  unfold fillOrderBook
  apply Safe.seq (findOrders_obeys hI hw .BUY symbol)
  · exact fun _ _ h => h.1
  intro buy_orders w₁ h₁
  have hbuy := hI.listed .BUY symbol buy_orders
  apply Safe.seq (findOrders_obeys hbuy ⟨h₁.1, h₁.2 _ rfl⟩ .SELL symbol)
  · exact fun _ _ h => h.1.1
  intro sell_orders w₂ h₂
  have hsell := hbuy.listed .SELL symbol sell_orders
  apply Safe.mono ((advance_interference calls).op (Q := fun _ _ => True) hsell.lasting
    ⟨h₂.1, h₂.2 _ rfl⟩ ?_)
  · exact fun _ _ h => h.1.1.1
  · exact fun now v hv => ⟨Advance.setOrderBooks hv.1.2 hv.2, fun _ _ => trivial⟩

theorem fillOrderBookAndReturn_obeys (hI : Known calls I) (hw : I w) (symbol : String) :
    Obeys calls env (fillOrderBookAndReturn symbol) (fun _ w' => I w') w := by
  have heq : fillOrderBookAndReturn symbol =
      fillOrderBook symbol >>= fun _ => OrderBookService.call .orderBooks := by
    unfold fillOrderBookAndReturn fillOrderBook
    exact (congrArg _ (funext fun buy_orders => Proc.bind_assoc _ _ _)).symm.trans
      (Proc.bind_assoc _ _ _).symm
  rw [heq]
  apply Safe.seq (fillOrderBook_obeys hI hw symbol)
  · exact fun _ _ h => h
  · intro _ w' h
    exact own_safe rfl fun now => ⟨Advance.refl calls w', h⟩

/-- The trades that a broadcast carries. -/
structure Latest (db : Tables) (trades : List Trade) : Prop where
  limit : trades.length ≤ 20
  symbol : ∃ symbol, ∀ t ∈ trades, t.symbol = symbol ∧ t ∈ db.tbl_trades.rows
  latest : trades.Pairwise fun a b => b.created_at ≤ a.created_at

theorem latest_getAllTrades (db : Tables) (symbol : String) :
    Latest db (db.getAllTrades symbol 20) where
  limit := List.length_take_le _ _
  symbol := by
    refine ⟨symbol, fun t ht => ?_⟩
    have hmem := mem_of_mem_orderByLimit ht
    simp only [List.mem_filter, decide_eq_true_eq] at hmem
    exact ⟨hmem.2, hmem.1⟩
  latest := by
    have htotal := (natLe_total.on Trade.created_at).swap
    exact (pairwise_orderByLimit htotal).imp fun h => of_decide_eq_true h

theorem Known.latest (hI : Known calls I) (trades : List Trade) :
    Known calls fun w => I w ∧ Latest w.db trades where
  lasting := by
    intro w w' h hw
    obtain ⟨symbol, htrades⟩ := hw.2.symbol
    refine ⟨hI.lasting w w' h hw.1, hw.2.limit, ⟨symbol, fun t ht => ?_⟩, hw.2.latest⟩
    exact ⟨(htrades t ht).1, h.tables.log.subset (htrades t ht).2⟩
  genuine := fun w hw => hI.genuine w hw.1

/-- A query whose answer says nothing of the world. -/
theorem query_obeys (hI : Known calls I) (hw : I w) {o : Op}
    (ho : ∀ now v, (World.answer now o v).2 = v) :
    Obeys calls env (OrderBookService.call o) (fun _ w' => I w') w := by
  apply Safe.mono ((advance_interference calls).query (Q := fun _ _ => True) hI.lasting hw ho ?_)
  · exact fun _ _ h => h.1
  · exact fun _ _ _ _ _ => trivial

theorem emitSocketData_obeys (hI : Known calls I) (hw : I w) (symbol : String) :
    Obeys calls env (emitSocketData symbol) (fun _ w' => I w') w := by
  have herr : ∀ (e : Err) w', I w' → I w' := fun _ _ h => h
  have hR := advance_interference calls
  unfold emitSocketData
  apply Safe.seq (fillOrderBook_obeys hI hw symbol) herr
  intro _ w₁ h₁
  have hlatest : Obeys calls env (OrderBookService.call (.getAllTrades symbol 20))
      (fun r w' => I w' ∧ ∀ trades : List Trade, r = .ok trades → Latest w'.db trades) w₁ := by
    apply hR.query hI.lasting h₁ fun _ _ => rfl
    rintro now v - trades ⟨⟩
    exact latest_getAllTrades v.db symbol
  apply Safe.seq hlatest fun _ _ h => h.1
  intro trades w₂ h₂
  have hL := hI.latest trades
  apply Safe.seq (query_obeys hL ⟨h₂.1, h₂.2 _ rfl⟩ fun _ _ => rfl) fun _ _ h => h.1
  intro data w₃ h₃
  apply Safe.seq (query_obeys hL h₃ fun _ _ => rfl) fun _ _ h => h.1
  intro (price : ℚ) w₄ h₄
  cases trades with
  | nil => exact h₄.1
  | cons last_trade trades =>
    -- nobody runs between reading the shared book and the broadcast
    have hbooks : Obeys calls env (OrderBookService.call .orderBooks)
        (fun r w' => w' = w₄ ∧ ∀ books, r = .ok books → ∃ s,
          w₄.db.Listed .BUY s books.1 ∧ w₄.db.Listed .SELL s books.2) w₄ := by
      apply own_safe rfl
      intro now
      refine ⟨Advance.refl calls w₄, rfl, ?_⟩
      rintro books ⟨⟩
      obtain ⟨s, hcurrent⟩ := (hL.genuine w₄ h₄).current
      exact ⟨s, hcurrent .BUY, hcurrent .SELL⟩
    apply Safe.seq hbooks
    · rintro _ _ ⟨rfl, -⟩
      exact h₄.1
    rintro books w₅ ⟨rfl, hlisted⟩
    have hgenuine : ∀ v : World, v.db = w₅.db → Message.Genuine {
        buy_orders := books.1
        sell_orders := books.2
        trades := last_trade :: trades
        last_trade := last_trade
        last_24_hour_data := data
        precentage_change := percentage (number last_trade.price - price) price
        change_in_price := number last_trade.price - price } v.db := by
      intro v hv
      rw [hv]
      exact ⟨hlisted books rfl, h₄.2.limit, h₄.2.symbol, h₄.2.latest, rfl, price, rfl, rfl⟩
    apply hR.prompt rfl
    · exact fun _ => hI.lasting _ _ (Advance.tick w₅) h₄.1
    · intro now v hv
      have hstep : Advance calls w₅ v := by
        rcases hv with rfl | rfl
        · exact Advance.refl calls _
        · exact Advance.tick _
      have hdb : v.db = w₅.db := by
        rcases hv with rfl | rfl <;> rfl
      have hsend : Advance calls v (World.answer now (.emit _) v).2 := Advance.emit (hgenuine v hdb)
      exact ⟨hsend, hI.lasting _ _ (hstep.trans hsend) h₄.1⟩

/-! ## Writes -/

theorem updateOrder_obeys (hI : Known calls I) (hw : I w) (x : Execution) (id : Nat)
    (symbol : String) {update : OrderUpdate} (hu : update.is_filled ≠ some false) :
    Obeys calls env (updateOrder symbol id update x) (fun _ w' => I w') w := by
  unfold updateOrder
  apply Safe.seq ((advance_interference calls).op (Q := fun _ _ => True) hI.lasting hw ?_)
  · exact fun _ _ h => h.1
  · exact fun _ _ h => emitSocketData_obeys hI h.1 symbol
  · intro now v hv
    refine ⟨Advance.commit (Disciplined.update v.db id hu x) ?_, fun _ _ => trivial⟩
    exact fun hstored => pricesStored_update hstored id update x

theorem saveTrade_obeys (hI : Known calls I) (hw : I w) (x : Execution) {t : NewTrade}
    (ht : ∀ v, I v → ∃ taker ∈ v.db.tbl_order_books.rows,
      ∃ maker ∈ v.db.tbl_order_books.rows, PlacedBy calls taker ∧
        ∀ id, (t.toRow id).Strikes taker maker) :
    Obeys calls env (saveTrade t x) (fun _ w' => I w') w := by
  unfold saveTrade
  apply Safe.seq ((advance_interference calls).op (Q := fun _ _ => True) hI.lasting hw ?_)
  · exact fun _ _ h => h.1
  · exact fun _ _ h => emitSocketData_obeys hI h.1 t.symbol
  · intro now v hv
    refine ⟨Advance.commit (Disciplined.trade v.db t x (ht v hv)) ?_, fun _ _ => trivial⟩
    exact fun hstored => hstored

/-! ## Matching -/

/-- A matcher of limit orders goes on only at prices that its order accepts. -/
def OrderBookService.Matcher.Honours (m : Matcher) : Prop :=
  m.type = .Limit → ∀ order r : OrderBook, m.stop order.held r.held = false →
    m.side.accepts order.held r.held = true

theorem buyMatcher_honours : buyMatcher.Honours := by
  intro _ order r h
  have hle := r.held_le order
  rw [show order.held.lt Double.fl r.held = false from h] at hle
  exact hle

theorem sellMatcher_honours : sellMatcher.Honours := by
  intro _ order r h
  have hle := order.held_le r
  rw [show r.held.lt Double.fl order.held = false from h] at hle
  exact hle

theorem marketBuyMatcher_honours : marketBuyMatcher.Honours := fun h => by cases h

theorem marketSellMatcher_honours : marketSellMatcher.Honours := fun h => by cases h

/-- What a matcher knows of its order and of the array it picked up. -/
structure Facing (calls : List Call) (m : Matcher) (order : OrderBook) (orders : Nat) (w : World) :
    Prop where
  genuine : w.Genuine
  own : w.db.Admits calls order
  side : order.side = m.side
  type : order.type = m.type
  array : ∃ l symbol, w.arrays[orders]? = some l ∧ w.db.Listed m.side.opposite symbol l

theorem Facing.known (m : Matcher) (order : OrderBook) (orders : Nat) :
    Known calls (Facing calls m order orders) where
  lasting := by
    intro w w' h hw
    obtain ⟨l, symbol, hl, hlist⟩ := hw.array
    obtain ⟨l', hl', hresized⟩ := h.arrays orders l hl
    exact ⟨h.genuine hw.genuine, h.tables.admits hw.own, hw.side, hw.type, l', symbol, hl',
      (hlist.later h.tables).resized hresized⟩
  genuine := fun _ hw => hw.genuine

/-- At position `i` of the array stands the object `r`, possibly of another size. -/
def World.Stands (w : World) (orders i : Nat) (r : OrderBook) : Prop :=
  ∃ l r', w.arrays[orders]? = some l ∧ l[i]? = some r' ∧ r.Resized r'

theorem Advance.stands (h : Advance calls w w') {orders i : Nat} {r : OrderBook}
    (hr : w.Stands orders i r) : w'.Stands orders i r := by
  obtain ⟨l, r', hl, hi, hresized⟩ := hr
  obtain ⟨l', hl', hall⟩ := h.arrays orders l hl
  obtain ⟨hlen, hget⟩ := List.forall₂_iff_get.mp hall
  obtain ⟨hlt, rfl⟩ := List.getElem?_eq_some_iff.mp hi
  have hi' := hget i hlt (hlen ▸ hlt)
  exact ⟨l', _, hl', List.getElem?_eq_getElem (hlen ▸ hlt), hresized.trans hi'⟩

/-- What a matcher knows while it executes its order against the one at position `i`. -/
structure Engaged (calls : List Call) (m : Matcher) (x : Execution) (orders i : Nat) (w : World) :
    Prop where
  facing : Facing calls m x.taker orders w
  maker : w.db.Backs x.maker
  opposite : x.maker.side = m.side.opposite
  stands : w.Stands orders i x.maker
  going : m.stop x.taker.held x.maker.held = false

theorem Engaged.known (m : Matcher) (x : Execution) (orders i : Nat) :
    Known calls (Engaged calls m x orders i) where
  lasting := fun w w' h hw =>
    ⟨(Facing.known m x.taker orders).lasting w w' h hw.facing, h.tables.backs hw.maker,
      hw.opposite, h.stands hw.stands, hw.going⟩
  genuine := fun _ hw => hw.facing.genuine

/-- The resting order that a matcher reads. -/
theorem Facing.engaged {m : Matcher} {order resting : OrderBook} {orders i : Nat}
    (h : Facing calls m order orders w) (hget : (w.array orders)[i]? = some resting)
    (hstop : m.stop order.held resting.held = false) :
    Engaged calls m ⟨order, resting⟩ orders i w := by
  obtain ⟨l, symbol, hl, hlist⟩ := h.array
  rw [w.array_of_get hl] at hget
  obtain ⟨hside, -, -, hback⟩ := hlist.orders resting (List.mem_of_getElem? hget)
  exact ⟨h, hback, hside, ⟨l, resting, hl, hget, OrderBook.Resized.refl resting⟩, hstop⟩

/-- The object that stands at the position of the maker is the maker, resized. -/
theorem Engaged.current {m : Matcher} {x : Execution} {orders i : Nat} {r : OrderBook}
    (h : Engaged calls m x orders i w) (hr : (w.array orders)[i]? = some r) :
    x.maker.Resized r := by
  obtain ⟨l, r', hl, hi, hresized⟩ := h.stands
  rw [w.array_of_get hl, hi] at hr
  cases hr
  exact hresized

/-- The trade of a matcher executes its order against the resting one. -/
theorem Engaged.strikes {m : Matcher} (hm : m.Honours) {x : Execution} {orders i : Nat}
    {r : OrderBook} (h : Engaged calls m x orders i w) (hr : x.maker.Resized r) (size : ℚ)
    (is_buyer now : Nat) :
    ∃ taker ∈ w.db.tbl_order_books.rows, ∃ maker ∈ w.db.tbl_order_books.rows,
      PlacedBy calls taker ∧
        ∀ id, ((m.trade x.taker r size is_buyer now).toRow id).Strikes taker maker := by
  obtain ⟨taker, htaker, ht, hplaced⟩ := h.facing.own
  obtain ⟨maker, hmaker, hb⟩ := h.maker
  refine ⟨taker, htaker, maker, hmaker, hplaced, fun id => ?_⟩
  have hside : taker.side = m.side := ht.side.trans h.facing.side
  have hopposite : maker.side = m.side.opposite := hb.side.trans h.opposite
  have hprice : (m.trade x.taker r size is_buyer now).price = x.maker.price := by
    unfold OrderBook.Resized at hr
    rw [hr]
    rfl
  have huid : r.uid = x.maker.uid := by
    unfold OrderBook.Resized at hr
    rw [hr]
  constructor
  · rw [hside, hopposite]
  · rw [hside, NewTrade.toRow_party, ht.uid]
    cases hs : m.side <;> simp [NewTrade.party, Matcher.trade, hs]
  · rw [hopposite, NewTrade.toRow_party, hb.uid, ← huid]
    cases hs : m.side <;> simp [NewTrade.party, Matcher.trade, hs, Side.opposite]
  · exact ht.symbol.symm
  · rw [ht.type, h.facing.type]
    rfl
  · rw [hb.price, ← hprice]
    rfl
  · intro htype
    have hlimit := hm (by rw [← h.facing.type, ← ht.type, htype]) _ _ h.going
    rw [hside, ht.held, hb.held]
    exact hlimit

/-- What is left of the taker after an execution. -/
theorem Facing.rest {m : Matcher} {order : OrderBook} {orders : Nat}
    (h : Facing calls m order orders w) (size : ℚ) (fills : Option (List Fill)) :
    Facing calls m { order with size := size, fills := fills } orders w := by
  obtain ⟨row, hrow, hb, hplaced⟩ := h.own
  have hback : row.Backs { order with size := size, fills := fills } :=
    ⟨hb.id, hb.uid, hb.side, hb.symbol, hb.type, hb.price, hb.held⟩
  exact ⟨h.genuine, ⟨row, hrow, hback, hplaced⟩, h.side, h.type, h.array⟩

theorem matchLoop_obeys {m : Matcher} (hm : m.Honours) (orders i : Nat) (order : OrderBook)
    (h : Facing calls m order orders w) :
    Obeys calls env (matchLoop m orders i order) (fun _ _ => True) w := by
  have hR := advance_interference calls
  induction i generalizing order w with
  | zero => trivial
  | succ i ih =>
    unfold matchLoop
    apply Safe.seq_any (hR.get orders i)
    rintro resting w₁ ⟨rfl, hget⟩
    have hI : Known calls (Engaged calls m ⟨order, resting⟩ orders i) :=
      Engaged.known m _ orders i
    split
    · trivial
    · next hstop =>
      have hE := h.engaged (hget resting rfl) (Bool.eq_false_iff.mpr hstop)
      split
      · -- the order is filled from the resting one
        apply Safe.seq_any hR.now
        rintro settled_at w₂ rfl
        apply Safe.seq_any (updateOrder_obeys hI hE _ _ _ (by simp))
        intro _ w₃ h₃
        apply Safe.seq_any hR.now
        rintro created_at w₄ rfl
        apply Safe.seq_any (saveTrade_obeys hI h₃ _ fun v hv =>
          hv.strikes hm (OrderBook.Resized.refl resting) order.size m.full_is_buyer created_at)
        intro _ w₅ h₅
        apply Safe.seq_any (hR.get orders i)
        rintro resting' w₆ ⟨rfl, -⟩
        have hset : Obeys calls env
            (OrderBookService.call (.setSize orders i (Double.sub resting'.size order.size)))
            (fun _ v => Engaged calls m ⟨order, resting⟩ orders i v) w₆ :=
          own_safe rfl fun now =>
            ⟨Advance.setSize w₆ now orders i _,
              hI.lasting _ _ (Advance.setSize w₆ now orders i _) h₅⟩
        apply Safe.seq_any hset
        intro _ w₇ h₇
        split
        · apply Safe.seq_any hR.now
          rintro settled_at' w₈ rfl
          exact Safe.mono (updateOrder_obeys hI h₇ _ _ _ (by simp)) fun _ _ _ => trivial
        · exact Safe.mono (updateOrder_obeys hI h₇ _ _ _ (by simp)) fun _ _ _ => trivial
      · -- the resting order is taken whole and the loop goes on
        apply Safe.seq_any hR.now
        rintro settled_at w₂ rfl
        apply Safe.seq_any (updateOrder_obeys hI hE _ _ _ (by simp))
        intro _ w₃ h₃
        apply Safe.seq_any (hR.get orders i)
        rintro resting' w₄ ⟨rfl, hget'⟩
        apply Safe.seq_any hR.now
        rintro created_at w₅ rfl
        have hcur : resting.Resized resting' := h₃.current (hget' resting' rfl)
        apply Safe.seq_any (saveTrade_obeys hI h₃ _ fun v hv =>
          hv.strikes hm hcur resting'.size m.part_is_buyer created_at)
        intro _ w₆ h₆
        apply Safe.seq_any (hR.get orders i)
        rintro resting'' w₇ ⟨rfl, -⟩
        apply Safe.seq_any (updateOrder_obeys hI h₆ _ _ _ (by simp))
        intro _ w₈ h₈
        apply ih
        exact h₈.facing.rest _ _

/-- What a matcher starts with. -/
structure Entering (calls : List Call) (order : OrderBook) (w : World) : Prop where
  genuine : w.Genuine
  own : w.db.Admits calls order

theorem Entering.known (order : OrderBook) : Known calls (Entering calls order) where
  lasting := fun _ _ h hw => ⟨h.genuine hw.genuine, h.tables.admits hw.own⟩
  genuine := fun _ hw => hw.genuine

/-- Picking up the opposite side of the shared book. -/
theorem capture_obeys {m : Matcher} {order : OrderBook} (hside : order.side = m.side)
    (htype : order.type = m.type) (h : Entering calls order w) :
    Obeys calls env (OrderBookService.call (.capture m.side.opposite order))
      (fun r w' => ∀ orders, r = .ok orders → Facing calls m order orders w') w := by
  apply own_safe rfl
  intro now
  have hstep : Advance calls w (World.answer now (.capture m.side.opposite order) w).2 :=
    Advance.of_eq rfl rfl rfl rfl
  refine ⟨hstep, ?_⟩
  rintro orders ⟨⟩
  have hlt := h.genuine.valid m.side.opposite
  obtain ⟨symbol, hcurrent⟩ := h.genuine.current
  have hlist := hcurrent m.side.opposite
  rw [w.array_eq hlt] at hlist
  exact ⟨hstep.genuine h.genuine, h.own, hside, htype, _, symbol, List.getElem?_eq_getElem hlt,
    hlist⟩

theorem entered_obeys {m : Matcher} (hm : m.Honours) {order : OrderBook} {orders : Nat}
    (h : Facing calls m order orders w) (n : Nat) :
    Obeys calls env
      (if n = 0 then Pure.pure m.notEntered
      else do
        let best : OrderBook ← OrderBookService.call (.get orders (n - 1))
        if m.enter order.held best.held then
          matchLoop m orders n order
          Pure.pure ⟨true, "Ok"⟩
        else Pure.pure m.notEntered) (fun _ _ => True) w := by
  split
  · trivial
  · apply Safe.seq_any ((advance_interference calls).get orders (n - 1))
    rintro best w₁ ⟨rfl, -⟩
    split
    · apply Safe.seq_any (matchLoop_obeys hm orders n order h)
      exact fun _ _ _ => trivial
    · trivial

theorem run_obeys {m : Matcher} (hm : m.Honours) {order : OrderBook} (hside : order.side = m.side)
    (htype : order.type = m.type) (h : Entering calls order w) :
    Obeys calls env (m.run order) (fun _ _ => True) w := by
  unfold Matcher.run
  apply Safe.seq_any (capture_obeys hside htype h)
  intro orders w₁ h₁
  have hlength : Obeys calls env (OrderBookService.call (.length orders))
      (fun _ w' => w' = w₁) w₁ :=
    own_safe rfl fun now => ⟨Advance.refl calls w₁, rfl⟩
  apply Safe.seq_any hlength
  rintro n w₂ rfl
  apply Safe.tryCatch_any (entered_obeys hm (h₁ orders rfl) n)
  exact fun _ _ => trivial

theorem matchLimitOrder_obeys {order : OrderBook} (htype : order.type = .Limit)
    (h : Entering calls order w) : Obeys calls env (matchLimitOrder order) (fun _ _ => True) w := by
  unfold matchLimitOrder
  cases hs : order.side with
  | BUY => exact run_obeys buyMatcher_honours hs htype h
  | SELL => exact run_obeys sellMatcher_honours hs htype h

theorem matchMarketOrder_obeys {order : OrderBook} (htype : order.type = .Market)
    (h : Entering calls order w) :
    Obeys calls env (matchMarketOrder order) (fun _ _ => True) w := by
  unfold matchMarketOrder
  cases hs : order.side with
  | BUY => exact run_obeys marketBuyMatcher_honours hs htype h
  | SELL => exact run_obeys marketSellMatcher_honours hs htype h

/-! ## Requests -/

/-- An object that is saved for one of the calls. -/
structure Submitted (calls : List Call) (order : NewOrder) : Prop where
  id : order.id = none
  placed : ∀ id now, PlacedBy calls (order.toRow id now)

theorem saveOrderBook_obeys (hw : w.Genuine) {order : NewOrder} (h : Submitted calls order) :
    Obeys calls env (OrderBookService.call (.saveOrderBook order))
      (fun r w' => w'.Genuine ∧ ∀ saved : OrderBook, r = .ok saved →
        w'.db.Admits calls saved ∧ saved.type = order.type) w := by
  have hI : Lasting (Advance calls) World.Genuine := fun _ _ h => h.genuine
  apply (advance_interference calls).op hI hw
  intro now v hv
  refine ⟨Advance.commit (Disciplined.order v.db h.id now (h.placed _ now)) ?_, ?_⟩
  · exact fun hstored => pricesStored_order hstored h.id now
  · rintro saved ⟨⟩
    have hmem : order.toRow v.db.tbl_order_books.next now ∈
        (v.db.write (.order order now)).tbl_order_books.rows := by
      rw [v.db.write_order h.id now]
      exact List.mem_append_right _ (by simp)
    have hsaved : (v.db.saveOrderBook order now).1 = order.saved v.db.tbl_order_books.next now := by
      simp only [Tables.saveOrderBook, h.id]
    rw [hsaved]
    refine ⟨⟨_, hmem, ⟨rfl, rfl, rfl, rfl, rfl, ?_, rfl⟩, h.placed _ now⟩, rfl⟩
    exact (map_roundTo order.price).symm

theorem saveOrder_obeys (hw : w.Genuine) {order : NewOrder} (h : Submitted calls order) :
    Obeys calls env (saveOrder order)
      (fun r w' => ∀ saved, r = .ok saved →
        Entering calls saved w' ∧ saved.type = order.type) w := by
  have hsubmitted : Submitted calls
      { order with volume := some (Double.mul (number order.price) order.size) } :=
    ⟨h.id, fun id now => ⟨(h.placed id now).call⟩⟩
  unfold saveOrder
  apply Safe.seq (saveOrderBook_obeys hw hsubmitted)
  · exact fun _ _ _ _ h => by cases h
  intro saved w₁ h₁
  obtain ⟨hadmits, htype⟩ := h₁.2 saved rfl
  have hI : Known calls (Entering calls saved) := Entering.known saved
  apply Safe.seq (fillOrderBook_obeys hI ⟨h₁.1, hadmits⟩ _) fun _ _ _ _ h => by cases h
  intro _ w₂ h₂
  apply Safe.seq (emitSocketData_obeys hI h₂ _) fun _ _ _ _ h => by cases h
  rintro _ w₃ h₃ saved' ⟨⟩
  exact ⟨h₃, htype⟩

theorem saveMarketOrder_obeys (hw : w.Genuine) {order : NewOrder}
    (h : Submitted calls { order with price := none }) :
    Obeys calls env (saveMarketOrder order)
      (fun r w' => ∀ saved, r = .ok saved →
        Entering calls saved w' ∧ saved.type = order.type) w := by
  unfold saveMarketOrder
  apply Safe.seq (saveOrderBook_obeys hw h)
  · exact fun _ _ _ _ h => by cases h
  intro saved w₁ h₁
  obtain ⟨hadmits, htype⟩ := h₁.2 saved rfl
  have hI : Known calls (Entering calls saved) := Entering.known saved
  apply Safe.seq (fillOrderBook_obeys hI ⟨h₁.1, hadmits⟩ _) fun _ _ _ _ h => by cases h
  rintro _ w₂ h₂ saved' ⟨⟩
  exact ⟨h₂, htype⟩

/-- The answer of `handleOrder`: a query, or nothing. -/
theorem answer_obeys (g : MatchResult) (symbol text failure : String) :
    Obeys calls env
      (if g.success then do
        let order_list : List OrderBook ←
          OrderBookService.call (.getUserOrdersNoSide 1 symbol 20)
        Pure.pure (⟨true, text, order_list⟩ : Response)
      else Pure.pure ⟨false, failure, []⟩) (fun _ _ => True) w := by
  have hI : Lasting (Advance calls) fun _ => True := fun _ _ _ _ => trivial
  split
  · apply Safe.seq_any ((advance_interference calls).query (Q := fun _ _ => True) hI trivial
      (fun _ _ => rfl) fun _ _ _ _ _ => trivial)
    exact fun _ _ _ => trivial
  · trivial

theorem handleOrder_obeys (hw : w.Genuine) {req : Request} (hmem : .order req ∈ calls) :
    Obeys calls env (handleOrder req.order) (fun _ _ => True) w := by
  unfold handleOrder
  dsimp only
  cases req with
  | market dto =>
    have hsubmitted : Submitted calls
        { (Request.market dto).order with orgSize := dto.size, price := none } :=
      ⟨rfl, fun id now => ⟨_, hmem, rfl, rfl, rfl, rfl, rfl, rfl⟩⟩
    split
    · apply Safe.seq_any (saveMarketOrder_obeys hw hsubmitted)
      intro saved w₁ h₁
      obtain ⟨hentering, htype⟩ := h₁ saved rfl
      apply Safe.seq_any (matchMarketOrder_obeys htype hentering)
      exact fun g w₂ _ => answer_obeys g _ _ _
    · next h => exact absurd rfl h
  | limit dto =>
    have hsubmitted : Submitted calls { (Request.limit dto).order with orgSize := dto.size } :=
      ⟨rfl, fun id now => ⟨_, hmem, rfl, rfl, rfl, rfl, rfl, rfl⟩⟩
    split
    · next h => cases h
    · apply Safe.seq_any (saveOrder_obeys hw hsubmitted)
      intro saved w₁ h₁
      obtain ⟨hentering, htype⟩ := h₁ saved rfl
      apply Safe.seq_any (matchLimitOrder_obeys htype hentering)
      exact fun g w₂ _ => answer_obeys g _ _ _

theorem Call.prog_obeys (hw : w.Genuine) {call : Call} (hmem : call ∈ calls) :
    Obeys calls env call.prog (fun _ _ => True) w := by
  cases call with
  | order req =>
    apply Safe.seq_any (handleOrder_obeys hw hmem)
    exact fun _ _ _ => trivial
  | orderbooks =>
    have hI : Known calls World.Genuine := ⟨fun _ _ h => h.genuine, fun _ h => h⟩
    apply Safe.seq_any (fillOrderBookAndReturn_obeys hI hw _)
    exact fun _ _ _ => trivial

end Threads

theorem World.start_genuine {db : Tables} (hdb : db.PricesStored) : (World.start db).Genuine where
  stored := hdb
  arrays := by
    intro l hl
    have hnil : l = [] := by simpa [World.start] using hl
    exact ⟨.BUY, "", by simp [hnil], by simp [hnil], by simp [hnil]⟩
  valid := by intro side; cases side <;> simp [World.start, World.side]
  current := by
    refine ⟨"", fun side => ?_⟩
    have hnil : (World.start db).array ((World.start db).side side) = [] := by
      cases side <;> rfl
    rw [hnil]
    exact ⟨by simp, by simp, .nil⟩
  sent := by simp [World.start]

/-- All threads of the calls keep to `Advance`. -/
theorem calls_obey (env : Env) {db : Tables} (hdb : db.PricesStored) (calls : List Call) :
    Pool.AllSafe (World.perform env) Op.awaits (Advance calls)
      ⟨.start db, calls.map Call.prog⟩ := by
  intro t ht
  obtain ⟨call, hmem, rfl⟩ := List.mem_map.mp ht
  exact ⟨call.prog_parked, Call.prog_obeys (World.start_genuine hdb) hmem⟩

theorem interleave_advance (env : Env) {db : Tables} (hdb : db.PricesStored) (calls : List Call)
    (schedule : List Nat) :
    Advance calls (.start db) (interleave env db calls schedule) :=
  Pool.run_safe (Advance.refl calls) (fun _ _ _ => Advance.trans) (calls_obey env hdb calls)
    schedule

/-- **Snapshots.** Whatever the schedule and whatever calls fail, each array of the
process, the shared ones and those that matchers still hold, is a sorted list of at most a
hundred open orders of one side of one symbol, and so were the books of every broadcast. -/
theorem interleave_genuine (env : Env) {db : Tables} (hdb : db.PricesStored)
    (calls : List Call) (schedule : List Nat) : (interleave env db calls schedule).Genuine :=
  (interleave_advance env hdb calls schedule).genuine (World.start_genuine hdb)

/-- A reload for BTC/ETH while a SELL of BTC/USDT is being placed. -/
theorem genuine_beside_reload :
    let db := Tables.traded.place [.btc 1 .SELL 10 2]
    let w := interleave .steady db
      [.order (.limit ⟨3, .SELL, "BTC/USDT", 11, 1⟩), .orderbooks]
      ([0, 1, 1] ++ List.replicate 40 0)
    w.sent.length = 1 ∧ w.Genuine := by
  intro db w
  constructor
  · decide +kernel
  · apply interleave_genuine
    unfold Tables.PricesStored
    decide +kernel

end Exchange
