import Exchange.Async.Loop
import Exchange.Number.Printed
import Exchange.OrderBook.Sizes

/-!
# Volumes of trades

A price and a size fill columns of their own, and their product could exceed the volume
column by far. A trade is made at the price of the resting order, for a size that is not
larger, as a double, than what is left of it, and the volume of that order was accepted.

`volumesFit`: along every run from empty rows, with positive sizes and prices of at most
eight places, the volume of every trade that a match tries to save fits its column.
-/

namespace Exchange

open Async Proc OrderBookService Store

/-- The size of a row is what its column holds, and what is left of it is worth at most
what the volume column holds. -/
structure OrderBook.Within (row : OrderBook) : Prop where
  nonneg : 0 ≤ row.size
  stored : roundTo 8 row.size = row.size
  worth : ∀ p, row.price = some p → 0 ≤ p ∧ fits 10 2 (Double.mul p row.size) = true

def Tables.Within (db : Tables) : Prop := ∀ row ∈ db.tbl_order_books.rows, row.Within

/-- A trade with a price has a volume that fits its column. -/
def VolumeFits : Op → Prop
  | .saveTrade trade _ => trade.price.isSome = true → fits 10 2 trade.volume = true
  | _ => True

/-- Every operation of the run satisfies `P`, whether it fails or not. -/
def AllAsk (env : Env) (P : Op → Prop) : List NewOrder → World → Prop
  | [], _ => True
  | order :: orders, w => Asks (World.perform env) P (handleOrder order) w ∧
      AllAsk env P orders ((handleOrder order).run (World.perform env) w).2

/-- The database refuses an order with a volume that its column cannot hold. -/
def Env.RefusesVolume (env : Env) : Prop :=
  ∀ n (order : NewOrder), fits 10 2 (order.volume.getD 0) = false →
    env.fails n (.saveOrderBook order) = true

/-- A positive size and, if there is one, a positive price, of at most eight places. -/
structure NewOrder.Sized (order : NewOrder) : Prop where
  pos : 0 < order.size
  decimal : IsDecimal 8 order.size
  price : ∀ p, order.price = some p → 0 < p ∧ IsDecimal 8 p

/-- Less of a row is worth less. -/
theorem OrderBook.Within.fits_of_le {row : OrderBook} (h : row.Within) {p q : ℚ}
    (hp : row.price = some p) (h0 : 0 ≤ q) (hq : Double.fl q ≤ Double.fl row.size) :
    fits 10 2 (Double.mul p q) = true := by
  obtain ⟨hpos, hfits⟩ := h.worth p hp
  exact Store.fits_of_le (Double.mul_nonneg hpos h0) (Double.mul_mono hpos hq) hfits

/-! ## What a match tries to save -/

section Match

variable {env : Env} {w : World} {symbol : String} {orders : Nat}

theorem fillOrderBook_calls (symbol : String) : (fillOrderBook symbol).Calls VolumeFits := by
  apply Calls.bind (Calls.call trivial)
  intro buy_orders
  apply Calls.bind (Calls.call trivial)
  intro sell_orders
  exact Calls.call trivial

theorem emitSocketData_calls (symbol : String) : (emitSocketData symbol).Calls VolumeFits := by
  apply Calls.bind (fillOrderBook_calls symbol)
  intro _
  apply Calls.bind (Calls.call trivial)
  intro trades
  apply Calls.bind (Calls.call trivial)
  intro day
  apply Calls.bind (Calls.call trivial)
  intro price
  split
  · trivial
  · apply Calls.bind (Calls.call trivial)
    intro books
    exact Calls.call trivial

theorem updateOrder_calls (symbol : String) (id : Nat) (u : OrderUpdate) (x : Execution) :
    (updateOrder symbol id u x).Calls VolumeFits := by
  apply Calls.bind (Calls.call trivial)
  exact fun _ => emitSocketData_calls symbol

theorem asks_get {β : Type} {f : OrderBook → Prog β} {i : Nat} {r : OrderBook}
    (h : (w.array orders)[i]? = some r) (hf : Asks (World.perform env) VolumeFits (f r) w) :
    Asks (World.perform env) VolumeFits (OrderBookService.call (.get orders i) >>= f) w := by
  apply Asks.bind (Asks.call trivial)
  apply (wp_call _ _).mpr
  simp only [World.perform, Op.external, Op.awaits, World.answer, h]
  rintro a ha
  obtain rfl := Except.ok.inj ha
  exact hf

theorem asks_now {β : Type} {f : Nat → Prog β}
    (hf : ∀ t, Asks (World.perform env) VolumeFits (f t) w) :
    Asks (World.perform env) VolumeFits (OrderBookService.call .now >>= f) w :=
  ⟨trivial, hf _⟩

theorem asks_update {β : Type} {k : Prog β} (id : Nat) (u : OrderUpdate) (x : Execution)
    (hk : ∀ w', Wrote (.update id u x) 7 w w' → Asks (World.perform env) VolumeFits k w') :
    Asks (World.perform env) VolumeFits (updateOrder symbol id u x >>= fun _ => k) w := by
  apply Asks.bind ((updateOrder_calls symbol id u x).asks w)
  apply wp_mono (updateOrder_written id u x)
  rintro (e | _) w' h _ ha
  · cases ha
  · exact hk w' h.2.1

theorem asks_trade {β : Type} {k : Prog β} {t : NewTrade} {x : Execution}
    (ht : VolumeFits (.saveTrade t x))
    (hk : ∀ w', Wrote (.trade t x) 7 w w' → Asks (World.perform env) VolumeFits k w') :
    Asks (World.perform env) VolumeFits (saveTrade t x >>= fun _ => k) w := by
  apply Asks.bind
  · apply Asks.bind (Asks.call ht)
    exact fun _ _ => (emitSocketData_calls t.symbol).asks _
  · apply wp_mono (saveTrade_written t x)
    rintro (e | _) w' h _ ha
    · cases ha
    · exact hk w' h.2.1

/-- A trade takes at most what is left of the resting order, at its price. -/
theorem trade_fits {m : Matcher} {order r : OrderBook} {size : ℚ} {is_buyer t : Nat}
    {x : Execution} (hr : r.Within) (h0 : 0 ≤ size) (hsize : Double.fl size ≤ Double.fl r.size) :
    VolumeFits (.saveTrade (m.trade order r size is_buyer t) x) := by
  intro hprice
  obtain ⟨p, hp⟩ := Option.isSome_iff_exists.mp hprice
  have hvolume : (m.trade order r size is_buyer t).volume = Double.mul p size := by
    change Double.mul (number r.price) size = _
    rw [show r.price = some p from hp]
    rfl
  rw [hvolume]
  exact hr.fits_of_le hp h0 hsize

theorem matchLoop_asks (env : Env) (m : Matcher) (orders i : Nat) (order : OrderBook) (w : World)
    (ho : orders < w.arrays.length) (hi : i ≤ (w.array orders).length) (hpos : 0 ≤ order.size)
    (hrows : ∀ r ∈ w.array orders, r.Within) :
    Asks (World.perform env) VolumeFits (matchLoop m orders i order) w := by
  induction i generalizing order w with
  | zero => trivial
  | succ i ih =>
    have hget : (w.array orders)[i]? = some (w.array orders)[i] := List.getElem?_eq_getElem hi
    have hr := hrows _ (List.getElem_mem hi)
    generalize (w.array orders)[i] = r at hget hr
    unfold matchLoop
    apply asks_get hget
    split
    · trivial
    split
    · next hs =>
      apply asks_now
      intro t₁
      apply asks_update
      intro w₁ hw₁
      apply asks_now
      intro t₂
      apply asks_trade (trade_fits hr hpos hs)
      intro w₂ hw₂
      -- no trade follows
      refine Calls.asks (Calls.bind (Calls.call trivial) fun resting => ?_) w₂
      refine Calls.bind (Calls.call trivial) fun _ => ?_
      dsimp only
      split
      · exact Calls.bind (Calls.call trivial) fun _ => updateOrder_calls ..
      · exact updateOrder_calls ..
    · next hs =>
      have hlt := not_le.mp hs
      apply asks_now
      intro t₁
      apply asks_update
      intro w₁ hw₁
      have ho₁ := hw₁.lt_arrays ho
      have harray₁ := hw₁.array ho
      have hget₁ : (w₁.array orders)[i]? = some r := by rw [harray₁, hget]
      apply asks_get hget₁
      apply asks_now
      intro t₂
      apply asks_trade (trade_fits hr hr.nonneg (le_refl _))
      intro w₂ hw₂
      have harray₂ := hw₂.array ho₁
      have hget₂ : (w₂.array orders)[i]? = some r := by rw [harray₂, hget₁]
      apply asks_get hget₂
      apply asks_update
      intro w₃ hw₃
      have harray₃ : w₃.array orders = w.array orders := by
        rw [hw₃.array (hw₂.lt_arrays ho₁), harray₂, harray₁]
      apply ih (m.rest order r) w₃ (hw₃.lt_arrays (hw₂.lt_arrays ho₁))
      · rw [harray₃]
        exact (Nat.le_succ i).trans hi
      · exact Double.sub_nonneg hlt.le
      · rw [harray₃]
        exact hrows

theorem entered_asks (env : Env) (m : Matcher) (order : OrderBook) (w : World) {orders : Nat}
    (ho : orders < w.arrays.length) (hpos : 0 ≤ order.size)
    (hrows : ∀ r ∈ w.array orders, r.Within) :
    Asks (World.perform env) VolumeFits
      (if (w.array orders).length = 0 then Pure.pure m.notEntered
      else do
        let best : OrderBook ← OrderBookService.call (.get orders ((w.array orders).length - 1))
        if m.enter order.held best.held then
          matchLoop m orders (w.array orders).length order
          Pure.pure ⟨true, "Ok"⟩
        else Pure.pure m.notEntered) w := by
  split
  · trivial
  · next hne =>
    have hlast : (w.array orders).length - 1 < (w.array orders).length := by omega
    apply asks_get (List.getElem?_eq_getElem hlast)
    split
    · apply Asks.bind (matchLoop_asks env m _ _ order _ ho (le_refl _) hpos hrows)
      exact fun _ _ => trivial
    · trivial

theorem run_asks (env : Env) (m : Matcher) (order : OrderBook) (w : World)
    (ho : w.side m.side.opposite < w.arrays.length) (hpos : 0 ≤ order.size)
    (hrows : ∀ r ∈ w.array (w.side m.side.opposite), r.Within) :
    Asks (World.perform env) VolumeFits (m.run order) w := by
  have hentered := entered_asks env m order
    { w with captures := w.captures ++ [⟨order, w.array (w.side m.side.opposite)⟩] } ho hpos hrows
  exact ⟨trivial, trivial, hentered.tryCatch fun _ _ => trivial⟩

end Match

/-! ## What a match makes of the rows -/

/-- As a double, a number that a match computes is not larger than the decimal `a`. -/
def Below (a q : ℚ) : Prop := 0 ≤ q ∧ Double.fl (roundTo 8 q) ≤ Double.fl a

theorem Below.zero {a : ℚ} (h : 0 ≤ a) : Below a 0 := by
  refine ⟨le_refl _, ?_⟩
  rw [roundTo_zero, Double.fl_zero]
  exact Double.fl_nonneg h

/-- What is taken away from a number makes it no larger than the decimal that it came from. -/
theorem Below.sub {a s q : ℚ} (ha : IsDecimal 8 a) (h0 : 0 ≤ a) (hs : Double.fl s ≤ Double.fl a)
    (hq : 0 ≤ q) (hle : Double.fl q ≤ Double.fl s) : Below a (Double.sub s q) :=
  ⟨Double.sub_nonneg hle, Double.fl_roundTo_num_le ha h0 ((Double.fl_sub_le hq).trans hs)⟩

/-- An update sets a size that is not below zero, and not above that of the order or of the
resting order. -/
theorem Plan.update_size {m : Matcher} {order : OrderBook} {L : List OrderBook} {ws : List Write}
    (h : Plan m order L ws) {a : ℚ} (ha : IsDecimal 8 a) (ha0 : 0 ≤ a) (hpos : 0 ≤ order.size)
    (hle : Double.fl order.size ≤ Double.fl a)
    (hL : ∀ r ∈ L, 0 ≤ r.size ∧ IsDecimal 8 r.size) {id : Nat} {u : OrderUpdate} {x : Execution}
    (hu : .update id u x ∈ ws) :
    id = order.id ∧ Below a u.size ∨ ∃ r ∈ L, id = r.id ∧ Below r.size u.size := by
  induction h with
  | nil | stop => cases hu
  | @full order r L t₁ t₂ t₃ h hs =>
    obtain ⟨hr, hdecimal⟩ := hL r List.mem_cons_self
    simp only [Matcher.fullWrites, List.mem_cons, List.not_mem_nil, or_false] at hu
    rcases hu with hu | hu | hu
    · obtain ⟨rfl, rfl, rfl⟩ := Write.update.inj hu
      exact .inl ⟨rfl, .zero ha0⟩
    · cases hu
    · obtain ⟨rfl, rfl, rfl⟩ := Write.update.inj hu
      rw [Matcher.full_size]
      exact .inr ⟨r, List.mem_cons_self, rfl, .sub hdecimal hr (le_refl _) hpos hs⟩
  | @part order r L ws t₁ t₂ h hs hp ih =>
    rw [List.forall_mem_cons] at hL
    obtain ⟨⟨hr, -⟩, hL⟩ := hL
    rcases List.mem_append.mp hu with hu | hu
    · simp only [Matcher.partWrites, List.mem_cons, List.not_mem_nil, or_false] at hu
      rcases hu with hu | hu | hu
      · obtain ⟨rfl, rfl, rfl⟩ := Write.update.inj hu
        exact .inr ⟨r, List.mem_cons_self, rfl, .zero hr⟩
      · cases hu
      · obtain ⟨rfl, rfl, rfl⟩ := Write.update.inj hu
        exact .inl ⟨rfl, .sub ha ha0 hle hr hs.le⟩
    · have hrest : Double.fl (m.rest order r).size ≤ Double.fl a :=
        (Double.fl_sub_le hr).trans hle
      rcases ih (Double.sub_nonneg hs.le) hrest hL hu with hown | ⟨r', hr', hother⟩
      · exact .inl hown
      · exact .inr ⟨r', List.mem_cons_of_mem _ hr', hother⟩

/-- Every update of the row sets a size between zero and `b`. -/
theorem rowAfter_between {ws : List Write} {b : ℚ} {row : OrderBook} (h0 : 0 ≤ row.size)
    (hle : Double.fl row.size ≤ Double.fl b)
    (hu : ∀ u x, .update row.id u x ∈ ws → Below b u.size) :
    0 ≤ (rowAfter ws row).size ∧ Double.fl (rowAfter ws row).size ≤ Double.fl b := by
  induction ws generalizing row with
  | nil => exact ⟨h0, hle⟩
  | cons wr ws ih =>
    have hws : ∀ u x, .update row.id u x ∈ ws → Below b u.size :=
      fun u x hm => hu u x (List.mem_cons_of_mem _ hm)
    cases wr with
    | order | trade => exact ih h0 hle hws
    | update id u x =>
      change 0 ≤ (rowAfter ws (if row.id = id then u.apply row else row)).size ∧
        Double.fl (rowAfter ws (if row.id = id then u.apply row else row)).size ≤ Double.fl b
      split
      · next hid =>
        obtain ⟨hpos, hless⟩ := hu u x (hid ▸ List.mem_cons_self)
        exact ih (roundTo_nonneg hpos) hless hws
      · exact ih h0 hle hws

/-- A row that is updated to less is worth less. -/
theorem OrderBook.Within.after {ws : List Write} (hws : ∀ wr ∈ ws, wr.Matching) {row : OrderBook}
    (h : row.Within) (hu : ∀ u x, .update row.id u x ∈ ws → Below row.size u.size) :
    (rowAfter ws row).Within := by
  obtain ⟨h0, hle⟩ := rowAfter_between h.nonneg (le_refl _) hu
  refine ⟨h0, rowAfter_stored ws h.stored, fun p hp => ?_⟩
  rw [(rowAfter_worked hws row).price] at hp
  exact ⟨(h.worth p hp).1, h.fits_of_le hp h0 hle⟩

/-! ## Calls -/

section Calls

variable {env : Env} {order : NewOrder} {w : World}

theorem mem_of_mem_findOrders {db : Tables} {side : Side} {symbol : String} {limit : Nat}
    {order_by : Direction} {row : OrderBook} (h : row ∈ db.findOrders side symbol limit order_by) :
    row ∈ db.tbl_order_books.rows :=
  List.mem_of_mem_filter (mem_of_mem_orderByLimit h)

/-- The rows after a save: those of other keys, and that of the order. -/
theorem saveOrderBook_cases {db : Tables} {o : NewOrder} {now : Nat} {row : OrderBook}
    (h : row ∈ (db.saveOrderBook o now).2.tbl_order_books.rows) :
    row ∈ db.tbl_order_books.rows ∧ row.id ≠ (db.saveOrderBook o now).1.id ∨
      row.id = (db.saveOrderBook o now).1.id ∧ row.price = o.price.map (roundTo 8) ∧
        row.size = roundTo 8 o.size := by
  unfold Tables.saveOrderBook at h ⊢
  cases hid : o.id with
  | none =>
    simp only [hid] at h ⊢
    rcases List.mem_append.mp h with h | h
    · exact .inl ⟨h, (db.tbl_order_books.fresh row h).ne⟩
    · obtain rfl := List.mem_singleton.mp h
      exact .inr ⟨rfl, rfl, rfl⟩
  | some k =>
    simp only [hid] at h ⊢
    by_cases hk : k ∈ db.tbl_order_books.rows.map OrderBook.id
    · rw [dif_pos hk] at h ⊢
      obtain ⟨row₀, h₀, rfl⟩ := List.mem_map.mp h
      split
      · next hrow => exact .inr ⟨hrow, rfl, rfl⟩
      · next hrow => exact .inl ⟨h₀, hrow⟩
    · rw [dif_neg hk] at h ⊢
      rcases List.mem_append.mp h with h | h
      · refine .inl ⟨h, fun hrow => hk ?_⟩
        exact List.mem_map.mpr ⟨row, h, hrow⟩
      · obtain rfl := List.mem_singleton.mp h
        exact .inr ⟨rfl, rfl, rfl⟩

/-- An accepted save. -/
theorem inserted_within (henv : env.RefusesVolume) (horder : order.Sized) (hw : w.db.Within)
    (hacc : env.fails w.calls (.saveOrderBook order.submitted) = false) :
    (order.inserted env w).Within := by
  have hvolume : fits 10 2 (order.submitted.volume.getD 0) = true := by
    by_contra hfits
    rw [henv _ _ (Bool.eq_false_iff.mpr hfits)] at hacc
    cases hacc
  intro row hrow
  rcases saveOrderBook_cases hrow with ⟨hrow, -⟩ | ⟨-, hprice, hsize⟩
  · exact hw row hrow
  · rw [NewOrder.submitted_size, horder.decimal.roundTo_eq] at hsize
    refine ⟨?_, ?_, fun p hp => ?_⟩
    · rw [hsize]
      exact horder.pos.le
    · rw [hsize]
      exact horder.decimal.roundTo_eq
    · rw [hprice] at hp
      obtain ⟨p', hp', rfl⟩ := Option.map_eq_some_iff.mp hp
      unfold NewOrder.submitted at hp' hvolume
      split at hp'
      · cases hp'
      · next ht =>
        rw [if_neg ht] at hvolume
        obtain ⟨hpos, hdecimal⟩ := horder.price p' hp'
        rw [hdecimal.roundTo_eq, hsize]
        refine ⟨hpos.le, ?_⟩
        change fits 10 2 (Double.mul (number order.price) order.size) = true at hvolume
        rwa [show order.price = some p' from hp'] at hvolume

/-- What is written for an order sets no row to more than it has. -/
theorem Processed.within {r : Except Err Response} {w' : World} {ws done : List Write}
    (h : Processed env order w r w' ws done) (henv : env.RefusesVolume) (horder : order.Sized)
    (hw : w.db.Within) : w'.db.Within := by
  have hinserted := inserted_within henv horder hw h.accepted
  have hresting : ∀ r ∈ order.resting env w,
      r ∈ (order.inserted env w).tbl_order_books.rows :=
    fun r hr => mem_of_mem_findOrders (List.mem_reverse.mp hr)
  intro row' hrow'
  rw [h.rows] at hrow'
  obtain ⟨row, hrow, rfl⟩ := List.mem_map.mp hrow'
  apply (hinserted row hrow).after h.matching
  intro u x hu
  have hsize : (order.taker env w).size = order.size := NewOrder.taker_size
  have hopen : ∀ r ∈ order.resting env w, 0 ≤ r.size ∧ IsDecimal 8 r.size := by
    intro r hr
    have hr' := hinserted r (hresting r hr)
    exact ⟨hr'.nonneg, hr'.stored ▸ isDecimal_roundTo r.size⟩
  rcases h.plan.update_size horder.decimal horder.pos.le (hsize ▸ horder.pos.le)
    (by rw [hsize]) hopen (h.made.subset hu) with ⟨hid, hbelow⟩ | ⟨r', hr', hid, hbelow⟩
  · rcases saveOrderBook_cases hrow with ⟨-, hne⟩ | ⟨-, -, hown⟩
    · exact absurd hid hne
    · rwa [hown, NewOrder.submitted_size, horder.decimal.roundTo_eq]
  · obtain rfl := Table.eq_of_key hrow (hresting r' hr') hid
    exact hbelow

theorem handleOrder_within (henv : env.RefusesVolume) (horder : order.Sized) (hw : w.db.Within) :
    ((handleOrder order).run (World.perform env) w).2.db.Within := by
  have hprocessed := handleOrder_processed env order w
  unfold wp at hprocessed
  rcases hprocessed with ⟨-, -, hw'⟩ | ⟨ws, done, h⟩
  · rw [hw']
    exact hw
  · exact h.within henv horder hw

/-- A match that follows an accepted save. -/
theorem matched_asks {E : Prop} {p : Prog OrderBook} {f : OrderBook → Prog MatchResult}
    {respond : OrderBook → MatchResult → Prog Response} {n : Nat}
    (hcalls : p.Calls VolumeFits)
    (hp : wp (World.perform env) p (Inserted env order n E w) w)
    (hf : f (order.taker env w) = order.matcher.run (order.taker env w))
    (hrespond : ∀ g, (respond (order.taker env w) g).Calls VolumeFits)
    (henv : env.RefusesVolume) (horder : order.Sized) (hw : w.db.Within) :
    Asks (World.perform env) VolumeFits (p >>= fun taker => f taker >>= respond taker) w := by
  apply Asks.bind (hcalls.asks w)
  apply wp_mono hp
  rintro (e | _) w₁ h _ ha
  · cases ha
  obtain rfl := Except.ok.inj ha
  obtain ⟨hacc, rfl, hwrote, hloaded, -⟩ := h
  rw [hf]
  apply Asks.bind
  · have hinserted := inserted_within henv horder hw hacc
    apply run_asks
    · exact hloaded.lt_arrays order.matcher.side.opposite
    · rw [NewOrder.taker_size]
      exact horder.pos.le
    · intro r hr
      apply hinserted
      rw [NewOrder.inserted, ← hwrote.db]
      rw [hloaded.array_eq] at hr
      exact mem_of_mem_findOrders hr
  · exact fun g _ => (hrespond g).asks _

theorem respond_calls {symbol message : String} {g : MatchResult} {failure : Response} :
    (if g.success then do
      let order_list : List OrderBook ← OrderBookService.call (.getUserOrdersNoSide 1 symbol 20)
      Pure.pure ⟨true, message, order_list⟩
    else Pure.pure failure : Prog Response).Calls VolumeFits := by
  split
  · exact Calls.bind (Calls.call trivial) fun _ => trivial
  · trivial

/-- Every trade that is tried while an order is handled. -/
theorem handleOrder_asks (henv : env.RefusesVolume) (horder : order.Sized) (hw : w.db.Within) :
    Asks (World.perform env) VolumeFits (handleOrder order) w := by
  change Asks _ _ (if order.type = .Market then _ else _) _
  by_cases ht : order.type = .Market
  · rw [if_pos ht]
    apply matched_asks _ (saveMarketOrder_inserted ht) _ (fun g => respond_calls) henv horder hw
    · apply Calls.bind (Calls.call trivial)
      intro taker
      exact Calls.bind (fillOrderBook_calls _) fun _ => trivial
    · rw [matchMarketOrder_eq, NewOrder.taker_side, NewOrder.matcher, if_pos ht]
  · rw [if_neg ht]
    apply matched_asks _ (saveOrder_inserted ht) _ (fun g => respond_calls) henv horder hw
    · apply Calls.bind (Calls.call trivial)
      intro taker
      apply Calls.bind (fillOrderBook_calls _)
      intro _
      exact Calls.bind (emitSocketData_calls _) fun _ => trivial
    · rw [matchLimitOrder_eq, NewOrder.taker_side, NewOrder.matcher, if_neg ht]

theorem allAsk_of_within (henv : env.RefusesVolume) {orders : List NewOrder}
    (horders : ∀ order ∈ orders, order.Sized) (hw : w.db.Within) :
    AllAsk env VolumeFits orders w := by
  induction orders generalizing w with
  | nil => trivial
  | cons order orders ih =>
    rw [List.forall_mem_cons] at horders
    have hafter := handleOrder_within henv horders.1 hw
    exact ⟨handleOrder_asks henv horders.1 hw, ih horders.2 hafter⟩

/-- **The volume of a trade fits** its column, in every run from empty rows. -/
theorem volumesFit (henv : env.RefusesVolume) {db : Tables} (hempty : db.tbl_order_books.rows = [])
    {orders : List NewOrder} (horders : ∀ order ∈ orders, order.Sized) :
    AllAsk env VolumeFits orders (World.start db) := by
  apply allAsk_of_within henv horders
  intro row hrow
  rw [show (World.start db).db.tbl_order_books.rows = [] from hempty] at hrow
  cases hrow

end Calls

theorem Env.Constrained.refusesVolume {env : Env} (henv : env.Constrained) :
    env.RefusesVolume := by
  intro n order hfits
  rw [henv]
  simp [Op.admissible, NewOrder.admissible, hfits]

/-- A limit order of whole coins at a whole price. -/
theorem NewOrder.sized_btc (uid : Nat) (side : Side) {price size : ℕ} (hprice : 0 < price)
    (hsize : 0 < size) : (NewOrder.btc uid side price size).Sized where
  pos := Nat.cast_pos.mpr hsize
  decimal := IsDecimal.natCast size
  price p hp := by
    obtain rfl := Option.some.inj hp
    exact ⟨Nat.cast_pos.mpr hprice, IsDecimal.natCast price⟩

/-- A SELL of 9000 at 10000, which is worth 90 millions, and BUYs of 3000 and 6000. -/
theorem volumesFit_large :
    AllAsk .constrained VolumeFits
      [.btc 1 .SELL (10000 : ℕ) (9000 : ℕ), .btc 2 .BUY (10000 : ℕ) (3000 : ℕ),
        .btc 3 .BUY (10000 : ℕ) (6000 : ℕ)] (World.start .traded) := by
  apply volumesFit Env.constrained_constrained.refusesVolume rfl
  simp only [List.forall_mem_cons]
  refine ⟨?_, ?_, ?_, List.forall_mem_nil _⟩
  · exact NewOrder.sized_btc 1 .SELL (by decide) (by decide)
  · exact NewOrder.sized_btc 2 .BUY (by decide) (by decide)
  · exact NewOrder.sized_btc 3 .BUY (by decide) (by decide)

end Exchange
