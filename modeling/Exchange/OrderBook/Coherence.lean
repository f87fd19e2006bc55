import Exchange.OrderBook.Handle

/-!
# The cached book between orders

The service keeps the two sides of one symbol in arrays. A match reloads them after every
write and goes on changing the rows of the array it was started with.

`coherent_of_reloads`: as long as the queries that reload do not fail, the arrays are
what the tables hold for the symbol of the last order that was saved, however the orders
before ended.
-/

namespace Exchange

open Async Proc OrderBookService

/-! ## What is to hold -/

/-- The symbol of an order that is saved. -/
def Write.saved : Write → Option String
  | .order o _ => some o.symbol
  | _ => none

/-- The symbol of the last order that was saved. -/
def World.lastSaved (w : World) : Option String :=
  (w.journal.filterMap fun e => e.write.saved).getLast?

/-- The two arrays hold what the queries would return now. -/
def World.CacheCoherent (w : World) : Prop :=
  ∀ symbol, w.lastSaved = some symbol →
    w.array w.order_books.buy_orders = w.db.findOrders .BUY symbol 100 .ASC ∧
      w.array w.order_books.sell_orders = w.db.findOrders .SELL symbol 100 .DESC

/-- The queries that reload the book do not fail. -/
def Env.Reloads (env : Env) : Prop :=
  ∀ n side symbol limit order_by, env.fails n (.findOrders side symbol limit order_by) = false

/-- The book is loaded for the last symbol. -/
structure Coherent (symbol : String) (w : World) : Prop where
  loaded : Loaded symbol w
  last : w.lastSaved = some symbol

/-- And the array `orders` is none of the two. -/
structure Detached (symbol : String) (orders : Nat) (w : World) : Prop
    extends Coherent symbol w where
  bound : orders < w.arrays.length
  ne : ∀ side, w.side side ≠ orders

/-- What the cache depends on is the same. -/
structure SameBook (w w' : World) : Prop where
  db : w'.db = w.db
  arrays : w'.arrays = w.arrays
  order_books : w'.order_books = w.order_books
  journal : w'.journal = w.journal

section Same

variable {w w' : World} {symbol : String} {orders : Nat}

theorem SameBook.lastSaved (h : SameBook w w') : w'.lastSaved = w.lastSaved := by
  unfold World.lastSaved
  rw [h.journal]

theorem SameBook.array (h : SameBook w w') (orders : Nat) : w'.array orders = w.array orders := by
  unfold World.array
  rw [h.arrays]

theorem SameBook.side (h : SameBook w w') (side : Side) : w'.side side = w.side side := by
  unfold World.side
  rw [h.order_books]

theorem Coherent.same (hc : Coherent symbol w) (h : SameBook w w') : Coherent symbol w' := by
  refine ⟨?_, h.lastSaved.trans hc.last⟩
  unfold Loaded
  rw [h.array, h.array, h.side, h.side, h.db, h.arrays]
  exact hc.loaded

theorem Detached.same (hd : Detached symbol orders w) (h : SameBook w w') :
    Detached symbol orders w' := by
  refine ⟨hd.toCoherent.same h, ?_, fun side => ?_⟩
  · rw [h.arrays]
    exact hd.bound
  · rw [h.side]
    exact hd.ne side

end Same

/-! ## Operations -/

/-- Neither a write nor a change of an array. -/
def Op.reads : Op → Bool
  | .saveOrderBook _ | .updateOrderBook .. | .saveTrade .. => false
  | .setOrderBooks .. | .setSize .. => false
  | _ => true

variable {env : Env} {w : World} {symbol : String} {orders : Nat} {α β : Type}

theorem World.perform_same {o : Op} (ho : o.reads = true) (w : World) :
    SameBook w (World.perform env o w).2 := by
  unfold World.perform
  have htick : SameBook w w.tick := ⟨rfl, rfl, rfl, rfl⟩
  have hanswer (now : Nat) (w : World) : SameBook w (World.answer now o w).2 := by
    cases o with
    | saveOrderBook | updateOrderBook | saveTrade | setOrderBooks | setSize => cases ho
    | get orders i =>
      simp only [World.answer]
      split <;> exact ⟨rfl, rfl, rfl, rfl⟩
    | _ => exact ⟨rfl, rfl, rfl, rfl⟩
  split
  · split
    · exact htick
    · have h := hanswer (env.clock w.calls) w.tick
      exact ⟨h.db, h.arrays, h.order_books, h.journal⟩
  · exact hanswer _ w

/-- A reading leaves whatever the cache depends on. -/
theorem wp_reading {o : Op} (ho : o.reads = true) {f : o.Res → Prog β} {P : World → Prop}
    (hsame : ∀ w', SameBook w w' → P w')
    (hf : ∀ a w', SameBook w w' → wp (World.perform env) (f a) (fun _ => P) w') :
    wp (World.perform env) (OrderBookService.call o >>= f) (fun _ => P) w := by
  rw [wp_bind]
  apply (wp_call _ _).mpr
  have h : SameBook w (World.perform env o w).2 := World.perform_same ho w
  generalize World.perform env o w = r at h
  obtain ⟨e | a, w'⟩ := r
  · exact hsame w' h
  · exact hf a w' h

theorem wp_findOrders (henv : env.Reloads) {side : Side} {limit : Nat} {order_by : Direction}
    {f : List OrderBook → Prog β} {Q : Except Err β → World → Prop}
    (hf : wp (World.perform env) (f (w.db.findOrders side symbol limit order_by)) Q w.tick) :
    wp (World.perform env)
      (OrderBookService.call (.findOrders side symbol limit order_by) >>= f) Q w := by
  apply (wp_bind _ _ _).mpr
  apply (wp_call _ _).mpr
  simp only [World.perform, Op.external, Op.awaits, if_true, henv w.calls]
  exact hf

/-- The book is loaded into two new arrays. -/
theorem fillOrderBook_detached (henv : env.Reloads) (hlast : w.lastSaved = some symbol)
    (horders : orders < w.arrays.length) :
    wp (World.perform env) (fillOrderBook symbol)
      (fun r w' => r = .ok () ∧ Detached symbol orders w') w := by
  unfold fillOrderBook
  apply wp_findOrders henv
  apply wp_findOrders henv
  apply (wp_call _ _).mpr
  refine ⟨rfl, ⟨⟨?_, ?_, ?_, ?_⟩, hlast⟩, ?_, ?_⟩
  · simp [World.answer, World.perform, Op.external, Op.awaits, World.array, World.side, World.tick]
  · simp [World.answer, World.perform, Op.external, Op.awaits, World.array, World.side, World.tick]
  · simp [World.answer, World.perform, Op.external, Op.awaits, World.side, World.tick]
  · simp [World.answer, World.perform, Op.external, Op.awaits, World.side, World.tick]
  · change orders < (w.arrays ++ [_, _]).length
    rw [List.length_append]
    exact Nat.lt_add_right _ horders
  · intro side
    cases side
    · exact horders.ne'
    · exact (Nat.lt_succ_of_lt horders).ne'

/-- An emission reloads the book, also where it raises. -/
theorem emitSocketData_detached (henv : env.Reloads) (hlast : w.lastSaved = some symbol)
    (horders : orders < w.arrays.length) :
    wp (World.perform env) (emitSocketData symbol) (fun _ w' => Detached symbol orders w') w := by
  unfold emitSocketData
  rw [wp_bind]
  apply wp_mono (fillOrderBook_detached henv hlast horders)
  rintro _ w₁ ⟨rfl, h₁⟩
  apply wp_reading rfl fun _ => h₁.same
  intro trades w₂ h₂
  apply wp_reading rfl fun _ h => (h₁.same h₂).same h
  intro day w₃ h₃
  apply wp_reading rfl fun _ h => ((h₁.same h₂).same h₃).same h
  intro price w₄ h₄
  have h₄ := ((h₁.same h₂).same h₃).same h₄
  cases trades with
  | nil => exact h₄
  | cons t ts =>
    apply wp_reading rfl fun _ => h₄.same
    intro books w₅ h₅
    apply (wp_call _ _).mpr
    exact (h₄.same h₅).same (World.perform_same rfl w₅)

/-! ## Writes -/

/-- A write that is refused, or made and followed by an emission. -/
theorem written_coherent (henv : env.Reloads) (hc : Coherent symbol w)
    (horders : orders < w.arrays.length) {p : Prog Unit} {wr : Write} (hwr : wr.saved = none)
    (hp : wp (World.perform env) p (fun
      | .ok _, w' => w' = w.tick.commit wr
      | .error _, w' => w' = w.tick) w) :
    wp (World.perform env) (p >>= fun _ => emitSocketData symbol) (fun
      | .ok _, w' => Detached symbol orders w'
      | .error _, w' => Coherent symbol w') w := by
  rw [wp_bind]
  apply wp_mono hp
  rintro (e | u) w' rfl
  · exact hc.same ⟨rfl, rfl, rfl, rfl⟩
  · have hlast : (w.tick.commit wr).lastSaved = some symbol := by
      rw [← hc.last]
      simp [World.lastSaved, World.commit, World.tick, hwr]
    apply wp_mono (emitSocketData_detached henv hlast horders)
    rintro (e | u) w' h
    · exact h.toCoherent
    · exact h

theorem updateOrder_coherent (henv : env.Reloads) (hc : Coherent symbol w)
    (horders : orders < w.arrays.length) (id : Nat) (u : OrderUpdate) (x : Execution) :
    wp (World.perform env) (updateOrder symbol id u x) (fun
      | .ok _, w' => Detached symbol orders w'
      | .error _, w' => Coherent symbol w') w := by
  have hupdate : (Write.update id u x).saved = none := rfl
  apply written_coherent henv hc horders hupdate
  apply (wp_call _ _).mpr
  simp only [World.perform, Op.external, Op.awaits, if_true]
  cases env.fails w.calls (.updateOrderBook id u x) <;> rfl

theorem saveTrade_coherent (henv : env.Reloads) (t : NewTrade) (x : Execution)
    (hc : Coherent t.symbol w) (horders : orders < w.arrays.length) :
    wp (World.perform env) (saveTrade t x) (fun
      | .ok _, w' => Detached t.symbol orders w'
      | .error _, w' => Coherent t.symbol w') w := by
  have htrade : (Write.trade t x).saved = none := rfl
  apply written_coherent henv hc horders htrade
  apply (wp_call _ _).mpr
  simp only [World.perform, Op.external, Op.awaits, if_true]
  cases env.fails w.calls (.saveTrade t x) <;> rfl

/-- The rule for a write of a match. -/
theorem wp_written {p : Prog Unit} {k : Prog β}
    (hp : wp (World.perform env) p (fun
      | .ok _, w' => Detached symbol orders w'
      | .error _, w' => Coherent symbol w') w)
    (hk : ∀ w', Detached symbol orders w' →
      wp (World.perform env) k (fun _ => Coherent symbol) w') :
    wp (World.perform env) (p >>= fun _ => k) (fun _ => Coherent symbol) w := by
  rw [wp_bind]
  apply wp_mono hp
  rintro (e | u) w' h
  · exact h
  · exact hk w' h

theorem wp_written_last {p : Prog Unit}
    (hp : wp (World.perform env) p (fun
      | .ok _, w' => Detached symbol orders w'
      | .error _, w' => Coherent symbol w') w) :
    wp (World.perform env) p (fun _ => Coherent symbol) w := by
  apply wp_mono hp
  rintro (e | u) w' h
  · exact h
  · exact h.toCoherent

/-- A change of a row in an array that is not the current one. -/
theorem wp_setSize_detached {i : Nat} {size : ℚ} {f : Unit → Prog β}
    (hd : Detached symbol orders w)
    (hf : ∀ w', Detached symbol orders w' →
      wp (World.perform env) (f ()) (fun _ => Coherent symbol) w') :
    wp (World.perform env) (OrderBookService.call (.setSize orders i size) >>= f)
      (fun _ => Coherent symbol) w := by
  apply hf
  have hother (side : Side) : (World.answer (env.clock w.calls) (.setSize orders i size) w).2.array
      (w.side side) = w.array (w.side side) := by
    simp [World.answer, World.array, (hd.ne side).symm]
  refine ⟨⟨⟨?_, ?_, ?_, ?_⟩, hd.last⟩, ?_, hd.ne⟩
  · exact (hother .BUY).trans hd.loaded.1
  · exact (hother .SELL).trans hd.loaded.2.1
  · exact hd.loaded.2.2.1.trans_eq (List.length_modify ..).symm
  · exact hd.loaded.2.2.2.trans_eq (List.length_modify ..).symm
  · exact hd.bound.trans_eq (List.length_modify ..).symm

/-! ## Matching -/

theorem matchLoop_coherent (henv : env.Reloads) (m : Matcher) (orders i : Nat) (order : OrderBook)
    (hc : Coherent order.symbol w) (horders : orders < w.arrays.length) :
    wp (World.perform env) (matchLoop m orders i order) (fun _ => Coherent order.symbol) w := by
  induction i generalizing order w with
  | zero => exact hc
  | succ i ih =>
    unfold matchLoop
    apply wp_reading rfl fun _ => hc.same
    intro resting w₁ h₁
    have hc₁ := hc.same h₁
    have horders₁ : orders < w₁.arrays.length := by
      rw [h₁.arrays]
      exact horders
    split
    · exact hc₁
    split
    · -- the order is filled
      apply wp_now
      apply wp_written (updateOrder_coherent henv hc₁ horders₁ ..)
      intro w₂ hd₂
      apply wp_now
      apply wp_written (saveTrade_coherent henv _ _ hd₂.toCoherent hd₂.bound)
      intro w₃ hd₃
      apply wp_reading rfl fun _ h => hd₃.toCoherent.same h
      intro resting w₄ h₄
      apply wp_setSize_detached (hd₃.same h₄)
      intro w₅ hd₅
      dsimp only
      split
      · apply wp_now
        exact wp_written_last (updateOrder_coherent henv hd₅.toCoherent hd₅.bound ..)
      · exact wp_written_last (updateOrder_coherent henv hd₅.toCoherent hd₅.bound ..)
    · -- the resting order is, and the loop goes on
      apply wp_now
      apply wp_written (updateOrder_coherent henv hc₁ horders₁ ..)
      intro w₂ hd₂
      apply wp_reading rfl fun _ h => hd₂.toCoherent.same h
      intro resting w₃ h₃
      apply wp_now
      apply wp_written (saveTrade_coherent henv _ _ (hd₂.same h₃).toCoherent (hd₂.same h₃).bound)
      intro w₄ hd₄
      apply wp_reading rfl fun _ h => hd₄.toCoherent.same h
      intro resting w₅ h₅
      have hd₅ := hd₄.same h₅
      apply wp_written (updateOrder_coherent henv hd₅.toCoherent hd₅.bound ..)
      intro w₆ hd₆
      exact ih _ hd₆.toCoherent hd₆.bound

theorem wp_capture {side : Side} {order : OrderBook} {f : Nat → Prog β}
    {Q : Except Err β → World → Prop}
    (hf : wp (World.perform env) (f (w.side side)) Q
      { w with captures := w.captures ++ [⟨order, w.array (w.side side)⟩] }) :
    wp (World.perform env) (OrderBookService.call (.capture side order) >>= f) Q w :=
  hf

theorem wp_length {f : Nat → Prog β} {Q : Except Err β → World → Prop}
    (hf : wp (World.perform env) (f (w.array orders).length) Q w) :
    wp (World.perform env) (OrderBookService.call (.length orders) >>= f) Q w :=
  hf

theorem run_coherent (henv : env.Reloads) (m : Matcher) (order : OrderBook)
    (hc : Coherent order.symbol w) :
    wp (World.perform env) (m.run order) (fun _ => Coherent order.symbol) w := by
  have hside : w.side m.side.opposite < w.arrays.length := hc.loaded.lt_arrays _
  have hc₁ : Coherent order.symbol
      { w with captures := w.captures ++ [⟨order, w.array (w.side m.side.opposite)⟩] } :=
    hc.same ⟨rfl, rfl, rfl, rfl⟩
  unfold Matcher.run
  apply wp_capture
  apply wp_length
  apply (wp_tryCatch _ _ _).mpr
  apply wp_mono (Q := fun _ => Coherent order.symbol)
  · split
    · exact hc₁
    · apply wp_reading rfl fun _ => hc₁.same
      intro best w₂ h₂
      split
      · rw [wp_bind]
        apply wp_mono (matchLoop_coherent henv m _ _ order (hc₁.same h₂) ?_)
        · rintro (e | u) w' h
          · exact h
          · exact h
        · rw [h₂.arrays]
          exact hside
      · exact hc₁.same h₂
  · rintro (e | g) w' h
    · exact h
    · exact h

/-! ## Handling an order -/

/-- The save is refused and nothing happens, or the book is loaded for the symbol. -/
def Kept (symbol : String) (w w' : World) : Prop := SameBook w w' ∨ Coherent symbol w'

/-- The outcome of a save. -/
def Saved (symbol : String) (w : World) : Except Err OrderBook → World → Prop
  | .ok taker, w' => taker.symbol = symbol ∧ Coherent symbol w'
  | .error _, w' => Kept symbol w w'

theorem lastSaved_commit (w : World) (order : NewOrder) (now : Nat) :
    (w.tick.commit (.order order now)).lastSaved = some order.symbol := by
  simp [World.lastSaved, World.commit, World.tick, Write.saved]

/-- The save of an order, and what comes after it. -/
theorem saveOrderBook_saved (order : NewOrder) {k : OrderBook → Prog OrderBook}
    (hk : ∀ taker w', taker.symbol = order.symbol → w'.lastSaved = some order.symbol →
      0 < w'.arrays.length → wp (World.perform env) (k taker) (fun r w'' =>
        (∀ t, r = .ok t → t = taker) ∧ Coherent order.symbol w'') w')
    (harrays : 0 < w.arrays.length) :
    wp (World.perform env) (OrderBookService.call (.saveOrderBook order) >>= k)
      (Saved order.symbol w) w := by
  apply (wp_bind _ _ _).mpr
  apply (wp_call _ _).mpr
  simp only [World.perform, Op.external, Op.awaits, if_true]
  cases env.fails w.calls (.saveOrderBook order) with
  | true => exact .inl ⟨rfl, rfl, rfl, rfl⟩
  | false =>
    have hsymbol : (w.db.saveOrderBook order (env.clock w.calls)).1.symbol = order.symbol := by
      obtain ⟨id, h | h⟩ := NewOrder.saveOrderBook_fst w.db order (env.clock w.calls) <;> rw [h] <;>
        rfl
    apply wp_mono (hk _ _ hsymbol (lastSaved_commit w order _) harrays)
    rintro (e | taker) w' ⟨htaker, hc⟩
    · exact .inr hc
    · obtain rfl := htaker taker rfl
      exact ⟨hsymbol, hc⟩

theorem saveOrder_saved (henv : env.Reloads) (order : NewOrder) (harrays : 0 < w.arrays.length) :
    wp (World.perform env) (saveOrder order) (Saved order.symbol w) w := by
  unfold saveOrder
  apply saveOrderBook_saved
    { order with volume := some (Double.mul (number order.price) order.size) } _ harrays
  intro taker w₁ _ hlast harrays₁
  apply (wp_bind _ _ _).mpr
  apply wp_mono (fillOrderBook_detached henv hlast harrays₁)
  rintro _ w₂ ⟨rfl, h₂⟩
  apply (wp_bind _ _ _).mpr
  apply wp_mono (emitSocketData_detached henv h₂.last h₂.bound)
  rintro (e | u) w₃ h₃
  · exact ⟨fun t h => by (cases h), h₃.toCoherent⟩
  · exact ⟨fun t h => (Except.ok.inj h).symm, h₃.toCoherent⟩

theorem saveMarketOrder_saved (henv : env.Reloads) (order : NewOrder)
    (harrays : 0 < w.arrays.length) :
    wp (World.perform env) (saveMarketOrder order) (Saved order.symbol w) w := by
  unfold saveMarketOrder
  apply saveOrderBook_saved { order with price := none } _ harrays
  intro taker w₁ _ hlast harrays₁
  apply (wp_bind _ _ _).mpr
  apply wp_mono (fillOrderBook_detached henv hlast harrays₁)
  rintro _ w₂ ⟨rfl, h₂⟩
  exact ⟨fun t h => (Except.ok.inj h).symm, h₂.toCoherent⟩

/-- The match of a saved order, and the answer to it. -/
theorem matched_kept {p : Prog OrderBook} {f : OrderBook → Prog MatchResult}
    {respond : OrderBook → MatchResult → Prog Response}
    (hp : wp (World.perform env) p (Saved symbol w) w)
    (hf : ∀ taker w', taker.symbol = symbol → Coherent symbol w' →
      wp (World.perform env) (f taker) (fun _ => Coherent symbol) w')
    (hrespond : ∀ taker g w', Coherent symbol w' →
      wp (World.perform env) (respond taker g) (fun _ => Coherent symbol) w') :
    wp (World.perform env) (p >>= fun taker => f taker >>= respond taker)
      (fun _ => Kept symbol w) w := by
  apply (wp_bind _ _ _).mpr
  apply wp_mono hp
  rintro (e | taker) w₁ h
  · exact h
  · apply (wp_bind _ _ _).mpr
    apply wp_mono (hf taker w₁ h.1 h.2)
    rintro (e | g) w₂ h₂
    · exact .inr h₂
    · exact wp_mono (hrespond taker g w₂ h₂) fun _ _ h => .inr h

/-- The answer reads the user's orders. -/
theorem respond_coherent {taker : OrderBook} {g : MatchResult} {message : String}
    {failure : Response} (hc : Coherent symbol w) :
    wp (World.perform env)
      (if g.success then do
        let order_list : List OrderBook ←
          OrderBookService.call (.getUserOrdersNoSide 1 taker.symbol 20)
        Pure.pure ⟨true, message, order_list⟩
      else Pure.pure failure : Prog Response) (fun _ => Coherent symbol) w := by
  split
  · exact wp_reading rfl (fun _ => hc.same) fun _ _ => hc.same
  · exact hc

theorem handleOrder_kept (henv : env.Reloads) (order : NewOrder) (harrays : 0 < w.arrays.length) :
    wp (World.perform env) (handleOrder order) (fun _ => Kept order.symbol w) w := by
  change wp _ (if order.type = .Market then _ else _) _ _
  split
  · apply matched_kept (saveMarketOrder_saved henv { order with orgSize := order.size } harrays)
    · rintro taker w' hsymbol hc
      rw [matchMarketOrder_eq]
      rw [← hsymbol] at hc ⊢
      exact run_coherent henv _ taker hc
    · exact fun taker g w' => respond_coherent
  · apply matched_kept (saveOrder_saved henv { order with orgSize := order.size } harrays)
    · rintro taker w' hsymbol hc
      rw [matchLimitOrder_eq]
      rw [← hsymbol] at hc ⊢
      exact run_coherent henv _ taker hc
    · exact fun taker g w' => respond_coherent

/-! ## Runs -/

/-- What holds between two orders: the book is coherent, and the service has its arrays. -/
theorem handleAll_coherent (henv : env.Reloads) (orders : List NewOrder) (w : World)
    (harrays : 0 < w.arrays.length) (hw : w.CacheCoherent) :
    (handleAll env orders w).CacheCoherent := by
  induction orders generalizing w with
  | nil => exact hw
  | cons order orders ih =>
    have hstep := handleOrder_kept henv order harrays
    unfold wp at hstep
    unfold handleAll
    generalize ((handleOrder order).run (World.perform env) w).2 = w' at hstep
    rcases hstep with h | h
    · apply ih
      · rw [h.arrays]
        exact harrays
      · intro symbol hlast
        rw [h.array, h.array, h.order_books, h.db]
        exact hw symbol (h.lastSaved.symm.trans hlast)
    · apply ih
      · exact (Nat.zero_le _).trans_lt h.loaded.2.2.1
      · intro symbol hlast
        obtain rfl := Option.some.inj (h.last.symm.trans hlast)
        exact ⟨h.loaded.1, h.loaded.2.1⟩

/-- **Between two orders** the cached book is what the tables hold for the symbol of the
last order that was saved. -/
theorem coherent_of_reloads {env : Env} (henv : env.Reloads) (db : Tables)
    (orders : List NewOrder) : (handleAll env orders (World.start db)).CacheCoherent := by
  apply handleAll_coherent henv
  · exact Nat.succ_pos 1
  · intro symbol hlast
    cases hlast

/-- A resting order is traded, and then the emission of the third order's save fails. -/
theorem coherent_after_failure :
    let env : Env := ⟨fun n => n, fun n o => decide (45 ≤ n) && o.external && !o.awaits⟩
    let w := handleAll env [.btc 1 .SELL 10 1, .btc 2 .BUY 11 3, .btc 3 .BUY 9 1]
      (World.start Tables.traded)
    w.lastSaved = some "BTC/USDT" ∧ w.CacheCoherent := by
  refine ⟨by decide +kernel, coherent_of_reloads ?_ _ _⟩
  intro n side symbol limit order_by
  exact Bool.and_false _

end Exchange
