import Exchange.OrderBook.Sharing

/-!
# Concurrent requests

Requests handled at the same time, interleaved at their database calls. `Held`
is what a matcher knows of its array at every await and `Executing` what it
knows between the writes of an execution; the other requests falsify neither.

`interleave_step` concludes: whatever the schedule and whatever calls fail, the
requests change the world by steps, so every entry of the journal is sound.
-/

namespace Exchange

open Async Proc OrderBookService Store

/-! ## Requests as threads -/

/-- A request of the order book controller that reads or writes the book. -/
inductive Call where
  | order (req : Request)
  | orderbooks

/-- The handler of a request; no caller waits for its answer here. -/
def Call.prog : Call → Prog Unit
  | order req => do
    let _ ← handleOrder req.order
    Pure.pure ()
  | orderbooks => do
    let _ ← fillOrderBookAndReturn "BTC/ETH"
    Pure.pure ()

/-- Handle the calls concurrently, from given tables; `schedule` says whose turn it is. -/
def interleave (env : Env) (db : Tables) (calls : List Call) (schedule : List Nat) : World :=
  (Pool.run (World.perform env) Op.awaits ⟨.start db, calls.map Call.prog⟩ schedule).world

/-! ## Threads -/

/-- What a thread knows and no other thread can falsify. -/
def Stable (pos : Prop) (I : World → Prop) : Prop := ∀ w w', Step pos w w' → I w → I w'

/-- `Proc.Safe` for the threads of the service. -/
abbrev Safely {α : Type} (pos : Prop) (env : Env) (p : Prog α)
    (Q : Except Err α → World → Prop) (w : World) : Prop :=
  Safe (World.perform env) Op.awaits (Step pos) Q p w

section Threads

variable {α : Type} {pos : Prop} {env : Env} {I : World → Prop} {w : World}

/-- An operation fails with nothing but the call counted, or is answered. -/
theorem perform_rule (env : Env) (o : Op) (w : World) {P : Except Err o.Res → World → Prop}
    (hfail : P (.error .rejected) w.tick)
    (hok : ∀ now v, v = w ∨ v = w.tick → P (World.answer now o v).1 (World.answer now o v).2) :
    P (World.perform env o w).1 (World.perform env o w).2 := by
  unfold World.perform
  split
  · split
    · exact hfail
    · exact hok _ _ (.inr rfl)
  · exact hok _ _ (.inl rfl)

theorem Stable.tick (hI : Stable pos I) (hw : I w) : I w.tick := hI _ _ (Step.tick w) hw

/-- An operation that is a step when the thread knows `I`. -/
theorem safely_op (hI : Stable pos I) (hw : I w) {o : Op} {Q : o.Res → World → Prop}
    (h : ∀ now v, I v → Step pos v (World.answer now o v).2 ∧
      ∀ a, (World.answer now o v).1 = .ok a → Q a (World.answer now o v).2) :
    Safely pos env (OrderBookService.call o)
      (fun r w' => I w' ∧ ∀ a, r = .ok a → Q a w') w := by
  apply Safe.call_of_stable hI hw
  intro w' hw'
  have hv : ∀ v, v = w' ∨ v = w'.tick → Step pos w' v ∧ I v := by
    rintro v (rfl | rfl)
    · exact ⟨Step.refl pos v, hw'⟩
    · exact ⟨Step.tick w', hI.tick hw'⟩
  apply perform_rule env o w' (P := fun r v => Step pos w' v ∧ I v ∧ ∀ a, r = .ok a → Q a v)
  · exact ⟨Step.tick w', hI.tick hw', by simp⟩
  · intro now v hcase
    obtain ⟨hstep, hIv⟩ := hv v hcase
    obtain ⟨hstep', hQ⟩ := h now v hIv
    exact ⟨hstep.trans hstep', hI _ _ hstep' hIv, hQ⟩

/-- A query of the database. -/
theorem safely_query (hI : Stable pos I) (hw : I w) {o : Op}
    (ho : ∀ now v, (World.answer now o v).2 = v) :
    Safely pos env (OrderBookService.call o) (fun _ w' => I w') w := by
  apply Safe.mono (safely_op (Q := fun _ _ => True) hI hw ?_) fun _ _ h => h.1
  intro now v _
  rw [ho]
  exact ⟨Step.refl pos v, fun _ _ => trivial⟩

theorem safely_findOrders (hI : Stable pos I) (hw : I w) (side : Side) (symbol : String)
    (limit : Nat) (order_by : Direction) :
    Safely pos env (OrderBookService.call (.findOrders side symbol limit order_by))
      (fun r w' => I w' ∧ ∀ l, r = .ok l → w'.Lists side l) w := by
  apply safely_op hI hw
  intro now v _
  refine ⟨Step.refl pos v, ?_⟩
  rintro l ⟨⟩
  exact lists_findOrders v side symbol limit order_by

/-- An operation inside the process, which nothing interrupts. -/
theorem safely_local {o : Op} (ho : o.external = false) {Q : Except Err o.Res → World → Prop}
    (h : ∀ now, Step pos w (World.answer now o w).2 ∧
      Q (World.answer now o w).1 (World.answer now o w).2) :
    Safely pos env (OrderBookService.call o) Q w := by
  have hawaits : o.awaits = false := by
    cases o <;> first | rfl | cases ho
  apply Safe.call
  rintro w' (rfl | ⟨ha, -⟩)
  · rw [World.perform, if_neg (by simp [ho])]
    exact h _
  · rw [hawaits] at ha
    cases ha

theorem safely_get (orders i : Nat) :
    Safely pos env (OrderBookService.call (.get orders i))
      (fun r w' => w' = w ∧ ∀ a, r = .ok a → (w.array orders)[i]? = some a) w := by
  apply safely_local rfl
  intro now
  simp only [World.answer]
  split
  · next r hr => exact ⟨Step.refl pos w, rfl, fun a ha => by cases ha; exact hr⟩
  · exact ⟨Step.refl pos w, rfl, fun a ha => by cases ha⟩

theorem safely_now : Safely pos env (OrderBookService.call .now) (fun _ w' => w' = w) w := by
  apply safely_local rfl
  exact fun now => ⟨Step.refl pos w, rfl⟩

theorem Stable.lists (hI : Stable pos I) (side : Side) (l : List OrderBook) :
    Stable pos fun w => I w ∧ w.Lists side l :=
  fun w w' h hw => ⟨hI w w' h hw.1, h.lists hw.2⟩

/-! ## Reloads and emissions -/

theorem fillOrderBook_safely (hI : Stable pos I) (hw : I w) (symbol : String) :
    Safely pos env (fillOrderBook symbol) (fun _ w' => I w') w := by
  unfold fillOrderBook
  apply Safe.seq (safely_findOrders hI hw .BUY symbol 100 .ASC)
  · exact fun _ _ h => h.1
  intro buy_orders w₁ h₁
  have hbuy := hI.lists .BUY buy_orders
  apply Safe.seq (safely_findOrders hbuy ⟨h₁.1, h₁.2 _ rfl⟩ .SELL symbol 100 .DESC)
  · exact fun _ _ h => h.1.1
  intro sell_orders w₂ h₂
  have hsell := hbuy.lists .SELL sell_orders
  apply Safe.mono (safely_op (Q := fun _ _ => True) hsell ⟨h₂.1, h₂.2 _ rfl⟩ ?_)
  · exact fun _ _ h => h.1.1.1
  · exact fun now v hv => ⟨Step.setOrderBooks hv.1.2 hv.2, fun _ _ => trivial⟩

theorem fillOrderBookAndReturn_safely (hI : Stable pos I) (hw : I w) (symbol : String) :
    Safely pos env (fillOrderBookAndReturn symbol) (fun _ w' => I w') w := by
  have heq : fillOrderBookAndReturn symbol =
      fillOrderBook symbol >>= fun _ => OrderBookService.call .orderBooks := by
    unfold fillOrderBookAndReturn fillOrderBook
    exact (congrArg _ (funext fun buy_orders => Proc.bind_assoc _ _ _)).symm.trans
      (Proc.bind_assoc _ _ _).symm
  rw [heq]
  apply Safe.seq (fillOrderBook_safely hI hw symbol)
  · exact fun _ _ h => h
  · exact fun _ w' h => safely_query hI h fun _ _ => rfl

theorem emitSocketData_safely (hI : Stable pos I) (hw : I w) (symbol : String) :
    Safely pos env (emitSocketData symbol) (fun _ w' => I w') w := by
  have herr : ∀ (e : Err) w', I w' → I w' := fun _ _ h => h
  unfold emitSocketData
  apply Safe.seq (fillOrderBook_safely hI hw symbol) herr
  intro _ w₁ h₁
  apply Safe.seq (safely_query hI h₁ fun _ _ => rfl) herr
  intro trades w₂ h₂
  apply Safe.seq (safely_query hI h₂ fun _ _ => rfl) herr
  intro data w₃ h₃
  apply Safe.seq (safely_query hI h₃ fun _ _ => rfl) herr
  intro price w₄ h₄
  cases trades with
  | nil => exact h₄
  | cons last_trade trades =>
    apply Safe.seq (safely_query hI h₄ fun _ _ => rfl) herr
    intro books w₅ h₅
    apply Safe.mono (safely_op (Q := fun _ _ => True) hI h₅ ?_) fun _ _ h => h.1
    intro now v _
    exact ⟨Step.of_eq rfl rfl rfl rfl (List.prefix_refl _), fun _ _ => trivial⟩

/-! ## Writes -/

theorem updateOrder_safely (hI : Stable pos I) (hw : I w) {x : Execution}
    (hx : ∀ v, I v → x.Known v.db v.captures) {id : Nat} (hid : id = x.taker.id ∨ id = x.maker.id)
    (symbol : String) (update : OrderUpdate) :
    Safely pos env (updateOrder symbol id update x) (fun _ w' => I w') w := by
  unfold updateOrder
  apply Safe.seq (safely_op (Q := fun _ _ => True) hI hw ?_)
  · exact fun _ _ h => h.1
  · exact fun _ _ h => emitSocketData_safely hI h.1 symbol
  · exact fun now v hv => ⟨Step.commit ⟨hid, hx v hv⟩, fun _ _ => trivial⟩

theorem saveTrade_safely (hI : Stable pos I) (hw : I w) {x : Execution}
    (hx : ∀ v, I v → x.Known v.db v.captures) {t : NewTrade} (ht : x.Trades pos t) :
    Safely pos env (saveTrade t x) (fun _ w' => I w') w := by
  unfold saveTrade
  apply Safe.seq (safely_op (Q := fun _ _ => True) hI hw ?_)
  · exact fun _ _ h => h.1
  · exact fun _ _ h => emitSocketData_safely hI h.1 t.symbol
  · exact fun now v hv => ⟨Step.commit ⟨ht, hx v hv⟩, fun _ _ => trivial⟩

/-! ## Matching -/

/-- What a matcher knows of its order and of the array it picked up. -/
structure Held (pos : Prop) (m : Matcher) (order : OrderBook) (orders : Nat) (w : World) :
    Prop where
  sound : w.Sound
  own : w.db.Has order
  side : order.side = m.side
  size : pos → 0 < order.size
  array : ∃ l, w.arrays[orders]? = some l ∧ (∀ r ∈ l, r.side = m.side.opposite) ∧
    ∃ c ∈ w.captures, c.order.symbol = order.symbol ∧ List.Forall₂ Same c.orders l

theorem forall₂_same_of_aged {l l' l'' : List OrderBook} (h : List.Forall₂ Same l l')
    (h' : List.Forall₂ (Aged pos) l' l'') : List.Forall₂ Same l l'' := by
  induction h generalizing l'' with
  | nil =>
    cases h'
    exact .nil
  | cons hs _ ih =>
    cases h' with
    | cons ha hl => exact .cons (hs.trans ha.toSame) (ih hl)

theorem forall₂_side {l l' : List OrderBook} {side : Side} (h : List.Forall₂ (Aged pos) l l')
    (hl : ∀ r ∈ l, r.side = side) : ∀ r ∈ l', r.side = side := by
  induction h with
  | nil => simp
  | cons ha _ ih =>
    have hl := List.forall_mem_cons.mp hl
    exact List.forall_mem_cons.mpr ⟨ha.side.trans hl.1, ih hl.2⟩

theorem Held.stable (m : Matcher) (order : OrderBook) (orders : Nat) :
    Stable pos (Held pos m order orders) := by
  intro w w' h hw
  obtain ⟨l, hl, hside, c, hc, hsym, hsame⟩ := hw.array
  obtain ⟨l', hl', haged⟩ := h.arrays orders l hl
  exact ⟨h.sound hw.sound, h.has hw.own, hw.side, hw.size, l', hl', forall₂_side haged hside,
    c, h.captures.subset hc, hsym, forall₂_same_of_aged hsame haged⟩

/-- At position `i` of the array stands the object `r`, possibly shrunk. -/
def World.Holds (pos : Prop) (w : World) (orders i : Nat) (r : OrderBook) : Prop :=
  ∃ l r', w.arrays[orders]? = some l ∧ l[i]? = some r' ∧ Aged pos r r'

theorem Step.holds {w' : World} (h : Step pos w w') {orders i : Nat} {r : OrderBook}
    (hr : w.Holds pos orders i r) : w'.Holds pos orders i r := by
  obtain ⟨l, r', hl, hi, ha⟩ := hr
  obtain ⟨l', hl', hall⟩ := h.arrays orders l hl
  obtain ⟨hlen, hget⟩ := List.forall₂_iff_get.mp hall
  have hlt := (List.getElem?_eq_some_iff.mp hi).1
  have hage := hget i hlt (hlen ▸ hlt)
  simp only [List.get_eq_getElem, (List.getElem?_eq_some_iff.mp hi).2] at hage
  exact ⟨l', _, hl', List.getElem?_eq_getElem (hlen ▸ hlt), ha.trans hage⟩

/-- What a matcher knows between the writes of the execution `x` with the resting
order at position `i`. -/
structure Executing (pos : Prop) (m : Matcher) (x : Execution) (orders i : Nat) (w : World) :
    Prop where
  held : Held pos m x.taker orders w
  known : x.Known w.db w.captures
  holds : w.Holds pos orders i x.maker

theorem Execution.Known.step {w' : World} {x : Execution} (hx : x.Known w.db w.captures)
    (h : Step pos w w') : x.Known w'.db w'.captures := by
  have hmono := hx.mono h.captures
  exact ⟨h.has hx.taker, h.has hx.maker, hx.opposite, hmono.captured⟩

theorem Executing.stable (m : Matcher) (x : Execution) (orders i : Nat) :
    Stable pos (Executing pos m x orders i) := fun w w' h hw =>
  ⟨Held.stable m x.taker orders w w' h hw.held, hw.known.step h, h.holds hw.holds⟩

/-- The resting order that a matcher reads. -/
theorem Held.executing {m : Matcher} {order resting : OrderBook} {orders i : Nat}
    (h : Held pos m order orders w) (hget : (w.array orders)[i]? = some resting) :
    Executing pos m ⟨order, resting⟩ orders i w := by
  obtain ⟨l, hl, hside, c, hc, hsym, hsame⟩ := h.array
  rw [w.array_of_get hl] at hget
  have hmem := List.mem_of_getElem? hget
  refine ⟨h, ⟨h.own, ?_, ?_, c, hc, hsym, ?_⟩, l, resting, hl, hget, Aged.refl pos resting⟩
  · exact h.sound.rows l (List.mem_of_getElem? hl) resting hmem
  · rw [hside resting hmem, h.side]
  · obtain ⟨hlen, hall⟩ := List.forall₂_iff_get.mp hsame
    obtain ⟨hlt, rfl⟩ := List.getElem?_eq_some_iff.mp hget
    have hlt' : i < c.orders.length := hlen ▸ hlt
    exact ⟨c.orders[i], List.getElem_mem hlt', hall i hlt' hlt⟩

/-- The object that stands at the position of the maker is one of it. -/
theorem Executing.current {m : Matcher} {x : Execution} {orders i : Nat} {r : OrderBook}
    (h : Executing pos m x orders i w) (hr : (w.array orders)[i]? = some r) :
    Aged pos x.maker r := by
  obtain ⟨l, r', hl, hi, ha⟩ := h.holds
  rw [w.array_of_get hl, hi] at hr
  cases hr
  exact ha

/-- The trade of a matcher, with the resting order as it is read again. -/
theorem Executing.trades {m : Matcher} {x : Execution} {orders i : Nat} {r : OrderBook} {size : ℚ}
    (h : Executing pos m x orders i w) (hr : Same x.maker r)
    (hsize : pos → Double.fl size ≤ Double.fl x.taker.size ∧
      Double.fl size ≤ Double.fl x.maker.size) (is_buyer now : Nat) :
    x.Trades pos (m.trade x.taker r size is_buyer now) where
  symbol := rfl
  buyer := by rw [Matcher.trade, h.held.side, hr.uid]
  seller := by rw [Matcher.trade, h.held.side, hr.uid]
  size := hsize

/-- What is left of the taker after an execution. -/
theorem Held.rest {m : Matcher} {order : OrderBook} {orders : Nat} (h : Held pos m order orders w)
    {size : ℚ} (hsize : pos → 0 < size) (fills : Option (List Fill)) :
    Held pos m { order with size := size, fills := fills } orders w where
  sound := h.sound
  own := h.own.same ⟨rfl, rfl, rfl, rfl⟩
  side := h.side
  size := hsize
  array := h.array

theorem matchLoop_safely (m : Matcher) (orders i : Nat) (order : OrderBook)
    (h : Held pos m order orders w) :
    Safely pos env (matchLoop m orders i order) (fun _ _ => True) w := by
  induction i generalizing order w with
  | zero => trivial
  | succ i ih =>
    unfold matchLoop
    apply Safe.seq_any (safely_get orders i)
    rintro resting w₁ ⟨rfl, hget⟩
    have hE := h.executing (hget resting rfl)
    have hI : Stable pos (Executing pos m ⟨order, resting⟩ orders i) :=
      Executing.stable m _ orders i
    have hx : ∀ v, Executing pos m ⟨order, resting⟩ orders i v →
        Execution.Known ⟨order, resting⟩ v.db v.captures := fun v hv => hv.known
    split
    · trivial
    · split
      · next hle =>
        -- the order is filled from the resting one
        apply Safe.seq_any safely_now
        rintro settled_at w₂ rfl
        apply Safe.seq_any (updateOrder_safely hI hE hx (.inl rfl) _ _)
        intro _ w₃ h₃
        apply Safe.seq_any safely_now
        rintro created_at w₄ rfl
        have htrade := h₃.trades (Same.refl resting)
          (fun _ => ⟨le_refl (Double.fl order.size), hle⟩) m.full_is_buyer created_at
        apply Safe.seq_any (saveTrade_safely hI h₃ hx htrade)
        intro _ w₅ h₅
        apply Safe.seq_any (safely_get orders i)
        rintro resting' w₆ ⟨rfl, hget'⟩
        have hcur := h₅.current (hget' resting' rfl)
        have hid : resting'.id = resting.id := hcur.id
        have hset : ∀ now, Step pos w₆
            (World.answer now (.setSize orders i (Double.sub resting'.size order.size)) w₆).2 := by
          intro now
          apply Step.setSize (hget' resting' rfl)
          exact fun hp => Double.fl_sub_le (h.size hp).le
        have hshrink : Safely pos env
            (OrderBookService.call (.setSize orders i (Double.sub resting'.size order.size)))
            (fun _ v => Executing pos m ⟨order, resting⟩ orders i v) w₆ :=
          safely_local rfl fun now => ⟨hset now, hI _ _ (hset now) h₅⟩
        apply Safe.seq_any hshrink
        intro _ w₇ h₇
        split
        · apply Safe.seq_any safely_now
          rintro settled_at' w₈ rfl
          exact Safe.mono (updateOrder_safely hI h₇ hx (.inr hid) _ _) fun _ _ _ => trivial
        · exact Safe.mono (updateOrder_safely hI h₇ hx (.inr hid) _ _) fun _ _ _ => trivial
      · next hgt =>
        -- the resting order is taken whole and the loop goes on
        apply Safe.seq_any safely_now
        rintro settled_at w₂ rfl
        apply Safe.seq_any (updateOrder_safely hI hE hx (.inr rfl) _ _)
        intro _ w₃ h₃
        apply Safe.seq_any (safely_get orders i)
        rintro resting' w₄ ⟨rfl, hget'⟩
        apply Safe.seq_any safely_now
        rintro created_at w₅ rfl
        have hcur := h₃.current (hget' resting' rfl)
        have hsizes : pos → Double.fl resting'.size ≤ Double.fl order.size ∧
            Double.fl resting'.size ≤ Double.fl resting.size := by
          intro hp
          have hshrunk := hcur.size hp
          exact ⟨hshrunk.trans (not_le.mp hgt).le, hshrunk⟩
        have htrade := h₃.trades hcur.toSame hsizes m.part_is_buyer created_at
        apply Safe.seq_any (saveTrade_safely hI h₃ hx htrade)
        intro _ w₆ h₆
        apply Safe.seq_any (safely_get orders i)
        rintro resting'' w₇ ⟨rfl, hget''⟩
        have hcur' := h₆.current (hget'' resting'' rfl)
        apply Safe.seq_any (updateOrder_safely hI h₆ hx (.inl rfl) _ _)
        intro _ w₈ h₈
        apply ih
        apply h₈.held.rest
        intro hp
        exact Double.sub_pos ((hcur'.size hp).trans_lt (not_le.mp hgt))

/-- What a matcher starts with. -/
structure Placed (pos : Prop) (order : OrderBook) (w : World) : Prop where
  sound : w.Sound
  own : w.db.Has order
  size : pos → 0 < order.size

theorem Placed.stable (order : OrderBook) : Stable pos (Placed pos order) :=
  fun _ _ h hw => ⟨h.sound hw.sound, h.has hw.own, hw.size⟩

/-- Picking up the opposite side of the shared book. -/
theorem capture_safely {m : Matcher} {order : OrderBook} (hside : order.side = m.side)
    (h : Placed pos order w) :
    Safely pos env (OrderBookService.call (.capture m.side.opposite order))
      (fun r w' => ∀ orders, r = .ok orders → Held pos m order orders w') w := by
  apply safely_local rfl
  intro now
  have hstep : Step pos w (World.answer now (.capture m.side.opposite order) w).2 :=
    Step.of_eq rfl rfl rfl rfl (List.prefix_append _ _)
  refine ⟨hstep, ?_⟩
  rintro orders ⟨⟩
  have hlt := h.sound.valid m.side.opposite
  refine ⟨hstep.sound h.sound, hstep.has h.own, hside, h.size, _, List.getElem?_eq_getElem hlt, ?_,
    ⟨order, w.array (w.side m.side.opposite)⟩, List.mem_append_right _ (by simp), rfl, ?_⟩
  · rw [← w.array_eq hlt]
    exact h.sound.sides m.side.opposite
  · change List.Forall₂ Same (w.array (w.side m.side.opposite)) w.arrays[w.side m.side.opposite]
    rw [w.array_eq hlt]
    exact List.forall₂_same.mpr fun r _ => Same.refl r

theorem entered_safely {m : Matcher} {order : OrderBook} {orders : Nat}
    (h : Held pos m order orders w) (n : Nat) :
    Safely pos env
      (if n = 0 then Pure.pure m.notEntered
      else do
        let best : OrderBook ← OrderBookService.call (.get orders (n - 1))
        if m.enter order.held best.held then
          matchLoop m orders n order
          Pure.pure ⟨true, "Ok"⟩
        else Pure.pure m.notEntered) (fun _ _ => True) w := by
  split
  · trivial
  · apply Safe.seq_any (safely_get orders (n - 1))
    rintro best w₁ ⟨rfl, -⟩
    split
    · apply Safe.seq_any (matchLoop_safely m orders n order h)
      exact fun _ _ _ => trivial
    · trivial

theorem run_safely {m : Matcher} {order : OrderBook} (hside : order.side = m.side)
    (h : Placed pos order w) : Safely pos env (m.run order) (fun _ _ => True) w := by
  unfold Matcher.run
  apply Safe.seq_any (capture_safely hside h)
  intro orders w₁ h₁
  have hheld := h₁ orders rfl
  have hlength : Safely pos env (OrderBookService.call (.length orders))
      (fun _ w' => w' = w₁) w₁ := safely_local rfl fun now => ⟨Step.refl pos w₁, rfl⟩
  apply Safe.seq_any hlength
  rintro n w₂ rfl
  apply Safe.tryCatch
  apply Safe.mono (entered_safely hheld n)
  rintro (e | a) w₃ -
  · trivial
  · trivial

/-! ## Requests -/

theorem saveOrderBook_safely (hw : w.Sound) {order : NewOrder} (hid : order.id = none)
    (hsize : pos → 0 < order.size) :
    Safely pos env (OrderBookService.call (.saveOrderBook order))
      (fun r w' => ∀ saved, r = .ok saved →
        Placed pos saved w' ∧ saved.side = order.side) w := by
  have hI : Stable pos World.Sound := fun _ _ h => h.sound
  have hsaved : Safely pos env (OrderBookService.call (.saveOrderBook order))
      (fun r w' => w'.Sound ∧ ∀ saved : OrderBook, r = .ok saved → w'.db.Has saved ∧
        saved.side = order.side ∧ saved.size = order.size) w := by
    apply safely_op hI hw
    intro now v _
    refine ⟨Step.commit ⟨hid, hsize⟩, ?_⟩
    rintro saved ⟨⟩
    simp only [World.answer, World.commit, Tables.write, Tables.saveOrderBook, hid]
    exact ⟨⟨order.toRow v.db.tbl_order_books.next now, List.mem_append_right _ (by simp),
      rfl, rfl, rfl, rfl⟩, rfl, rfl⟩
  apply Safe.mono hsaved
  rintro r w' ⟨hsound, h⟩ saved rfl
  obtain ⟨hhas, hside, hsz⟩ := h saved rfl
  exact ⟨⟨hsound, hhas, fun hp => hsz ▸ hsize hp⟩, hside⟩

theorem saveOrder_safely (hw : w.Sound) {order : NewOrder} (hid : order.id = none)
    (hsize : pos → 0 < order.size) :
    Safely pos env (saveOrder order)
      (fun r w' => ∀ saved, r = .ok saved → Placed pos saved w' ∧ saved.side = order.side) w := by
  unfold saveOrder
  apply Safe.seq (saveOrderBook_safely hw (by exact hid) (by exact hsize))
  · exact fun _ _ _ _ h => by cases h
  intro saved w₁ h₁
  obtain ⟨hready, hside⟩ := h₁ saved rfl
  apply Safe.seq (fillOrderBook_safely (Placed.stable saved) hready _) fun _ _ _ _ h => by cases h
  intro _ w₂ h₂
  apply Safe.seq (emitSocketData_safely (Placed.stable saved) h₂ _) fun _ _ _ _ h => by cases h
  rintro _ w₃ h₃ saved' ⟨⟩
  exact ⟨h₃, hside⟩

theorem saveMarketOrder_safely (hw : w.Sound) {order : NewOrder} (hid : order.id = none)
    (hsize : pos → 0 < order.size) :
    Safely pos env (saveMarketOrder order)
      (fun r w' => ∀ saved, r = .ok saved → Placed pos saved w' ∧ saved.side = order.side) w := by
  unfold saveMarketOrder
  apply Safe.seq (saveOrderBook_safely hw (by exact hid) (by exact hsize))
  · exact fun _ _ _ _ h => by cases h
  intro saved w₁ h₁
  obtain ⟨hready, hside⟩ := h₁ saved rfl
  apply Safe.seq (fillOrderBook_safely (Placed.stable saved) hready _) fun _ _ _ _ h => by cases h
  rintro _ w₂ h₂ saved' ⟨⟩
  exact ⟨h₂, hside⟩

theorem matchLimitOrder_safely {order : OrderBook} (h : Placed pos order w) :
    Safely pos env (matchLimitOrder order) (fun _ _ => True) w := by
  unfold matchLimitOrder
  cases hs : order.side with
  | BUY => exact run_safely hs h
  | SELL => exact run_safely hs h

theorem matchMarketOrder_safely {order : OrderBook} (h : Placed pos order w) :
    Safely pos env (matchMarketOrder order) (fun _ _ => True) w := by
  unfold matchMarketOrder
  cases hs : order.side with
  | BUY => exact run_safely hs h
  | SELL => exact run_safely hs h

/-- The answer of `handleOrder`: a query, or nothing. -/
theorem answer_safely (g : MatchResult) (symbol text failure : String) :
    Safely pos env
      (if g.success then do
        let order_list : List OrderBook ←
          OrderBookService.call (.getUserOrdersNoSide 1 symbol 20)
        Pure.pure (⟨true, text, order_list⟩ : Response)
      else Pure.pure ⟨false, failure, []⟩) (fun _ _ => True) w := by
  have hI : Stable pos fun _ => True := fun _ _ _ _ => trivial
  split
  · apply Safe.seq_any (safely_query hI trivial fun _ _ => rfl)
    exact fun _ _ _ => trivial
  · trivial

theorem handleOrder_safely (hw : w.Sound) {order : NewOrder} (hid : order.id = none)
    (hsize : pos → 0 < order.size) :
    Safely pos env (handleOrder order) (fun _ _ => True) w := by
  unfold handleOrder
  dsimp only
  split
  · apply Safe.seq_any (saveMarketOrder_safely hw (by exact hid) (by exact hsize))
    intro saved w₁ h₁
    apply Safe.seq_any (matchMarketOrder_safely (h₁ saved rfl).1)
    exact fun g w₂ _ => answer_safely g _ _ _
  · apply Safe.seq_any (saveOrder_safely hw (by exact hid) (by exact hsize))
    intro saved w₁ h₁
    apply Safe.seq_any (matchLimitOrder_safely (h₁ saved rfl).1)
    exact fun g w₂ _ => answer_safely g _ _ _

end Threads

/-- All orders among the calls have a positive size. -/
def Positive (calls : List Call) : Prop := ∀ req : Request, .order req ∈ calls → 0 < req.order.size

theorem Call.prog_safely {env : Env} {w : World} (hw : w.Sound) {calls : List Call} {call : Call}
    (hmem : call ∈ calls) : Safely (Positive calls) env call.prog (fun _ _ => True) w := by
  cases call with
  | order req =>
    have hid : req.order.id = none := by cases req <;> rfl
    have hsize : Positive calls → 0 < req.order.size := by
      intro hp
      have := hp req hmem
      cases req <;> exact this
    apply Safe.seq_any (handleOrder_safely hw hid hsize)
    exact fun _ _ _ => trivial
  | orderbooks =>
    have hI : Stable (Positive calls) fun _ => True := fun _ _ _ _ => trivial
    apply Safe.seq_any (fillOrderBookAndReturn_safely hI trivial _)
    exact fun _ _ _ => trivial

theorem Call.prog_parked (call : Call) : call.prog.Parked Op.awaits := by
  cases call with
  | order req => cases req <;> rfl
  | orderbooks => rfl

theorem World.start_sound (db : Tables) : (World.start db).Sound where
  rows := by simp [World.start]
  valid := by intro side; cases side <;> simp [World.start, World.side]
  sides := by intro side; cases side <;> simp [World.start, World.side, World.array]

/-- **Interleaving.** Whatever the schedule and whatever calls fail, concurrent
requests only change the world by steps. -/
theorem interleave_step (env : Env) (db : Tables) (calls : List Call) (schedule : List Nat) :
    Step (Positive calls) (.start db) (interleave env db calls schedule) := by
  have hall : Pool.AllSafe (World.perform env) Op.awaits (Step (Positive calls))
      ⟨.start db, calls.map Call.prog⟩ := by
    intro t ht
    obtain ⟨call, hmem, rfl⟩ := List.mem_map.mp ht
    exact ⟨call.prog_parked, Call.prog_safely (World.start_sound db) hmem⟩
  exact Pool.run_safe (Step.refl _) (fun _ _ _ => Step.trans) hall schedule

end Exchange
