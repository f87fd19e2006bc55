import Exchange.OrderBook.Run

/-!
# One order handled alone

`handleOrder_processed` says what `handleOrder` does, in every environment and from
every world: either the save of the order is refused and nothing happens, or the
order is saved and its plan against the resting orders of the opposite side is
made, as far as `Processed.reason` does not stop it.
-/

namespace Exchange

open Async Proc OrderBookService Store

/-- The direction in which `fillOrderBook` fetches a side: the best price comes last. -/
def Side.fetched : Side → Direction
  | .BUY => .ASC
  | .SELL => .DESC

/-- The orders of a side in the order in which a matcher walks them. -/
def Tables.resting (db : Tables) (side : Side) (symbol : String) : List OrderBook :=
  (db.findOrders side symbol 100 side.fetched).reverse

theorem Loaded.lt_arrays {symbol : String} {w : World} (h : Loaded symbol w) (side : Side) :
    w.side side < w.arrays.length := by
  cases side with
  | BUY => exact h.2.2.1
  | SELL => exact h.2.2.2

theorem Loaded.array_eq {symbol : String} {w : World} (h : Loaded symbol w) (side : Side) :
    w.array (w.side side) = w.db.findOrders side symbol 100 side.fetched := by
  cases side with
  | BUY => exact h.1
  | SELL => exact h.2.1

/-! ## What is saved and what it meets -/

namespace NewOrder

/-- The object that `handleOrder` hands to `saveOrderBook`. -/
def submitted (order : NewOrder) : NewOrder :=
  if order.type = .Market then { order with orgSize := order.size, price := none }
  else
    { order with
      orgSize := order.size
      volume := some (Double.mul (number order.price) order.size) }

def matcher (order : NewOrder) : Matcher :=
  if order.type = .Market then
    if order.side = .BUY then marketBuyMatcher else marketSellMatcher
  else if order.side = .BUY then buyMatcher else sellMatcher

/-- The number of calls before the matcher starts. -/
def prelude (order : NewOrder) : Nat := if order.type = .Market then 3 else 9

/-- The answer to a request whose match ended with `g`. -/
def respond (order : NewOrder) (g : MatchResult) (db : Tables) : Response :=
  if g.success then
    ⟨true,
      if order.type = .Market then "Order Completed Sussesssfully" else "Order placed Successfully",
      db.getUserOrdersNoSide 1 order.symbol 20⟩
  else
    ⟨false, if order.type = .Market then "Failed to place Ordery" else "Failed to place Order", []⟩

variable (order : NewOrder) (env : Env) (w : World)

/-- The order as its matcher holds it. -/
def taker : OrderBook := (w.db.saveOrderBook order.submitted (env.clock w.calls)).1

/-- The tables after the save. -/
def inserted : Tables := w.db.write (.order order.submitted (env.clock w.calls))

/-- The resting orders that the order meets. -/
def resting : List OrderBook := (order.inserted env w).resting order.side.opposite order.symbol

variable {order env w}

@[simp] theorem submitted_symbol : order.submitted.symbol = order.symbol := by
  unfold submitted
  split <;> rfl

@[simp] theorem submitted_side : order.submitted.side = order.side := by
  unfold submitted
  split <;> rfl

@[simp] theorem submitted_id : order.submitted.id = order.id := by
  unfold submitted
  split <;> rfl

@[simp] theorem submitted_uid : order.submitted.uid = order.uid := by
  unfold submitted
  split <;> rfl

@[simp] theorem submitted_size : order.submitted.size = order.size := by
  unfold submitted
  split <;> rfl

@[simp] theorem submitted_orgSize : order.submitted.orgSize = order.size := by
  unfold submitted
  split <;> rfl

theorem matcher_side : order.matcher.side = order.side := by
  unfold matcher
  cases order.side <;> split <;> rfl

theorem matcher_consistent : order.matcher.Consistent := by
  unfold matcher
  cases order.side <;> split
  · exact marketBuyMatcher_consistent
  · exact buyMatcher_consistent
  · exact marketSellMatcher_consistent
  · exact sellMatcher_consistent

@[simp] theorem inserted_trades : (order.inserted env w).tbl_trades = w.db.tbl_trades :=
  Tables.saveOrderBook_trades ..

theorem inserted_hasTrade {symbol : String} :
    (order.inserted env w).HasTrade symbol ↔ w.db.HasTrade symbol := by
  simp only [Tables.HasTrade, inserted_trades]

theorem saveOrderBook_fst (db : Tables) (o : NewOrder) (now : Nat) :
    ∃ id, (db.saveOrderBook o now).1 = o.saved id now ∨
      (db.saveOrderBook o now).1 = o.updated id now := by
  unfold Tables.saveOrderBook
  split
  · exact ⟨_, .inl rfl⟩
  · split
    · exact ⟨_, .inr rfl⟩
    · exact ⟨_, .inl rfl⟩

theorem taker_symbol : (order.taker env w).symbol = order.symbol := by
  obtain ⟨id, h | h⟩ := saveOrderBook_fst w.db order.submitted (env.clock w.calls) <;>
    rw [taker, h] <;> exact submitted_symbol

theorem taker_side : (order.taker env w).side = order.side := by
  obtain ⟨id, h | h⟩ := saveOrderBook_fst w.db order.submitted (env.clock w.calls) <;>
    rw [taker, h] <;> exact submitted_side

theorem taker_uid : (order.taker env w).uid = order.uid := by
  obtain ⟨id, h | h⟩ := saveOrderBook_fst w.db order.submitted (env.clock w.calls) <;>
    rw [taker, h] <;> exact submitted_uid

theorem taker_size : (order.taker env w).size = order.size := by
  obtain ⟨id, h | h⟩ := saveOrderBook_fst w.db order.submitted (env.clock w.calls) <;>
    rw [taker, h] <;> exact submitted_size

/-! An order without a key becomes a new row, which its own match does not meet. -/

/-- The price of an inserted order as its matcher holds it: the text that was read back. -/
def held (order : NewOrder) : Text.Value := (order.submitted.saved 0 0).held

/-- The row inserted for an order without a key. -/
def row (order : NewOrder) (env : Env) (w : World) : OrderBook :=
  order.submitted.toRow w.db.tbl_order_books.next (env.clock w.calls)

theorem taker_of_new (h : order.id = none) :
    order.taker env w = order.submitted.saved w.db.tbl_order_books.next (env.clock w.calls) := by
  unfold taker Tables.saveOrderBook
  simp only [submitted_id, h]

theorem taker_held_of_new (h : order.id = none) : (order.taker env w).held = order.held := by
  rw [taker_of_new h]
  rfl

theorem inserted_rows_of_new (h : order.id = none) :
    (order.inserted env w).tbl_order_books.rows =
      w.db.tbl_order_books.rows ++ [order.row env w] := by
  unfold inserted row Tables.write Tables.saveOrderBook
  simp only [submitted_id, h]
  rfl

theorem resting_of_new (h : order.id = none) :
    order.resting env w = w.db.resting order.side.opposite order.symbol := by
  have hside : order.side ≠ order.side.opposite := by
    cases order.side <;> simp [Side.opposite]
  unfold resting Tables.resting Tables.findOrders Tables.openOrders
  rw [inserted_rows_of_new h, List.filter_append]
  simp [row, toRow, hside]

end NewOrder

/-! ## The save -/

variable {env : Env} {order : NewOrder} {w : World}

/-- The outcome of `saveOrder` and `saveMarketOrder`: the save is refused, or it
is made and a read fails or raises because of `E`, or the books are loaded. -/
def Inserted (env : Env) (order : NewOrder) (n : Nat) (E : Prop) (w : World) :
    Except Err OrderBook → World → Prop
  | .ok taker, w' =>
      env.fails w.calls (.saveOrderBook order.submitted) = false ∧ taker = order.taker env w ∧
        Wrote (.order order.submitted (env.clock w.calls)) n w w' ∧ Loaded order.symbol w' ∧ ¬ E
  | .error e, w' =>
      env.fails w.calls (.saveOrderBook order.submitted) = true ∧ e = .rejected ∧ w' = w.tick ∨
      env.fails w.calls (.saveOrderBook order.submitted) = false ∧
        Wrote (.order order.submitted (env.clock w.calls)) n w w' ∧
        (env.Fault (w.calls + 1) (w.calls + n) ∨ E)

theorem inserted_of_reads (order : NewOrder) {k : OrderBook → Prog OrderBook} {n : Nat} {E : Prop}
    (hk : ∀ w', w'.db = order.inserted env w →
      wp (World.perform env) (k (order.taker env w)) (Reads env n w' E fun taker w'' =>
        taker = order.taker env w ∧ Loaded order.symbol w'' ∧ ¬ E) w') :
    wp (World.perform env) (OrderBookService.call (.saveOrderBook order.submitted) >>= k)
      (Inserted env order (1 + n) E w) w := by
  refine (wp_bind _ _ _).mpr ((wp_call _ _).mpr ?_)
  simp only [World.perform, Op.external, Op.awaits, if_true]
  cases hf : env.fails w.calls (.saveOrderBook order.submitted) with
  | true => exact .inl ⟨hf, rfl, rfl⟩
  | false =>
    have hw := Wrote.commit w (.order order.submitted (env.clock w.calls))
    refine wp_mono (hk _ hw.db) ?_
    rintro (e | taker) w' ⟨hq, h⟩
    · refine .inr ⟨hf, hw.quiet hq, ?_⟩
      exact h.imp_left fun h => h.mono (le_refl _) (by simp [World.tick, add_assoc])
    · exact ⟨hf, h.1, hw.quiet hq, h.2⟩

theorem saveOrder_inserted (ht : order.type ≠ .Market) :
    wp (World.perform env) (saveOrder { order with orgSize := order.size })
      (Inserted env order 9 (¬ w.db.HasTrade order.symbol) w) w := by
  have hprogram : saveOrder { order with orgSize := order.size } =
      OrderBookService.call (.saveOrderBook order.submitted) >>= fun taker =>
        fillOrderBook order.symbol >>= fun _ => emitSocketData order.symbol >>= fun _ =>
          Pure.pure taker := by
    rw [NewOrder.submitted, if_neg ht]
    rfl
  rw [hprogram]
  refine inserted_of_reads order (n := 8) fun w' hdb => ?_
  refine Reads.bind (m := 2) (n := 6) fillOrderBook_reads ?_
  intro _ w₁ hw₁ _
  have hT : w₁.db.HasTrade order.symbol ↔ w.db.HasTrade order.symbol := by
    rw [hw₁.db, hdb, NewOrder.inserted_hasTrade]
  refine Reads.bind (m := 6) (n := 0) (Q := fun _ w' => Loaded order.symbol w' ∧
    w.db.HasTrade order.symbol) ?_ ?_
  · rw [← hT]
    exact emitSocketData_reads
  · intro _ w₂ hw₂ h
    exact ⟨Quiet.refl _, rfl, h.1, not_not.mpr h.2⟩

theorem saveMarketOrder_inserted (ht : order.type = .Market) :
    wp (World.perform env) (saveMarketOrder { order with orgSize := order.size })
      (Inserted env order 3 False w) w := by
  have hprogram : saveMarketOrder { order with orgSize := order.size } =
      OrderBookService.call (.saveOrderBook order.submitted) >>= fun taker =>
        fillOrderBook order.symbol >>= fun _ => Pure.pure taker := by
    rw [NewOrder.submitted, if_pos ht]
    rfl
  rw [hprogram]
  refine inserted_of_reads order (n := 2) fun w' hdb => ?_
  refine Reads.bind (m := 2) (n := 0) fillOrderBook_reads ?_
  intro _ w₁ hw₁ h
  exact ⟨Quiet.refl _, rfl, h, fun h => h⟩

/-! ## Handling -/

/-- The order was saved and `done` was written, the first of the writes `ws` of its plan. -/
structure Processed (env : Env) (order : NewOrder) (w : World) (r : Except Err Response)
    (w' : World) (ws done : List Write) : Prop where
  accepted : env.fails w.calls (.saveOrderBook order.submitted) = false
  plan : Plan order.matcher (order.taker env w) (order.resting env w) ws
  made : done <+: ws
  allowed : ∀ wr ∈ done, ∃ n, env.fails n wr.op = false
  db : w'.db = (order.inserted env w).writeAll done
  journal : w'.journal = w.journal ++
    ⟨w.db, .order order.submitted (env.clock w.calls)⟩ :: (order.inserted env w).entries done
  stuck : ¬ w.db.HasTrade order.symbol → done.length ≤ 1
  raised : order.type ≠ .Market → ¬ w.db.HasTrade order.symbol → done = [] ∧ ∃ e, r = .error e
  reason : done ≠ ws → Blame env (w.calls + 1) (w.calls + order.prelude + 7 * done.length + 1)
    ws[done.length]? (¬ w.db.HasTrade order.symbol ∧ (order.type ≠ .Market ∨ done ≠ []))
  answered : ∀ resp, r = .ok resp →
    done = ws ∧ resp = order.respond (order.matcher.answer ws) w'.db ∨
      Blame env (w.calls + 1) (w.calls + order.prelude + 7 * done.length + 1)
        ws[done.length]? (¬ w.db.HasTrade order.symbol ∧ done ≠ []) ∧
      resp = order.respond ⟨false, "Failed to place order"⟩ w'.db
  failed : ∀ e, r = .error e → (∃ a b, env.Fault a b) ∨
    order.type ≠ .Market ∧ ¬ w.db.HasTrade order.symbol

/-- The save of the order is refused, or the order is processed. -/
def Processing (env : Env) (order : NewOrder) (w : World) (r : Except Err Response) (w' : World) :
    Prop :=
  env.fails w.calls (.saveOrderBook order.submitted) = true ∧ r = .error .rejected ∧ w' = w.tick ∨
    ∃ ws done, Processed env order w r w' ws done

/-- The last step: the answer, for which a successful match reads the user's orders. -/
theorem respond_reads {message message' : String}
    (hrespond : ∀ g db, order.respond g db =
      if g.success then ⟨true, message, db.getUserOrdersNoSide 1 order.symbol 20⟩
      else ⟨false, message', []⟩)
    {taker : OrderBook} (ht : taker.symbol = order.symbol) (g : MatchResult) (w : World) :
    wp (World.perform env)
      (if g.success then do
        let order_list : List OrderBook ←
          OrderBookService.call (.getUserOrdersNoSide 1 taker.symbol 20)
        Pure.pure ⟨true, message, order_list⟩
      else Pure.pure ⟨false, message', []⟩ : Prog Response)
      (Reads env 1 w False fun resp w' => resp = order.respond g w'.db) w := by
  rw [← ht] at hrespond
  simp only [hrespond]
  split
  · have h : wp (World.perform env)
        (OrderBookService.call (.getUserOrdersNoSide 1 taker.symbol 20))
        (Reads env 1 w False fun l w' => l = w'.db.getUserOrdersNoSide 1 taker.symbol 20) w :=
      Reads.query _ rfl rfl _ ⟨_, rfl, rfl⟩
    refine (wp_bind _ _ _).mpr (wp_mono h ?_)
    rintro (e | l) w' ⟨hq, h⟩
    · exact ⟨hq, h⟩
    · exact ⟨hq, congrArg (Response.mk true message) h⟩
  · exact ⟨⟨rfl, rfl, List.prefix_refl _, le_refl _, Nat.le_succ _⟩, rfl⟩

/-- A reason for the matcher to stop is one for the whole run. -/
theorem Stops.blame {symbol : String} {w₁ : World} {ws done : List Write}
    {a b : Nat} (h : Stops env symbol w₁ ws done)
    (hT : w₁.db.HasTrade symbol ↔ w.db.HasTrade symbol) (ha : a ≤ w₁.calls)
    (hb : w₁.calls + 7 * done.length + 1 ≤ b) :
    Blame env a b ws[done.length]? (¬ w.db.HasTrade symbol ∧ done ≠ []) := by
  rcases h with h | ⟨n, wr, h₁, h₂, h₃, h₄⟩ | h
  · exact .inl (h.mono ha hb)
  · exact .inr (.inl ⟨n, wr, ha.trans h₁, h₂.trans_le hb, h₃, h₄⟩)
  · exact .inr (.inr ⟨fun h' => h.1 (hT.mpr h'), h.2⟩)

/-- The order is saved and matched, and the final read answers or fails. -/
theorem processed_of_follows {w₁ w₂ w₃ : World} {ws done : List Write} {g : MatchResult}
    {r : Except Err Response}
    (hacc : env.fails w.calls (.saveOrderBook order.submitted) = false)
    (hw : Wrote (.order order.submitted (env.clock w.calls)) order.prelude w w₁)
    (hmarket : ¬ (order.type ≠ .Market ∧ ¬ w.db.HasTrade order.symbol))
    (h : Follows env order.symbol w₁
      (Plan order.matcher (order.taker env w) (order.resting env w)) ws done w₂)
    (hg : done = ws ∧ g = order.matcher.answer ws ∨
      Stops env order.symbol w₁ ws done ∧ g = ⟨false, "Failed to place order"⟩)
    (hr : Reads env 1 w₂ False (fun resp w' => resp = order.respond g w'.db) r w₃) :
    Processed env order w r w₃ ws done := by
  have hquiet : Quiet 1 w₂ w₃ := by
    cases r with
    | ok resp => exact hr.1
    | error e => exact hr.1
  have h := h.quiet hquiet
  have hT : w₁.db.HasTrade order.symbol ↔ w.db.HasTrade order.symbol := by
    rw [hw.db]
    exact NewOrder.inserted_hasTrade
  have hcalls := hw.calls
  have hblame : Stops env order.symbol w₁ ws done →
      Blame env (w.calls + 1) (w.calls + order.prelude + 7 * done.length + 1) ws[done.length]?
        (¬ w.db.HasTrade order.symbol ∧ done ≠ []) :=
    fun hs => hs.blame hT (by omega) (by omega)
  refine ⟨hacc, h.plan, h.made, h.allowed, ?_, ?_, fun hn => h.stuck fun h' => hn (hT.mp h'),
    fun hm hn => absurd ⟨hm, hn⟩ hmarket, ?_, ?_, ?_⟩
  · rw [h.db, hw.db]
    rfl
  · rw [h.journal, hw.journal, hw.db, List.append_assoc]
    rfl
  · intro hne
    have hb := hblame (hg.resolve_left fun hg => hne hg.1).1
    exact hb.imp_right (Or.imp_right fun hb => ⟨hb.1, .inr hb.2⟩)
  · rintro resp rfl
    rcases hg with ⟨rfl, rfl⟩ | ⟨hs, rfl⟩
    · exact .inl ⟨rfl, hr.2⟩
    · exact .inr ⟨hblame hs, hr.2⟩
  · rintro e rfl
    exact .inl ⟨_, _, hr.2.resolve_right id⟩

theorem processed_of_inserted {E : Prop} {p : Prog OrderBook} {f : OrderBook → Prog MatchResult}
    {respond : OrderBook → MatchResult → Prog Response}
    (hp : wp (World.perform env) p (Inserted env order order.prelude E w) w)
    (hf : f (order.taker env w) = order.matcher.run (order.taker env w))
    (hrespond : ∀ g w', wp (World.perform env) (respond (order.taker env w) g)
      (Reads env 1 w' False fun resp w'' => resp = order.respond g w''.db) w')
    (hE : E ↔ order.type ≠ .Market ∧ ¬ w.db.HasTrade order.symbol) :
    wp (World.perform env) (p >>= fun taker => f taker >>= respond taker)
      (Processing env order w) w := by
  refine (wp_bind _ _ _).mpr (wp_mono hp ?_)
  rintro (e | taker) w₁ h
  · rcases h with ⟨hf, rfl, rfl⟩ | ⟨hacc, hw, hwhy⟩
    · exact .inl ⟨hf, rfl, rfl⟩
    · obtain ⟨ws, hws⟩ := exists_plan order.matcher (order.taker env w) (order.resting env w)
      refine .inr ⟨ws, [], hacc, hws, List.nil_prefix, by simp, hw.db, hw.journal,
        fun _ => Nat.zero_le _, fun _ _ => ⟨rfl, e, rfl⟩, fun _ => ?_, ?_, ?_⟩
      · rcases hwhy with h | h
        · exact .inl (h.mono (le_refl _) (by omega))
        · exact .inr (.inr ⟨(hE.mp h).2, .inl (hE.mp h).1⟩)
      · rintro resp ⟨⟩
      · intro _ _
        exact hwhy.imp (fun h => ⟨_, _, h⟩) hE.mp
  · obtain ⟨hacc, rfl, hw, hl, hnE⟩ := h
    have hmarket := mt hE.mpr hnE
    have hresting : (w₁.array (w₁.side order.matcher.side.opposite)).reverse =
        order.resting env w := by
      rw [NewOrder.resting, NewOrder.inserted, ← hw.db, NewOrder.matcher_side, hl.array_eq]
      rfl
    have hrun := run_matches env NewOrder.matcher_consistent (order.taker env w) w₁
      (hl.lt_arrays order.matcher.side.opposite)
    rw [hresting, NewOrder.taker_symbol, ← hf] at hrun
    refine (wp_bind _ _ _).mpr (wp_mono hrun ?_)
    rintro (e | g) w₂ h
    · exact h.elim
    refine wp_mono (hrespond g w₂) fun r w₃ hr => ?_
    rcases h with ⟨ws, h, hg⟩ | ⟨ws, done, h, hs, hg⟩
    · exact .inr ⟨ws, ws, processed_of_follows hacc hw hmarket h (.inl ⟨rfl, hg⟩) hr⟩
    · exact .inr ⟨ws, done, processed_of_follows hacc hw hmarket h (.inr ⟨hs, hg⟩) hr⟩

theorem matchLimitOrder_eq (order : OrderBook) :
    matchLimitOrder order = (if order.side = .BUY then buyMatcher else sellMatcher).run order := by
  unfold matchLimitOrder
  split <;> rfl

theorem matchMarketOrder_eq (order : OrderBook) :
    matchMarketOrder order =
      (if order.side = .BUY then marketBuyMatcher else marketSellMatcher).run order := by
  unfold matchMarketOrder
  split <;> rfl

/-- **What `handleOrder` does alone**, in every environment and from every world. -/
theorem handleOrder_processed (env : Env) (order : NewOrder) (w : World) :
    wp (World.perform env) (handleOrder order) (Processing env order w) w := by
  change wp _ (if order.type = .Market then _ else _) _ _
  by_cases ht : order.type = .Market
  · rw [if_pos ht]
    have hprelude : order.prelude = 3 := if_pos ht
    have hmatcher : order.matcher =
        if order.side = .BUY then marketBuyMatcher else marketSellMatcher := if_pos ht
    apply processed_of_inserted (E := False)
    · rw [hprelude]
      exact saveMarketOrder_inserted ht
    · rw [matchMarketOrder_eq, NewOrder.taker_side, hmatcher]
    · intro g w'
      apply respond_reads _ NewOrder.taker_symbol
      intro g db
      simp only [NewOrder.respond, ht, if_true]
    · simp [ht]
  · rw [if_neg ht]
    have hprelude : order.prelude = 9 := if_neg ht
    have hmatcher : order.matcher =
        if order.side = .BUY then buyMatcher else sellMatcher := if_neg ht
    apply processed_of_inserted (E := ¬ w.db.HasTrade order.symbol)
    · rw [hprelude]
      exact saveOrder_inserted ht
    · rw [matchLimitOrder_eq, NewOrder.taker_side, hmatcher]
    · intro g w'
      apply respond_reads _ NewOrder.taker_symbol
      intro g db
      simp only [NewOrder.respond, ht, if_false]
    · simp [ht]

section Processed

variable {r : Except Err Response} {w' : World} {ws done : List Write}

theorem Processed.matching (h : Processed env order w r w' ws done) : ∀ wr ∈ done, wr.Matching :=
  fun wr hwr => h.plan.matching wr (h.made.subset hwr)

theorem Processed.rows (h : Processed env order w r w' ws done) :
    w'.db.tbl_order_books.rows =
      (order.inserted env w).tbl_order_books.rows.map (rowAfter done) := by
  rw [h.db, Tables.writeAll_rows h.matching]

theorem Processed.done_admissible (h : Processed env order w r w' ws done)
    (henv : env.RefusesInadmissible) : ∀ wr ∈ done, wr.op.admissible = true := by
  intro wr hwr
  obtain ⟨n, hn⟩ := h.allowed wr hwr
  by_contra hwr'
  rw [henv n _ (Bool.not_eq_true _ ▸ hwr')] at hn
  cases hn

end Processed

/-- Handle order objects one after the other. -/
def handleAll (env : Env) : List NewOrder → World → World
  | [], w => w
  | order :: orders, w => handleAll env orders ((handleOrder order).run (World.perform env) w).2

/-- Every order of the run meets `C` when its turn comes. -/
def OrdersMeet (env : Env) (C : NewOrder → World → Prop) : List NewOrder → World → Prop
  | [], _ => True
  | order :: orders, w =>
      C order w ∧ OrdersMeet env C orders ((handleOrder order).run (World.perform env) w).2

end Exchange
