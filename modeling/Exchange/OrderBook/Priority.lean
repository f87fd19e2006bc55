import Exchange.OrderBook.Walk
import Mathlib.Data.List.TakeWhile

/-!
# Price and time priority

A matcher walks the hundred orders that `findOrders` returned, best price first
and, at one price, latest first. `Handled.at_trade` describes the tables at the
moment of a trade; from it:

* `noTradeThrough_iff`: no open order has a better price at any trade iff none
  of the orders behind the limit is better than an order the match reaches;
* `timePriority_iff`: no earlier order of the snapshot at the same price is
  passed over iff none with a positive size shares its price with an order
  that is executed.
-/

namespace Exchange

open Async OrderBookService Store

/-- The price `p` is strictly better than `q` for an incoming order of this side. -/
def Side.better : Side → Option ℚ → Option ℚ → Bool
  | .BUY, some p, some q => p < q
  | .SELL, some p, some q => q < p
  | _, _, _ => false

namespace Request

/-- The accepted writes of the request, with the tables each found. -/
def entries (env : Env) (req : Request) (w : World) : List Entry :=
  (req.serve env w).2.journal.drop w.journal.length

end Request

/-! ## The order of the walk -/

section Walk

variable {side : Side} {a b : OrderBook}

/-- What comes later in the walk is not better. -/
theorem not_better_of_byPrice (h : byPrice side.opposite.fetched b a = true) :
    side.better b.price a.price = false := by
  cases side <;> simp only [byPrice, Side.opposite, Side.fetched, thenBy, Bool.and_eq_true] at h <;>
    cases ha : a.price <;> cases hb : b.price <;>
    simp_all [Side.better, priceLe]

/-- At one price, what comes later in the walk was created no later. -/
theorem created_of_byPrice {order_by : Direction} (h : byPrice order_by b a = true)
    (hp : b.price = a.price) : b.created_at ≤ a.created_at := by
  cases order_by <;> simp only [byPrice, thenBy, hp, Bool.and_eq_true, Bool.or_eq_true,
    Bool.not_eq_true', decide_eq_true_eq] at h
  · rcases h with ⟨h, h' | h'⟩
    · rw [h] at h'
      cases h'
    · exact h'
  · rcases h with ⟨h, h' | h'⟩
    · rw [h] at h'
      cases h'
    · exact h'

end Walk

/-! ## The tables at a trade -/

variable {env : Env} {req : Request} {w w' : World} {r : Except Err Response}
  {ws done : List Write}

/-- The tables `db` at the trade of the request with `maker`: `F` was taken before. -/
structure AtTrade (env : Env) (req : Request) (w : World) (db : Tables) (maker : OrderBook)
    (F : List (OrderBook × ℚ)) (L : List OrderBook) : Prop where
  resting : req.resting w = F.map Prod.fst ++ maker :: L
  closed : ∀ f ∈ F, ∀ r ∈ db.tbl_order_books.rows, r.id = f.1.id → r.is_filled = true
  kept : ∀ r ∈ w.db.tbl_order_books.rows, r.id ≠ maker.id → (∀ f ∈ F, r.id ≠ f.1.id) →
    r ∈ db.tbl_order_books.rows
  worked : ∀ r ∈ db.tbl_order_books.rows,
    (∃ r₀ ∈ w.db.tbl_order_books.rows, Worked r₀ r) ∨ Worked (req.row env w) r

theorem Handled.at_trade (h : Handled env req w r w' ws done) {pre post : List Write}
    {t : NewTrade} {x : Execution} (he : ws = pre ++ .trade t x :: post) :
    ∃ L, AtTrade env req w ((req.inserted env w).writeAll pre) x.maker
      (pre.filterMap Write.taken) L := by
  have hmatching : ∀ wr ∈ pre, wr.Matching := by
    intro wr hwr
    exact h.plan.matching wr (by simp [he, hwr])
  have hreached : req.reached w = pre.filterMap Write.taken ++ (x.maker, t.size) ::
      post.filterMap Write.taken := by
    rw [← h.taken_eq, he, List.filterMap_append, List.filterMap_cons]
    rfl
  obtain ⟨L, hL⟩ : (req.reached w).map Prod.fst <+: req.resting w := Greedy.fills_prefix _ _
  rw [hreached, List.map_append, List.append_assoc, List.map_cons] at hL
  obtain ⟨hclosed, htouched⟩ := h.plan.before_trade he
  have hrows : ((req.inserted env w).writeAll pre).tbl_order_books.rows =
      (w.db.tbl_order_books.rows ++ [req.row env w]).map (rowAfter pre) := by
    rw [Tables.writeAll_rows hmatching, Request.inserted_rows]
  refine ⟨_, hL.symm, ?_, ?_, ?_⟩
  · intro f hf r hr hid
    rw [hrows] at hr
    obtain ⟨r₀, -, rfl⟩ := List.mem_map.mp hr
    have hid₀ := (rowAfter_worked hmatching r₀).id
    exact rowAfter_closed hmatching (by rw [← hid₀, hid]; exact hclosed f hf)
  · intro r hr hmaker hF
    have hun : ¬ Touches pre r.id := by
      intro ht
      rcases htouched _ ht with hid | hid | ⟨f, hf, hid⟩
      · have := w.db.tbl_order_books.fresh r hr
        rw [hid, Request.taker_id] at this
        omega
      · exact hmaker hid
      · exact hF f hf hid
    rw [hrows, List.mem_map]
    exact ⟨r, List.mem_append_left _ hr, rowAfter_untouched hun⟩
  · intro r hr
    rw [hrows] at hr
    obtain ⟨r₀, hr₀, rfl⟩ := List.mem_map.mp hr
    have hworked := rowAfter_worked hmatching r₀
    rcases List.mem_append.mp hr₀ with hr₀ | hr₀
    · exact .inl ⟨r₀, hr₀, hworked⟩
    · rw [List.mem_singleton.mp hr₀] at hworked ⊢
      exact .inr hworked

theorem Handled.reached_eq (h : Handled env req w r w' ws done) {pre post : List Write}
    {t : NewTrade} {x : Execution} (he : ws = pre ++ .trade t x :: post) :
    req.reached w = pre.filterMap Write.taken ++ (x.maker, t.size) ::
      post.filterMap Write.taken := by
  rw [← h.taken_eq, he, List.filterMap_append, List.filterMap_cons]
  rfl

/-- A recorded trade is a write that was made, and its symbol had a trade before. -/
theorem traded_handled {e : Entry} {x : Execution} (he : e ∈ req.entries env w)
    (hx : x ∈ e.write.traded) : w.db.HasTrade req.symbol ∧
      ∃ ws pre t post, Handled env req w (req.serve env w).1 (req.serve env w).2 ws
        (pre ++ .trade t x :: post) ∧ e.before = (req.inserted env w).writeAll pre := by
  obtain ⟨t, ht⟩ := Write.mem_traded.mp hx
  rcases serve_served env req w with ⟨-, -, hw⟩ | ⟨ws, done, h⟩
  · rw [Request.entries, hw] at he
    simp [World.tick] at he
  · rw [Request.entries, h.journal, List.drop_left, List.mem_cons, Tables.mem_entries, ht] at he
    rcases he with rfl | ⟨pre, post, rfl, hbefore⟩
    · cases ht
    · refine ⟨?_, ws, pre, t, post, h, hbefore⟩
      by_contra hn
      obtain ⟨id, u, y, hu⟩ := h.updates hn (.trade t x) (by simp)
      cases hu

/-- A trade that is made is recorded. -/
theorem Handled.traded (h : Handled env req w (req.serve env w).1 (req.serve env w).2 ws done)
    {pre post : List Write} {t : NewTrade} {x : Execution} (hd : done = pre ++ .trade t x :: post) :
    ⟨(req.inserted env w).writeAll pre, .trade t x⟩ ∈ req.entries env w := by
  rw [Request.entries, h.journal, List.drop_left]
  exact List.mem_cons_of_mem _ (Tables.mem_entries.mpr ⟨pre, post, hd, rfl⟩)

/-- Everything that is reached is traded by the plan. -/
theorem Handled.exists_trade (h : Handled env req w r w' ws done) {F F' : List (OrderBook × ℚ)}
    {f : OrderBook × ℚ} (hf : req.reached w = F ++ f :: F') :
    ∃ pre t x post, ws = pre ++ .trade t x :: post ∧ x.maker = f.1 ∧
      pre.filterMap Write.taken = F := by
  rw [← h.taken_eq, List.filterMap_eq_append_iff] at hf
  obtain ⟨ws₁, ws₂, rfl, rfl, hf⟩ := hf
  rw [List.filterMap_eq_cons_iff] at hf
  obtain ⟨ws₃, wr, ws₄, rfl, hnone, htaken, -⟩ := hf
  cases wr with
  | order o now => cases htaken
  | update id u x => cases htaken
  | trade t x =>
    refine ⟨ws₁ ++ ws₃, t, x, ws₄, by simp, ?_, ?_⟩
    · exact congrArg Prod.fst (Option.some.inj htaken)
    · rw [List.filterMap_append, List.filterMap_eq_nil_iff.mpr hnone, List.append_nil]

/-! ## Price priority -/

/-- No trade of the request is made while an open order has a better price. -/
def NoTradeThrough (env : Env) (req : Request) (w : World) : Prop :=
  ∀ e ∈ req.entries env w, ∀ x ∈ e.write.traded,
    ∀ r ∈ e.before.openOrders req.side.opposite req.symbol,
      req.side.better r.price x.maker.price = false

/-- No order behind the limit is better than an order the match reaches. -/
def BestFetched (req : Request) (w : World) : Prop :=
  w.db.HasTrade req.symbol → ∀ f ∈ req.reached w,
    ∀ b ∈ w.db.unfetched req.side.opposite req.symbol, req.side.better b.price f.1.price = false

theorem Side.better_irrefl (side : Side) (p : Option ℚ) : side.better p p = false := by
  cases side <;> cases p <;> simp [Side.better]

theorem noTradeThrough_of_bestFetched (h : BestFetched req w) : NoTradeThrough env req w := by
  intro e he x hx r hr
  obtain ⟨hT, ws, pre, t, post, hh, hbefore⟩ := traded_handled he hx
  obtain ⟨tail, hws⟩ := hh.made
  rw [List.append_assoc, List.cons_append] at hws
  obtain ⟨L, hat⟩ := hh.at_trade hws.symm
  have hreached := hh.reached_eq hws.symm
  rw [← hbefore] at hat
  obtain ⟨hr, hside, hsymbol, hopen⟩ := Tables.mem_openOrders.mp hr
  rcases hat.worked r hr with ⟨r₀, hr₀, hworked⟩ | hworked
  · have hopen₀ : r₀ ∈ w.db.openOrders req.side.opposite req.symbol := by
      rw [Tables.mem_openOrders]
      exact ⟨hr₀, hworked.side ▸ hside, hworked.symbol ▸ hsymbol, hworked.open hopen⟩
    rw [hworked.price]
    rcases Tables.mem_openOrders_iff.mp hopen₀ with hfetched | hlost
    · have hL := hat.resting
      rw [Request.resting] at hL
      have hsorted := w.db.resting_pairwise req.side.opposite req.symbol
      rw [hL] at hfetched hsorted
      rcases List.mem_append.mp hfetched with hF | hF
      · obtain ⟨f, hf, rfl⟩ := List.mem_map.mp hF
        rw [hat.closed f hf r hr hworked.id] at hopen
        cases hopen
      · rcases List.mem_cons.mp hF with rfl | hL'
        · exact Side.better_irrefl _ _
        · have hlater := (List.pairwise_append.mp hsorted).2.1
          exact not_better_of_byPrice ((List.pairwise_cons.mp hlater).1 r₀ hL')
    · exact h hT (x.maker, t.size) (by simp [hreached]) r₀ hlost
  · rw [hworked.side, Request.row_side] at hside
    cases hs : req.side <;> simp [hs, Side.opposite] at hside

theorem bestFetched_of_noTradeThrough (h : NoTradeThrough .steady req w) : BestFetched req w := by
  intro hT f hf b hb
  rcases serve_served .steady req w with ⟨hfail, -⟩ | ⟨ws, done, hh⟩
  · cases hfail
  · obtain ⟨F, F', hreached⟩ := List.append_of_mem hf
    obtain ⟨pre, t, x, post, hws, hmaker, -⟩ := hh.exists_trade hreached
    obtain ⟨L, hat⟩ := hh.at_trade hws
    obtain ⟨post', hdone⟩ := hh.made_of_allowed hT (fun _ _ _ => rfl)
      (pre ++ [.trade t x]) post (by simp [hws]) (fun _ _ _ => rfl)
    have hentry := hh.traded (show done = pre ++ .trade t x :: post' by simp [← hdone])
    have hfetched : ∀ r ∈ req.resting w, b.id ≠ r.id :=
      fun r hr => Tables.resting_ne_unfetched hr hb
    rw [hat.resting] at hfetched
    have hopen := Tables.mem_openOrders.mp (Tables.mem_openOrders_iff.mpr (.inr hb))
    have hkept := hat.kept b hopen.1 (hfetched _ (by simp))
      (fun g hg => hfetched g.1 (List.mem_append_left _ (List.mem_map_of_mem hg)))
    rw [← hmaker]
    exact h _ hentry x rfl b (Tables.mem_openOrders.mpr ⟨hkept, hopen.2⟩)

/-- **Price priority** holds, whatever fails, exactly when no order behind the
limit is better than an order the match reaches. -/
theorem noTradeThrough_iff (req : Request) (w : World) :
    (∀ env, NoTradeThrough env req w) ↔ BestFetched req w :=
  ⟨fun h => bestFetched_of_noTradeThrough (h .steady), fun h _ => noTradeThrough_of_bestFetched h⟩

/-- On the deep book a BUY trades at 2 while the SELL at 1 is open. -/
theorem best_order_not_fetched :
    let w := World.start .deep
    let req := Request.limit ⟨2, .BUY, "BTC/USDT", 50, 1⟩
    (∀ r ∈ w.db.tbl_order_books.rows, r.price.isSome = true) ∧
      ¬ NoTradeThrough .steady req w := by
  unfold NoTradeThrough
  decide +kernel

/-! ## Time priority -/

/-- `Trade.price` is `NOT NULL`: trades without a price are refused. -/
def Env.RefusesUnpriced (env : Env) : Prop :=
  ∀ n t x, t.price = none → env.fails n (.saveTrade t x) = true

/-- No trade of the request is made while an order of the snapshot with the same
price and an earlier creation is open with a positive size. -/
def TimePriority (env : Env) (req : Request) (w : World) : Prop :=
  ∀ e ∈ req.entries env w, ∀ x ∈ e.write.traded, ∀ r ∈ req.resting w,
    r.price = x.maker.price → r.created_at < x.maker.created_at →
      ∀ row ∈ e.before.tbl_order_books.rows, row.id = r.id → row.is_filled = false →
        row.size ≤ 0

/-- The orders that are executed: those reached before one without a price. -/
def Request.executed (req : Request) (w : World) : List (OrderBook × ℚ) :=
  (req.reached w).takeWhile fun f => f.1.price.isSome

/-- An order that is executed is the earliest of the snapshot at its price. -/
def EarliestExecuted (req : Request) (w : World) : Prop :=
  w.db.HasTrade req.symbol → ∀ f ∈ req.executed w, ∀ r ∈ req.resting w,
    r.price = f.1.price → r.created_at < f.1.created_at → r.size ≤ 0

/-- The orders walked have different keys: an order that comes later is another one. -/
theorem AtTrade.later_ne {db : Tables} {maker : OrderBook} {F : List (OrderBook × ℚ)}
    {L : List OrderBook} (h : AtTrade env req w db maker F L) {r : OrderBook} (hr : r ∈ L) :
    r.id ≠ maker.id ∧ ∀ f ∈ F, r.id ≠ f.1.id := by
  have hnd := w.db.resting_nodup req.side.opposite req.symbol
  change ((req.resting w).map OrderBook.id).Nodup at hnd
  rw [h.resting, List.map_append, List.map_cons, List.nodup_append, List.nodup_cons] at hnd
  obtain ⟨-, ⟨hmaker, -⟩, hF⟩ := hnd
  have hrL : r.id ∈ L.map OrderBook.id := List.mem_map_of_mem hr
  refine ⟨fun he => hmaker (he ▸ hrL), fun f hf he => ?_⟩
  exact hF f.1.id (List.mem_map_of_mem (List.mem_map_of_mem hf)) r.id
    (List.mem_cons_of_mem _ hrL) he.symm

theorem Handled.trade_price (h : Handled env req w r w' ws done) {t : NewTrade} {x : Execution}
    (hm : Write.trade t x ∈ ws) : t.price = x.maker.price := by
  obtain ⟨-, b, now, ht⟩ := h.plan.trade_eq hm
  rw [ht]
  rfl

theorem mem_taken {pre : List Write} {f : OrderBook × ℚ} (hf : f ∈ pre.filterMap Write.taken) :
    ∃ t x, Write.trade t x ∈ pre ∧ x.maker = f.1 := by
  obtain ⟨wr, hwr, htaken⟩ := List.mem_filterMap.mp hf
  cases wr with
  | order o now => cases htaken
  | update id u x => cases htaken
  | trade t x => exact ⟨t, x, hwr, congrArg Prod.fst (Option.some.inj htaken)⟩

/-- Where unpriced trades are refused, a trade that is made is with an order that is executed. -/
theorem Handled.executed (h : Handled env req w r w' ws done) (henv : env.RefusesUnpriced)
    {pre post : List Write} {t : NewTrade} {x : Execution} (hd : done = pre ++ .trade t x :: post) :
    (x.maker, t.size) ∈ req.executed w := by
  have hpriced : ∀ t' y, Write.trade t' y ∈ done → y.maker.price.isSome = true := by
    intro t' y hm
    obtain ⟨n, hn⟩ := h.allowed _ hm
    rw [← h.trade_price (h.made.subset hm)]
    cases hp : t'.price with
    | some p => rfl
    | none => exact absurd (henv n t' y hp) (by simpa [Write.op] using hn)
  obtain ⟨tail, hws⟩ := h.made
  rw [hd, List.append_assoc, List.cons_append] at hws
  rw [Request.executed, h.reached_eq hws.symm, List.takeWhile_append_of_pos]
  · have hmaker := hpriced t x (by simp [hd])
    simp [hmaker]
  · intro f hf
    obtain ⟨t', y, hm, hy⟩ := mem_taken hf
    rw [← hy]
    exact hpriced t' y (by simp [hd, hm])

theorem timePriority_of_earliestExecuted (henv : env.RefusesUnpriced)
    (h : EarliestExecuted req w) : TimePriority env req w := by
  intro e he x hx r hr hprice hcreated row hrow hid hopen
  obtain ⟨hT, ws, pre, t, post, hh, hbefore⟩ := traded_handled he hx
  obtain ⟨tail, hws⟩ := hh.made
  rw [List.append_assoc, List.cons_append] at hws
  obtain ⟨L, hat⟩ := hh.at_trade hws.symm
  rw [← hbefore] at hat
  have hL := hr
  rw [hat.resting] at hL
  rcases List.mem_append.mp hL with hF | hL
  · obtain ⟨f, hf, rfl⟩ := List.mem_map.mp hF
    rw [hat.closed f hf row hrow hid] at hopen
    cases hopen
  · rcases List.mem_cons.mp hL with rfl | hL
    · omega
    · obtain ⟨hmaker, hF⟩ := hat.later_ne hL
      have hkept := hat.kept r (Request.resting_rows hr).1 hmaker hF
      rw [e.before.tbl_order_books.eq_of_key hrow hkept hid]
      exact h hT _ (hh.executed henv rfl) r hr hprice hcreated

/-- The database that refuses nothing but trades without a price. -/
def Env.priced : Env where
  clock := fun n => n
  fails := fun _ o => match o with
    | .saveTrade t _ => t.price.isNone
    | _ => false

theorem Env.priced_refusesUnpriced : Env.priced.RefusesUnpriced := by
  intro n t x h
  simp [Env.priced, h]

/-- A write is not refused when the maker of its trade has a price. -/
theorem Handled.priced_allows (h : Handled env req w r w' ws done) {wr : Write} (hwr : wr ∈ ws)
    (hpriced : ∀ t x, wr = .trade t x → x.maker.price.isSome = true) (n : Nat) :
    Env.priced.fails n wr.op = false := by
  cases wr with
  | order o now => rfl
  | update id u y => rfl
  | trade t y =>
    have hprice : t.price.isSome = true := h.trade_price hwr ▸ hpriced t y rfl
    cases hp : t.price with
    | none => simp [hp] at hprice
    | some p => simp [Env.priced, Write.op, hp]

theorem earliestExecuted_of_timePriority (h : TimePriority .priced req w) :
    EarliestExecuted req w := by
  intro hT f hf r hr hprice hcreated
  rcases serve_served .priced req w with ⟨hfail, -⟩ | ⟨ws, done, hh⟩
  · cases hfail
  · obtain ⟨F, F', hexecuted⟩ := List.append_of_mem hf
    have hpriced : ∀ g ∈ F ++ [f], g.1.price.isSome = true := by
      intro g hg
      have hg' : g ∈ req.executed w := by
        rw [hexecuted]
        simp only [List.mem_append, List.mem_cons, List.not_mem_nil, or_false] at hg ⊢
        exact hg.imp_right .inl
      exact List.mem_takeWhile_imp (p := fun f : OrderBook × ℚ => f.1.price.isSome) hg'
    have hreached : req.reached w = F ++ f :: (F' ++
        (req.reached w).dropWhile fun f => f.1.price.isSome) := by
      have := List.takeWhile_append_dropWhile (p := fun f : OrderBook × ℚ => f.1.price.isSome)
        (l := req.reached w)
      rw [← Request.executed, hexecuted] at this
      simpa using this.symm
    obtain ⟨pre, t, x, post, hws, hmaker, htaken⟩ := hh.exists_trade hreached
    obtain ⟨L, hat⟩ := hh.at_trade hws
    rw [htaken] at hat
    -- the writes up to the trade are not refused: its makers so far have prices
    have hallowed : ∀ wr ∈ pre ++ [.trade t x], ∀ n, Env.priced.fails n wr.op = false := by
      intro wr hwr n
      have hmem : wr ∈ ws := by
        rw [hws]
        rcases List.mem_append.mp hwr with hwr | hwr
        · exact List.mem_append_left _ hwr
        · exact List.mem_append_right _ (by simp [List.mem_singleton.mp hwr])
      apply hh.priced_allows hmem
      rintro t' y rfl
      rcases List.mem_append.mp hwr with hwr | hwr
      · have hF : (y.maker, t'.size) ∈ F := htaken ▸ List.mem_filterMap.mpr ⟨_, hwr, rfl⟩
        exact hpriced _ (List.mem_append_left _ hF)
      · obtain ⟨rfl, rfl⟩ := Write.trade.inj (List.mem_singleton.mp hwr)
        exact hmaker ▸ hpriced f (by simp)
    obtain ⟨post', hdone⟩ :=
      hh.made_of_allowed hT (fun n o ho => by cases o <;> first | rfl | cases ho)
      (pre ++ [.trade t x]) post (by simp [hws]) hallowed
    have hentry := hh.traded (show done = pre ++ .trade t x :: post' by simp [← hdone])
    -- `r` comes later in the walk, so its row is untouched at the trade
    have hL := hr
    have hsorted := w.db.resting_pairwise req.side.opposite req.symbol
    change (req.resting w).Pairwise _ at hsorted
    rw [hat.resting] at hL hsorted
    rcases List.mem_append.mp hL with hF | hL'
    · have hle := (List.pairwise_append.mp hsorted).2.2 r hF x.maker (List.mem_cons_self ..)
      have := created_of_byPrice hle (by rw [hmaker, hprice])
      rw [hmaker] at this
      omega
    · rcases List.mem_cons.mp hL' with rfl | hL'
      · rw [hmaker] at hcreated
        omega
      · obtain ⟨hne, hF⟩ := hat.later_ne hL'
        obtain ⟨hrow, hopen⟩ := Request.resting_rows hr
        have hkept := hat.kept r hrow hne hF
        rw [← hmaker] at hprice hcreated
        exact h _ hentry x rfl r hr hprice hcreated r hkept rfl hopen

/-- **Time priority** holds, in every environment that refuses unpriced trades,
exactly when each order that is executed is the earliest of the snapshot with a
positive size at its price. -/
theorem timePriority_iff (req : Request) (w : World) :
    (∀ env : Env, env.RefusesUnpriced → TimePriority env req w) ↔ EarliestExecuted req w :=
  ⟨fun h => earliestExecuted_of_timePriority (h .priced Env.priced_refusesUnpriced),
    fun h _ henv => timePriority_of_earliestExecuted henv h⟩

/-- Two SELL orders at one price: the later one is executed first. -/
theorem later_order_first :
    let w := World.start (Tables.traded.place [.btc 1 .SELL 10 1, .btc 2 .SELL 10 1])
    let req := Request.limit ⟨3, .BUY, "BTC/USDT", 10, 1⟩
    Env.constrained.RefusesUnpriced ∧ ¬ TimePriority .constrained req w := by
  refine ⟨fun n t x h => by simp [Env.constrained, Op.admissible, NewTrade.admissible, h], ?_⟩
  unfold TimePriority
  decide +kernel

end Exchange
