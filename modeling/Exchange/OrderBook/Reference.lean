import Exchange.OrderBook.Steps

/-!
# Limit matching and its greedy reference

Where no call fails, a matcher makes the whole plan (`matcher_complete`). The
reference walks a snapshot from its last order, takes the smaller of what is left
and what rests there, and stops at the limit. The limit matchers compare the texts
of prices and subtract doubles, and do what the reference says exactly where this
is seen at no step (`matchesReference_iff`). A BUY at 100 leaves a SELL at 95 where
it is (`cheaper_order_missed`).
-/

namespace Exchange

open Async Proc OrderBookService Store

/-! ## Deals -/

/-- Who sells to whom, how much and at which price. -/
structure Deal where
  buyer_id : Nat
  seller_id : Nat
  price : Option ℚ
  size : ℚ
  deriving DecidableEq

def Trade.deal (t : Trade) : Deal := ⟨t.buyer_id, t.seller_id, t.price, t.size⟩

/-- The deal of the row that is written. -/
def NewTrade.deal (t : NewTrade) : Deal :=
  ⟨t.buyer_id, t.seller_id, t.price.map (roundTo 8), roundTo 8 t.size⟩

def Write.deal : Write → Option Deal
  | .trade t _ => some t.deal
  | _ => none

/-- Matching writes only append to the trades. -/
theorem Tables.writeAll_deals (db : Tables) {ws : List Write} (h : ∀ wr ∈ ws, wr.Matching) :
    ∃ rows, (db.writeAll ws).tbl_trades.rows = db.tbl_trades.rows ++ rows ∧
      rows.map Trade.deal = ws.filterMap Write.deal :=
  db.writeAll_reads (fun _ _ _ => rfl) (fun _ _ _ => rfl) h

/-! ## A match in which nothing fails -/

section Complete

variable {env : Env} {m : Matcher} {w : World}

theorem Blame.not_reliable {a b : Nat} {next : Option Write} {raises : Prop}
    (h : Blame env a b next raises) (henv : env.Reliable) : raises := by
  rcases h with ⟨n, o, -, -, -, hf⟩ | ⟨n, wr, -, -, -, hf⟩ | h
  · rw [henv] at hf
    cases hf
  · rw [henv] at hf
    cases hf
  · exact h

/-- Without failures a matcher makes its whole plan. -/
theorem matcher_complete (henv : env.Reliable) (hm : m.Consistent) (order : OrderBook)
    (ho : w.side m.side.opposite < w.arrays.length) (hT : w.db.HasTrade order.symbol) :
    wp (World.perform env) (m.run order) (fun r w' =>
      ∃ ws, Plan m order (w.array (w.side m.side.opposite)).reverse ws ∧
        r = .ok (m.answer ws) ∧ w'.db = w.db.writeAll ws ∧
        w'.journal = w.journal ++ w.db.entries ws) w := by
  apply wp_mono (run_matches env hm order w ho)
  rintro (e | g) w' h
  · exact h.elim
  · rcases h with ⟨ws, h, rfl⟩ | ⟨ws, done, -, hs, -⟩
    · exact ⟨ws, h.plan, rfl, h.db, h.journal⟩
    · exact absurd hT (hs.not_reliable henv).1

/-- Where the symbol has no trade, the emission after the first write raises. -/
theorem matcher_stuck (henv : env.Reliable) (hm : m.Consistent) (order : OrderBook)
    (ho : w.side m.side.opposite < w.arrays.length) (hT : ¬ w.db.HasTrade order.symbol) :
    wp (World.perform env) (m.run order) (fun r w' =>
      ∃ ws, Plan m order (w.array (w.side m.side.opposite)).reverse ws ∧
        r = .ok (if ws = [] then m.notEntered else ⟨false, "Failed to place order"⟩) ∧
        w'.db = w.db.writeAll (ws.take 1)) w := by
  apply wp_mono (run_matches env hm order w ho)
  rintro (e | g) w' h
  · exact h.elim
  · rcases h with ⟨ws, h, rfl⟩ | ⟨ws, done, h, hs, rfl⟩
    · have hlen := h.stuck hT
      have hnil : ws = [] := by
        by_contra hne
        have := h.plan.two_le_length hne
        omega
      subst hnil
      exact ⟨[], h.plan, rfl, h.db⟩
    · have hlen := h.stuck hT
      have hdone := (hs.not_reliable henv).2
      have hone : done.length = 1 := by
        have := List.length_pos_iff.mpr hdone
        omega
      have htake : done = ws.take 1 := hone ▸ List.prefix_iff_eq_take.mp h.made
      refine ⟨ws, h.plan, ?_, htake ▸ h.db⟩
      rw [if_neg]
      rintro rfl
      exact hdone (List.prefix_nil.mp h.made)

end Complete

namespace Plan

variable {m : Matcher} {order : OrderBook} {L : List OrderBook} {ws : List Write}

/-- The deals of a plan are its greedy filling. -/
theorem deals (h : Plan m order L ws) :
    ws.filterMap Write.deal =
      (fills m order L).map fun f => (m.trade order f.1 f.2 0 0).deal := by
  induction h with
  | nil => rfl
  | stop L h => rw [fills_stop h]; rfl
  | full L t₁ t₂ t₃ h hs => rw [fills_full h hs]; rfl
  | part t₁ t₂ h hs hp ih =>
    rw [fills_part h hs, List.filterMap_append, ih]
    rfl

end Plan

/-! ## The reference -/

/-- The resting order is beyond the limit of the incoming one. -/
def OrderBook.beyond (order resting : OrderBook) : Bool :=
  match order.side with
  | .BUY => number order.price < number resting.price
  | .SELL => number resting.price < number order.price

/-- What is taken from whom: from the last order of the snapshot on, the smaller
of what is left and what rests there, up to the limit. -/
def OrderBook.reference (order : OrderBook) (L : List OrderBook) : List (OrderBook × ℚ) :=
  Greedy.walk order.beyond OrderBook.size order.size L.reverse

/-- The deal in which `f.2` is taken from `f.1`. -/
def OrderBook.dealWith (order : OrderBook) (f : OrderBook × ℚ) : Deal :=
  match order.side with
  | .BUY => ⟨order.uid, f.1.uid, f.1.price, f.2⟩
  | .SELL => ⟨f.1.uid, order.uid, f.1.price, f.2⟩

/-- From `db` to `db'` the order was matched with the snapshot as the reference says. -/
structure MatchesReference (order : OrderBook) (L : List OrderBook) (db db' : Tables) : Prop where
  trades : ∃ rows, db'.tbl_trades.rows = db.tbl_trades.rows ++ rows ∧
    rows.map Trade.deal = (order.reference L).map order.dealWith
  resting : ∀ r ∈ L, ∃ row ∈ db'.tbl_order_books.rows, row.id = r.id ∧
    row.Holds (r.size - takenFrom (order.reference L) r.id)
  incoming : ∃ row ∈ db'.tbl_order_books.rows, row.id = order.id ∧
    row.Holds (order.size - ((order.reference L).map Prod.snd).sum)
  others : ∀ row ∈ db.tbl_order_books.rows, (row.id = order.id → order.reference L = []) →
    (∀ f ∈ order.reference L, f.1.id ≠ row.id) → row ∈ db'.tbl_order_books.rows
  keys : db'.tbl_order_books.rows.map OrderBook.id = db.tbl_order_books.rows.map OrderBook.id

/-- The service holds a snapshot of the open orders of the other side, and the
incoming order has its row. -/
structure Snapshot (order : OrderBook) (L : List OrderBook) (w : World) : Prop where
  held : w.side order.side.opposite < w.arrays.length
  array : w.array (w.side order.side.opposite) = L
  nodup : (L.map OrderBook.id).Nodup
  resting : ∀ r ∈ L, r ∈ w.db.tbl_order_books.rows ∧ r.side = order.side.opposite ∧
    r.is_filled = false ∧ 0 < r.size
  stored : ∃ row ∈ w.db.tbl_order_books.rows, row.id = order.id ∧ row.side = order.side ∧
    row.is_filled = false ∧ row.size = roundTo 8 order.size

/-- Prices and sizes are numbers that their columns hold. -/
structure Tables.Stored (db : Tables) : Prop where
  prices : db.PricesStored
  sizes : ∀ row ∈ db.tbl_order_books.rows, IsDecimal 8 row.size

section Reference

variable {order : OrderBook} {L : List OrderBook} {w : World}

/-! ## The limit matchers -/

def OrderBook.limitMatcher (order : OrderBook) : Matcher :=
  if order.side = .BUY then buyMatcher else sellMatcher

theorem OrderBook.limitMatcher_side : order.limitMatcher.side = order.side := by
  unfold limitMatcher
  cases order.side <;> rfl

theorem OrderBook.limitMatcher_consistent : order.limitMatcher.Consistent := by
  unfold limitMatcher
  split
  · exact buyMatcher_consistent
  · exact sellMatcher_consistent

theorem OrderBook.limitMatcher_answer (ws : List Write) :
    order.limitMatcher.answer ws = ⟨true, "Ok"⟩ := by
  unfold limitMatcher Matcher.answer
  cases order.side <;> split <;> rfl

/-- What a limit matcher trades, with the size that is recorded. -/
theorem OrderBook.deal_eq {f : OrderBook × ℚ} (hprice : f.1.price.map (roundTo 8) = f.1.price) :
    (order.limitMatcher.trade order f.1 f.2 0 0).deal = order.dealWith (f.1, roundTo 8 f.2) := by
  unfold dealWith
  cases hside : order.side <;>
    simp [NewTrade.deal, Matcher.trade, limitMatcher_side, hside, hprice]

/-- What a match without failures leaves behind. -/
theorem matchLimitOrder_complete {env : Env} (henv : env.Reliable)
    (hheld : w.side order.side.opposite < w.arrays.length) (hT : w.db.HasTrade order.symbol) :
    wp (World.perform env) (matchLimitOrder order) (fun r w' => r = .ok ⟨true, "Ok"⟩ ∧
      ∃ ws, Plan order.limitMatcher order (w.array (w.side order.side.opposite)).reverse ws ∧
        w'.db = w.db.writeAll ws ∧ w'.journal = w.journal ++ w.db.entries ws) w := by
  rw [← OrderBook.limitMatcher_side] at hheld ⊢
  rw [matchLimitOrder_eq]
  apply wp_mono (matcher_complete henv OrderBook.limitMatcher_consistent order hheld hT)
  rintro r w' ⟨ws, hplan, rfl, hwritten⟩
  exact ⟨congrArg _ (OrderBook.limitMatcher_answer ws), ws, hplan, hwritten⟩

/-- The row of the order is not in the snapshot. -/
theorem Snapshot.id_ne (h : Snapshot order L w) : ∀ r ∈ L, r.id ≠ order.id := by
  intro r hr he
  obtain ⟨row, hrow, hid, hside, -⟩ := h.stored
  obtain ⟨hmem, hother, -⟩ := h.resting r hr
  have hsame : r = row := Table.eq_of_key hmem hrow (he.trans hid.symm)
  rw [hsame, hside] at hother
  cases hs : order.side <;> rw [hs] at hother <;> cases hother

theorem Snapshot.openOrders (h : Snapshot order L w) (hdb : w.db.Stored) :
    OpenOrders L.reverse where
  nodup := by
    rw [List.map_reverse, List.nodup_reverse]
    exact h.nodup
  opened r hr := (h.resting r (List.mem_reverse.mp hr)).2.2.1
  pos r hr := (h.resting r (List.mem_reverse.mp hr)).2.2.2
  sizes r hr := hdb.sizes r (h.resting r (List.mem_reverse.mp hr)).1
  prices r hr := hdb.prices r (h.resting r (List.mem_reverse.mp hr)).1

variable {ws : List Write}

/-- The deals of a plan, with the sizes that are recorded. -/
theorem Plan.deals_eq (hplan : Plan order.limitMatcher order L.reverse ws)
    (hL : OpenOrders L.reverse) : ws.filterMap Write.deal =
      ((Plan.fills order.limitMatcher order L.reverse).map fun f => (f.1, roundTo 8 f.2)).map
        order.dealWith := by
  rw [hplan.deals, List.map_map]
  apply List.map_congr_left
  intro f hf
  have hmem := (Greedy.fills_prefix order.size L.reverse).subset (List.mem_map_of_mem hf)
  exact OrderBook.deal_eq (hL.prices _ hmem)

theorem mem_writeAll {db : Tables} (hws : ∀ wr ∈ ws, wr.Matching) {row : OrderBook}
    (hrow : row ∈ db.tbl_order_books.rows) :
    rowAfter ws row ∈ (db.writeAll ws).tbl_order_books.rows := by
  rw [Tables.writeAll_rows hws]
  exact List.mem_map_of_mem hrow

/-- A row with the key of a row is what has become of it. -/
theorem eq_rowAfter {db : Tables} (hws : ∀ wr ∈ ws, wr.Matching) {row row' : OrderBook}
    (hrow : row ∈ db.tbl_order_books.rows) (hrow' : row' ∈ (db.writeAll ws).tbl_order_books.rows)
    (hid : row'.id = row.id) : row' = rowAfter ws row :=
  Table.eq_of_key hrow' (mem_writeAll hws hrow) (hid.trans (rowAfter_worked hws row).id.symm)

/-- A plan that writes what the reference takes does what the reference says. -/
theorem Plan.matchesReference (hplan : Plan order.limitMatcher order L.reverse ws)
    (hdb : w.db.Stored) (h : Snapshot order L w)
    (hw : Walked order.beyond order.limitMatcher order L.reverse ws) :
    MatchesReference order L w.db (w.db.writeAll ws) := by
  have hws := hplan.matching
  refine ⟨?_, ?_, ?_, ?_, ?_⟩
  · obtain ⟨rows, hrows, hdeals⟩ := w.db.writeAll_deals hws
    refine ⟨rows, hrows, ?_⟩
    rw [hdeals, hplan.deals_eq (h.openOrders hdb), hw.taken]
    rfl
  · intro r hr
    exact ⟨_, mem_writeAll hws (h.resting r hr).1, (rowAfter_worked hws r).id,
      hw.resting r (List.mem_reverse.mpr hr)⟩
  · obtain ⟨row, hrow, hid, -, hopen, hsize⟩ := h.stored
    exact ⟨_, mem_writeAll hws hrow, (rowAfter_worked hws row).id.trans hid,
      hw.incoming row hid hsize hopen⟩
  · intro row hrow hown hother
    have hrest := mem_writeAll hws hrow
    rwa [rowAfter_untouched] at hrest
    intro ht
    rcases hplan.touches ht with ⟨he, htaken⟩ | ⟨f, hf, he⟩
    · apply htaken
      apply List.map_eq_nil_iff.mp
      exact hw.taken.trans (hown he)
    · refine hother (f.1, roundTo 8 f.2) ?_ he.symm
      unfold OrderBook.reference
      rw [← hw.taken]
      exact List.mem_map_of_mem hf
  · rw [Tables.writeAll_rows hws, List.map_map]
    apply List.map_congr_left
    intro row _
    exact (rowAfter_worked hws row).id

/-- Two lists of takings that go through one list in order, with the same sizes. -/
theorem takings_eq {F G : List (OrderBook × ℚ)} {K : List OrderBook}
    (hF : F.map Prod.fst <+: K) (hG : G.map Prod.fst <+: K)
    (hsizes : F.map Prod.snd = G.map Prod.snd) : F = G := by
  have hlength : (F.map Prod.fst).length = (G.map Prod.fst).length := by
    have hlen := congrArg List.length hsizes
    rwa [List.length_map, List.length_map] at hlen ⊢
  have horders : F.map Prod.fst = G.map Prod.fst :=
    (List.prefix_of_prefix_length_le hF hG hlength.le).eq_of_length hlength
  rw [← List.zip_unzip F, ← List.zip_unzip G, List.unzip_eq_map, List.unzip_eq_map]
  simp only [horders, hsizes]

/-- A plan that does what the reference says writes what it takes. -/
theorem Plan.walked_of_reference (hplan : Plan order.limitMatcher order L.reverse ws)
    (hdb : w.db.Stored) (h : Snapshot order L w)
    (hm : MatchesReference order L w.db (w.db.writeAll ws)) :
    Walked order.beyond order.limitMatcher order L.reverse ws := by
  have hws := hplan.matching
  have hne : ∀ r ∈ L.reverse, r.id ≠ order.id := fun r hr => h.id_ne r (List.mem_reverse.mp hr)
  refine ⟨?_, ?_, ?_⟩
  · obtain ⟨rows, hrows, hdeals⟩ := hm.trades
    obtain ⟨rows', hrows', hdeals'⟩ := w.db.writeAll_deals hws
    obtain rfl : rows' = rows := List.append_cancel_left (hrows'.symm.trans hrows)
    rw [hdeals', hplan.deals_eq (h.openOrders hdb)] at hdeals
    have hsize (f : OrderBook × ℚ) : (order.dealWith f).size = f.2 := by
      unfold OrderBook.dealWith
      cases order.side <;> rfl
    have hsizes := congrArg (List.map Deal.size) hdeals
    simp only [List.map_map, Function.comp_def, hsize] at hsizes
    apply takings_eq (K := L.reverse)
    · rw [List.map_map]
      exact Greedy.fills_prefix order.size L.reverse
    · exact Greedy.walk_prefix order.size L.reverse
    · rw [List.map_map]
      exact hsizes
  · intro r hr
    have hmem := List.mem_reverse.mp hr
    obtain ⟨row, hrow, hid, hholds⟩ := hm.resting r hmem
    rw [eq_rowAfter hws (h.resting r hmem).1 hrow hid] at hholds
    exact hholds
  · intro row hid hsize hopen
    obtain ⟨row', hrow', hid', hholds⟩ := hm.incoming
    obtain ⟨stored, hstored, hidₛ, -, hopenₛ, hsizeₛ⟩ := h.stored
    rw [eq_rowAfter hws hstored hrow' (hid'.trans hidₛ.symm)] at hholds
    have hsame := (hplan.outcome_own hne hid hsize hopen).trans
      (hplan.outcome_own hne hidₛ hsizeₛ hopenₛ).symm
    obtain ⟨hsize', hfilled⟩ := Prod.mk.inj hsame
    exact ⟨hsize'.trans hholds.1, by rw [hfilled, hholds.2]; rfl⟩

/-- The match takes the steps of the reference. -/
def OrderBook.takesSteps (order : OrderBook) (L : List OrderBook) : Bool :=
  sameSteps (order.limitMatcher.halts order.held) order.beyond order.size order.size L.reverse

/-- **Limit matching is the greedy reference** iff each of its comparisons and subtractions
says what the numbers say. -/
theorem matchesReference_iff {env : Env} (henv : env.Reliable) (hdb : w.db.Stored)
    (h : Snapshot order L w) (hpos : 0 < order.size) (hT : w.db.HasTrade order.symbol) :
    let match_ := (matchLimitOrder order).run (World.perform env) w
    match_.1 = .ok ⟨true, "Ok"⟩ ∧
      (MatchesReference order L w.db match_.2.db ↔ order.takesSteps L = true) := by
  intro match_
  obtain ⟨hok, ws, hplan, hafter, -⟩ := matchLimitOrder_complete henv h.held hT
  rw [h.array] at hplan
  refine ⟨hok, ?_⟩
  change match_.2.db = w.db.writeAll ws at hafter
  have hwalked : Walked order.beyond order.limitMatcher order L.reverse ws ↔ _ :=
    hplan.walked_iff hpos (h.openOrders hdb) fun r hr => h.id_ne r (List.mem_reverse.mp hr)
  rw [hafter, OrderBook.takesSteps, ← hwalked]
  exact ⟨hplan.walked_of_reference hdb h, hplan.matchesReference hdb h⟩

end Reference

/-! ## One match -/

/-- A SELL of 1 at 10, one of 3 at 11, and the row of a BUY at 11 that is to be matched. -/
def Tables.toMatch (size : ℚ) : Tables :=
  traded.place [.btc 1 .SELL 11 3, .btc 1 .SELL 10 1, .btc 2 .BUY 11 size]

def toMatch (size : ℚ) : OrderBook := (NewOrder.btc 2 .BUY 11 size).saved 3 3

/-- The open SELL orders as `fillOrderBook` fetches them. -/
def Tables.sells (size : ℚ) : List OrderBook :=
  (toMatch size).findOrders .SELL "BTC/USDT" 100 .DESC

def World.toMatch (size : ℚ) : World :=
  { World.start (Tables.toMatch size) with arrays := [[], Tables.sells size] }

theorem snapshot_toMatch {size : ℚ} (hopen : Tables.sells size = Tables.sells 2)
    (hrow : ∃ row ∈ (Tables.toMatch size).tbl_order_books.rows, row.id = 3 ∧ row.side = .BUY ∧
      row.is_filled = false ∧ row.size = roundTo 8 size)
    (hmem : ∀ r ∈ Tables.sells size, r ∈ (Tables.toMatch size).tbl_order_books.rows) :
    Snapshot (toMatch size) (Tables.sells size) (World.toMatch size) := by
  refine ⟨Nat.one_lt_two, rfl, ?_, ?_, hrow⟩
  · rw [hopen]
    decide +kernel
  · intro r hr
    refine ⟨hmem r hr, ?_⟩
    rw [hopen] at hr
    have hsells : ∀ r ∈ Tables.sells 2, r.side = .SELL ∧ r.is_filled = false ∧ 0 < r.size := by
      decide +kernel
    exact hsells r hr

/-- A BUY of 2 at 11 takes 1 at 10 and 1 of the 3 at 11. -/
theorem matchesReference_buy :
    let match_ := (matchLimitOrder (toMatch 2)).run (World.perform .steady) (World.toMatch 2)
    MatchesReference (toMatch 2) (Tables.sells 2) (Tables.toMatch 2) match_.2.db := by
  intro match_
  have hdb : (Tables.toMatch 2).Stored := by
    constructor
    · unfold Tables.PricesStored
      decide +kernel
    · have hround : ∀ row ∈ (Tables.toMatch 2).tbl_order_books.rows,
          roundTo 8 row.size = row.size := by
        decide +kernel
      intro row hrow
      rw [← hround row hrow]
      exact isDecimal_roundTo _
  have hsnapshot : Snapshot (toMatch 2) (Tables.sells 2) (World.toMatch 2) := by
    apply snapshot_toMatch rfl <;> decide +kernel
  have hT : (World.toMatch 2).db.HasTrade "BTC/USDT" := by
    unfold Tables.HasTrade
    decide +kernel
  exact (matchesReference_iff Env.steady_reliable hdb hsnapshot (by decide +kernel) hT).2.mpr
    (by decide +kernel)

/-- A SELL of 1 at 95 and the row of a BUY of 1 at 100. -/
def World.missing : World :=
  { World.start (Tables.traded.place [.btc 1 .SELL 95 1, .btc 2 .BUY 100 1]) with
    arrays := [[], [(NewOrder.btc 1 .SELL 95 1).toRow 1 1]] }

/-- The BUY at 100 does not take the SELL at 95: as texts 100 is below 95. -/
theorem cheaper_order_missed :
    let order := (NewOrder.btc 2 .BUY 100 1).saved 2 2
    let L := [(NewOrder.btc 1 .SELL 95 1).toRow 1 1]
    let match_ := (matchLimitOrder order).run (World.perform .steady) World.missing
    Env.steady.Reliable ∧ Snapshot order L World.missing ∧ 0 < order.size ∧
      World.missing.db.HasTrade order.symbol ∧
      ¬ MatchesReference order L World.missing.db match_.2.db := by
  intro order L match_
  refine ⟨Env.steady_reliable, ⟨?_, ?_, ?_, ?_, ?_⟩, ?_, ?_, ?_⟩
  case refine_8 =>
    intro h
    obtain ⟨row, hrow, hid, hsize, -⟩ := h.incoming
    have hmissed : ∀ row ∈ match_.2.db.tbl_order_books.rows, row.id = order.id →
        row.size ≠ order.size - ((order.reference L).map Prod.snd).sum := by
      decide +kernel
    exact hmissed row hrow hid hsize
  all_goals
    try unfold Tables.HasTrade
    decide +kernel

end Exchange
