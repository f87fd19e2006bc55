import Exchange.OrderBook.Reference

/-!
# Buying and selling mirrored

The mirror of a book swaps BUY with SELL and negates every price. The matchers for BUY
and SELL are copies of one another, and where a copy was not adapted their runs differ:
the limit matchers write different prices to the fills of the last pass, and the market
matchers the same `is_buyer` to the trades that take a whole resting order. The texts that
the limit matchers compare are not mirrored with the prices either: of two texts with a
minus the same one is below the other as without.

`mirrored_iff`: the run of each SELL matcher is the mirror of that of the BUY matcher
exactly where this is not seen.
-/

namespace Exchange

open Async Proc OrderBookService Store

/-! ## Mirrors -/

def mirrorPrice (price : Option ℚ) : Option ℚ := price.map fun p => -p

def Fill.mirror (f : Fill) : Fill := { f with price := mirrorPrice f.price }

def OrderBook.mirror (r : OrderBook) : OrderBook :=
  { r with
    side := r.side.opposite
    price := mirrorPrice r.price
    volume := -r.volume
    fills := r.fills.map fun fills => fills.map Fill.mirror }

/-- The users are swapped, and who is the buyer is flipped. -/
def Trade.mirror (t : Trade) : Trade :=
  { t with
    buyer_id := t.seller_id
    seller_id := t.buyer_id
    price := mirrorPrice t.price
    volume := -t.volume
    is_buyer := 1 - t.is_buyer }

def Tables.mirror (db : Tables) : Tables where
  tbl_order_books := db.tbl_order_books.rewrite (fun _ => true) OrderBook.mirror fun _ => rfl
  tbl_trades := db.tbl_trades.rewrite (fun _ => true) Trade.mirror fun _ => rfl

/-- The row without its times. -/
def OrderBook.untimed (r : OrderBook) : OrderBook := { r with settled_at := none }

/-- The row without its key and its time. -/
def Trade.untimed (t : Trade) : Trade := { t with id := 0, created_at := 0 }

/-- The rows of `db'` are the mirrors of those of `db`, but for times. -/
structure Tables.Mirrored (db db' : Tables) : Prop where
  orders : db'.tbl_order_books.rows.map OrderBook.untimed =
    db.tbl_order_books.rows.map fun r => r.untimed.mirror
  trades : db'.tbl_trades.rows.map Trade.untimed =
    db.tbl_trades.rows.map fun t => t.untimed.mirror

/-- The second world is the mirror of the first, in which a BUY comes in: its tables, and
the resting orders that are picked up. The order has its row, as `handleOrder` saves it. -/
structure World.Mirrored (order : OrderBook) (w w' : World) : Prop where
  db : w'.db = w.db.mirror
  held : w.side .SELL < w.arrays.length
  held' : w'.side .BUY < w'.arrays.length
  array : w'.array (w'.side .BUY) = (w.array (w.side .SELL)).map OrderBook.mirror
  stored : ∃ row ∈ w.db.tbl_order_books.rows, row.id = order.id
  others : ∀ r ∈ w.array (w.side .SELL), r.id ≠ order.id

/-! ## Mirrored writes -/

def OrderUpdate.Mirrors (u u' : OrderUpdate) : Prop :=
  u'.size = u.size ∧ u'.fills = u.fills.map Fill.mirror ∧ u'.is_filled = u.is_filled

def NewTrade.Mirrors (t t' : NewTrade) : Prop :=
  t'.buyer_id = t.seller_id ∧ t'.seller_id = t.buyer_id ∧ t'.price = mirrorPrice t.price ∧
    t'.size = t.size ∧ t'.type = t.type ∧ t'.symbol = t.symbol ∧ t'.is_buyer = 1 - t.is_buyer

/-- The second write is the mirror of the first, but for times. -/
inductive Write.Mirrors : Write → Write → Prop where
  | update {id : Nat} {u u' : OrderUpdate} {x x' : Execution} (h : u.Mirrors u') :
      Write.Mirrors (.update id u x) (.update id u' x')
  | trade {t t' : NewTrade} {x x' : Execution} (h : t.Mirrors t') :
      Write.Mirrors (.trade t x) (.trade t' x')

theorem number_mirrorPrice (price : Option ℚ) : number (mirrorPrice price) = -number price := by
  cases price <;> simp [mirrorPrice, number]

theorem mirrorPrice_inj {p q : Option ℚ} : mirrorPrice p = mirrorPrice q ↔ p = q := by
  cases p <;> cases q <;> simp [mirrorPrice]

theorem mirrorPrice_roundTo (price : Option ℚ) :
    (mirrorPrice price).map (roundTo 8) = mirrorPrice (price.map (roundTo 8)) := by
  cases price with
  | none => rfl
  | some p => exact congrArg some (roundTo_neg p)

section Writes

variable {ws ws' : List Write}

/-- A row and its mirror stay mirrors. -/
theorem rowAfter_mirrors (h : List.Forall₂ Write.Mirrors ws ws') {row row' : OrderBook}
    (hrow : row'.untimed = row.untimed.mirror) :
    (rowAfter ws' row').untimed = (rowAfter ws row).untimed.mirror := by
  induction h generalizing row row' with
  | nil => exact hrow
  | @cons wr wr' ws ws' hwr _ ih =>
    apply ih
    cases hwr with
    | trade => exact hrow
    | @update id u u' x x' hu =>
      have hid : row'.id = row.id := (congrArg OrderBook.id hrow :)
      simp only [Write.onRow, hid]
      split
      · obtain ⟨hsize, hfills, hfilled⟩ := hu
        have hflag : row'.is_filled = row.is_filled := (congrArg OrderBook.is_filled hrow :)
        obtain ⟨id, uid, side, symbol, fills, type, price, size, orgSize, volume, is_filled,
          created_at, settled_at⟩ := row
        obtain ⟨id', uid', side', symbol', fills', type', price', size', orgSize', volume',
          is_filled', created_at', settled_at'⟩ := row'
        simp only [OrderBook.untimed, OrderBook.mirror, OrderBook.mk.injEq] at hrow hflag ⊢
        simp [OrderUpdate.apply, hsize, hfills, hfilled, hrow]
      · exact hrow

/-- What a write adds to the trades. -/
def Write.untimed : Write → Option Trade
  | .trade t _ => some (t.toRow 0).untimed
  | _ => none

theorem NewTrade.Mirrors.toRow {t t' : NewTrade} (h : t.Mirrors t') :
    (t'.toRow 0).untimed = (t.toRow 0).untimed.mirror := by
  obtain ⟨hbuyer, hseller, hprice, hsize, htype, hsymbol, his⟩ := h
  have hvolume : roundTo 2 t'.volume = -roundTo 2 t.volume := by
    rw [NewTrade.volume, hprice, hsize, number_mirrorPrice, Double.mul_of_neg, roundTo_neg]
    rfl
  simp only [NewTrade.toRow, Trade.untimed, Trade.mirror, hbuyer, hseller, hprice, hsize, htype,
    hsymbol, his, hvolume, mirrorPrice_roundTo]

theorem untimed_mirrors (h : List.Forall₂ Write.Mirrors ws ws') :
    ws'.filterMap Write.untimed = (ws.filterMap Write.untimed).map Trade.mirror := by
  induction h with
  | nil => rfl
  | @cons wr wr' ws ws' hwr _ ih =>
    cases hwr with
    | update => exact ih
    | trade ht =>
      change (_ :: _) = (_ :: _)
      rw [ht.toRow, ih]

theorem Tables.mirror_orders (db : Tables) :
    db.mirror.tbl_order_books.rows = db.tbl_order_books.rows.map OrderBook.mirror := by
  simp [Tables.mirror, Table.rewrite]

theorem Tables.mirror_trades (db : Tables) :
    db.mirror.tbl_trades.rows = db.tbl_trades.rows.map Trade.mirror := by
  simp [Tables.mirror, Table.rewrite]

theorem length_untimed (ws : List Write) :
    (ws.filterMap Write.untimed).length = (ws.filterMap Write.taken).length := by
  induction ws with
  | nil => rfl
  | cons wr ws ih =>
    cases wr with
    | trade => exact congrArg (· + 1) ih
    | _ => exact ih

/-- New rows of the trades are what the writes add. -/
theorem Tables.writeAll_untimed (db : Tables) (h : ∀ wr ∈ ws, wr.Matching) :
    (db.writeAll ws).tbl_trades.rows.map Trade.untimed =
      db.tbl_trades.rows.map Trade.untimed ++ ws.filterMap Write.untimed := by
  obtain ⟨rows, hrows, hnew⟩ := db.writeAll_reads (φ := Trade.untimed) (ψ := Write.untimed)
    (fun _ _ _ => rfl) (fun _ _ _ => rfl) h
  rw [hrows, List.map_append, hnew]

/-- Mirrored tables got mirrored trades. -/
theorem Tables.Mirrored.untimed {db : Tables}
    (h : (db.writeAll ws).Mirrored (db.mirror.writeAll ws')) (hws : ∀ wr ∈ ws, wr.Matching)
    (hws' : ∀ wr ∈ ws', wr.Matching) :
    ws'.filterMap Write.untimed = (ws.filterMap Write.untimed).map Trade.mirror := by
  have htrades := h.trades
  have hmap : (db.writeAll ws).tbl_trades.rows.map (fun t => t.untimed.mirror) =
      ((db.writeAll ws).tbl_trades.rows.map Trade.untimed).map Trade.mirror := by
    rw [List.map_map]
    rfl
  rw [hmap, Tables.writeAll_untimed _ hws, Tables.writeAll_untimed _ hws', Tables.mirror_trades,
    List.map_append] at htrades
  exact (List.append_inj htrades (by simp)).2

/-- Mirrored writes make mirrored tables of mirrored ones. -/
theorem Tables.mirrored_writeAll (db : Tables) (h : List.Forall₂ Write.Mirrors ws ws')
    (hws : ∀ wr ∈ ws, wr.Matching) (hws' : ∀ wr ∈ ws', wr.Matching) :
    (db.writeAll ws).Mirrored (db.mirror.writeAll ws') where
  orders := by
    rw [Tables.writeAll_rows hws, Tables.writeAll_rows hws', Tables.mirror_orders]
    simp only [List.map_map]
    apply List.map_congr_left
    intro row _
    exact rowAfter_mirrors h rfl
  trades := by
    have hmap (l : List Trade) :
        l.map (fun t => t.untimed.mirror) = (l.map Trade.untimed).map Trade.mirror := by
      rw [List.map_map]
      rfl
    rw [Tables.writeAll_untimed _ hws', hmap, Tables.writeAll_untimed _ hws, List.map_append,
      untimed_mirrors h, Tables.mirror_trades, List.map_map, List.map_map]
    rfl

end Writes

/-! ## Mirrored plans -/

/-- What two matchers for opposite sides share as copies of one another. -/
structure OrderBookService.Matcher.Reflects (m m' : Matcher) : Prop where
  side : m'.side = m.side.opposite
  type : m'.type = m.type
  notEntered : m'.notEntered = m.notEntered
  full_is_buyer : m'.full_is_buyer = 1 - m.full_is_buyer
  partTakerPrice : ∀ p q,
    m'.partTakerPrice (mirrorPrice p) (mirrorPrice q) = mirrorPrice (m.partTakerPrice p q)
  partMakerPrice : ∀ p q,
    m'.partMakerPrice (mirrorPrice p) (mirrorPrice q) = mirrorPrice (m.partMakerPrice p q)

/-- They write mirrored prices to the fills when the order is filled from `r`. -/
def FullAgrees (m m' : Matcher) (price : Option ℚ) (r : OrderBook) : Prop :=
  m'.fullTakerPrice (mirrorPrice price) (mirrorPrice r.price) =
      mirrorPrice (m.fullTakerPrice price r.price) ∧
    m'.fullMakerPrice (mirrorPrice price) (mirrorPrice r.price) =
      mirrorPrice (m.fullMakerPrice price r.price)

/-- The resting order that fills the rest of the order. -/
def Matcher.closer (m : Matcher) (order : OrderBook) (L : List OrderBook) : Option OrderBook :=
  Greedy.closer doubles (m.halts order.held) OrderBook.size order.size L

/-- The matchers stop at the same orders and their mirrors. -/
def Matcher.sameStops (m m' : Matcher) (order : OrderBook) (L : List OrderBook) : Bool :=
  Greedy.sameStops doubles (m.halts order.held) OrderBook.size
    (fun r => m'.halts order.mirror.held r.mirror) order.size L

theorem parseFills_mirror (r : OrderBook) :
    parseFills r.mirror.fills = (parseFills r.fills).map Fill.mirror := by
  cases h : r.fills <;> simp [OrderBook.mirror, parseFills, h]

/-- One more entry, at the mirrored price. -/
theorem fills_mirror (r : OrderBook) (size : ℚ) {price price' : Option ℚ}
    (h : price' = mirrorPrice price) :
    parseFills r.mirror.fills ++ [(⟨size, price'⟩ : Fill)] =
      (parseFills r.fills ++ [(⟨size, price⟩ : Fill)]).map Fill.mirror := by
  rw [parseFills_mirror, h, List.map_append]
  rfl

section Plans

variable {m m' : Matcher} {order r : OrderBook} {L : List OrderBook} {ws ws' : List Write}

theorem OrderBookService.Matcher.Reflects.partFills (hm : m.Reflects m') (order r : OrderBook) :
    m'.partFills order.mirror r.mirror = (m.partFills order r).map Fill.mirror :=
  fills_mirror order r.size (hm.partTakerPrice order.price r.price)

theorem OrderBookService.Matcher.Reflects.rest (hm : m.Reflects m') (order r : OrderBook) :
    m'.rest order.mirror r.mirror = (m.rest order r).mirror := by
  simp only [Matcher.rest, hm.partFills]
  rfl

theorem OrderBookService.Matcher.Reflects.trade (hm : m.Reflects m') (order r : OrderBook)
    (size : ℚ) {is_buyer is_buyer' : Nat} (his : is_buyer' = 1 - is_buyer) (t t' : Nat) :
    (m.trade order r size is_buyer t).Mirrors
      (m'.trade order.mirror r.mirror size is_buyer' t') := by
  unfold Matcher.trade NewTrade.Mirrors
  rw [hm.side]
  cases m.side
  · exact ⟨rfl, rfl, rfl, rfl, hm.type, rfl, his⟩
  · exact ⟨rfl, rfl, rfl, rfl, hm.type, rfl, his⟩

theorem mirrors_fullWrites (hm : m.Reflects m') (hfull : FullAgrees m m' order.price r)
    (t₁ t₂ t₃ t₁' t₂' t₃' : Nat) :
    List.Forall₂ Write.Mirrors (m.fullWrites order r t₁ t₂ t₃)
      (m'.fullWrites order.mirror r.mirror t₁' t₂' t₃') := by
  refine .cons (.update ?_) (.cons (.trade ?_) (.cons (.update ?_) .nil))
  · exact ⟨rfl, fills_mirror order order.size hfull.1, rfl⟩
  · exact hm.trade order r order.size hm.full_is_buyer t₂ t₂'
  · have hfills := fills_mirror r order.size hfull.2
    change OrderUpdate.Mirrors (if Double.sub r.size order.size = 0 then _ else _)
      (if Double.sub r.size order.size = 0 then _ else _)
    split
    · exact ⟨rfl, hfills, rfl⟩
    · exact ⟨rfl, hfills, rfl⟩

theorem mirrors_partWrites (hm : m.Reflects m')
    (hpart : m'.part_is_buyer = 1 - m.part_is_buyer) (t₁ t₂ t₁' t₂' : Nat) :
    List.Forall₂ Write.Mirrors (m.partWrites order r t₁ t₂)
      (m'.partWrites order.mirror r.mirror t₁' t₂') := by
  refine .cons (.update ?_) (.cons (.trade ?_) (.cons (.update ?_) .nil))
  · exact ⟨rfl, fills_mirror r r.size (hm.partMakerPrice _ _), rfl⟩
  · exact hm.trade order r r.size hpart t₂ t₂'
  · exact ⟨rfl, hm.partFills order r, rfl⟩

theorem Matcher.closer_part (h : m.halts order.held r = false)
    (hs : Double.fl r.size < Double.fl order.size) :
    closer m order (r :: L) = closer m (m.rest order r) L := by
  simp [closer, Greedy.closer, h, hs.not_ge]

theorem Matcher.sameStops_halts (h : sameStops m m' order (r :: L) = true) :
    m'.halts order.mirror.held r.mirror = m.halts order.held r := by
  simp only [sameStops, Greedy.sameStops, Bool.and_eq_true, decide_eq_true_eq] at h
  exact h.1.symm

theorem Matcher.sameStops_part (h : sameStops m m' order (r :: L) = true)
    (hr : m.halts order.held r = false) (hs : Double.fl r.size < Double.fl order.size) :
    sameStops m m' (m.rest order r) L = true := by
  unfold sameStops Greedy.sameStops at h
  simp only [hr, doubles_meets, hs.not_ge, decide_false, Bool.false_or, Bool.and_eq_true] at h
  exact h.2

/-- **Plans of mirrored orders** over mirrored books are mirrors, if the matchers stop at the
same orders, agree on the last pass and, where a resting order is taken whole, on `is_buyer`. -/
theorem Plan.mirrors (h : Plan m order L ws) (hm : m.Reflects m')
    (h' : Plan m' order.mirror (L.map OrderBook.mirror) ws')
    (hstops : Matcher.sameStops m m' order L = true)
    (hfull : ∀ r, Matcher.closer m order L = some r → FullAgrees m m' order.price r)
    (hpart : m'.part_is_buyer = 1 - m.part_is_buyer ∨
      ∀ r ∈ L.head?, Double.fl order.size ≤ Double.fl r.size) :
    List.Forall₂ Write.Mirrors ws ws' := by
  induction h generalizing ws' with
  | nil =>
    cases h'
    exact .nil
  | @stop order r L h =>
    rw [h'.of_halts ((Matcher.sameStops_halts hstops).trans h)]
    exact .nil
  | @full order r L t₁ t₂ t₃ h hs =>
    obtain ⟨t₁', t₂', t₃', rfl⟩ := h'.of_full ((Matcher.sameStops_halts hstops).trans h) hs
    apply mirrors_fullWrites hm
    apply hfull
    simp [Matcher.closer, Greedy.closer, h, hs]
  | @part order r L ws t₁ t₂ h hs hp ih =>
    obtain ⟨t₁', t₂', rest, rfl, hp'⟩ := h'.of_part ((Matcher.sameStops_halts hstops).trans h) hs
    have hpart' := hpart.resolve_right fun hhead => absurd (hhead r rfl) hs.not_ge
    apply List.rel_append (mirrors_partWrites hm hpart' t₁ t₂ t₁' t₂')
    rw [hm.rest] at hp'
    apply ih hp' (Matcher.sameStops_part hstops h hs) _ (.inl hpart')
    rw [← Matcher.closer_part h hs]
    exact hfull

/-- Of the first writes only that to a filled order can differ. -/
theorem Plan.mirrors_first (h : Plan m order L ws) (hm : m.Reflects m')
    (h' : Plan m' order.mirror (L.map OrderBook.mirror) ws')
    (hstops : Matcher.sameStops m m' order (L.take 1) = true)
    (hfull : ∀ r, Matcher.closer m order (L.take 1) = some r → FullAgrees m m' order.price r) :
    List.Forall₂ Write.Mirrors (ws.take 1) (ws'.take 1) := by
  cases h with
  | nil =>
    cases h'
    exact .nil
  | @stop _ r L h =>
    rw [h'.of_halts ((Matcher.sameStops_halts hstops).trans h)]
    exact .nil
  | @full _ r L t₁ t₂ t₃ h hs =>
    obtain ⟨t₁', t₂', t₃', rfl⟩ := h'.of_full ((Matcher.sameStops_halts hstops).trans h) hs
    have hagrees : FullAgrees m m' order.price r :=
      hfull r (by simp [Matcher.closer, Greedy.closer, h, hs])
    exact List.forall₂_take 1 (mirrors_fullWrites hm hagrees ..)
  | @part _ r L ws t₁ t₂ h hs hp =>
    obtain ⟨t₁', t₂', rest, rfl, -⟩ := h'.of_part ((Matcher.sameStops_halts hstops).trans h) hs
    refine .cons (.update ?_) .nil
    exact ⟨rfl, fills_mirror r r.size (hm.partMakerPrice _ _), rfl⟩

/-- The row has fills of which the last is at `price`. -/
def OrderBook.LastFill (row : OrderBook) (price : Option ℚ) : Prop :=
  ∃ fills size, row.fills = some (fills ++ [⟨size, price⟩])

/-- The last entry of the fills of a filled order. -/
theorem Plan.own_fills (h : Plan m order L ws) (hne : ∀ r ∈ L, r.id ≠ order.id)
    (hc : Matcher.closer m order L = some r) {row : OrderBook} (hid : row.id = order.id) :
    (rowAfter ws row).LastFill (m.fullTakerPrice order.price r.price) := by
  induction h generalizing row with
  | nil => simp [Matcher.closer, Greedy.closer] at hc
  | stop L h => simp [Matcher.closer, Greedy.closer, h] at hc
  | @full order r' L t₁ t₂ t₃ h hs =>
    have hr := hne r' List.mem_cons_self
    obtain rfl : r' = r := by simpa [Matcher.closer, Greedy.closer, h, hs] using hc
    refine ⟨parseFills order.fills, order.size, ?_⟩
    simp [rowAfter, Matcher.fullWrites, Write.onRow, OrderUpdate.apply, hid, hr.symm]
  | @part order r' L ws t₁ t₂ h hs hp ih =>
    rw [Matcher.closer_part h hs] at hc
    have hafter : rowAfter (m.partWrites order r' t₁ t₂ ++ ws) row =
        rowAfter ws (rowAfter (m.partWrites order r' t₁ t₂) row) := List.foldl_append ..
    rw [hafter]
    apply ih (fun r'' hr'' => hne r'' (List.mem_cons_of_mem _ hr'')) hc
    exact (rowAfter_worked (matching_partWrites m order r' t₁ t₂) row).id.trans hid

/-- It is there after the first write, if the first resting order fills the order. -/
theorem Plan.own_fills_first (h : Plan m order L ws)
    (hc : Matcher.closer m order (L.take 1) = some r) {row : OrderBook} (hid : row.id = order.id) :
    (rowAfter (ws.take 1) row).LastFill (m.fullTakerPrice order.price r.price) := by
  cases h with
  | nil => simp [Matcher.closer, Greedy.closer] at hc
  | stop L h => simp [Matcher.closer, Greedy.closer, h] at hc
  | @full _ r' L t₁ t₂ t₃ h hs =>
    obtain rfl : r' = r := by simpa [Matcher.closer, Greedy.closer, h, hs] using hc
    refine ⟨parseFills order.fills, order.size, ?_⟩
    simp [rowAfter, Matcher.fullWrites, Write.onRow, OrderUpdate.apply, hid]
  | part t₁ t₂ h hs hp => simp [Matcher.closer, Greedy.closer, h, hs.not_ge] at hc

theorem Matcher.closer_mirror (order : OrderBook) (L : List OrderBook) :
    Matcher.closer m' order.mirror (L.map OrderBook.mirror) =
      (Greedy.closer doubles (fun r => m'.halts order.mirror.held r.mirror) OrderBook.size
        order.size L).map OrderBook.mirror :=
  Greedy.closer_map OrderBook.mirror order.size L

/-- The mirror is filled from the mirror. -/
theorem Matcher.closer_of_sameStops (h : Matcher.sameStops m m' order L = true) :
    Matcher.closer m' order.mirror (L.map OrderBook.mirror) =
      (Matcher.closer m order L).map OrderBook.mirror := by
  rw [closer_mirror, Greedy.closer_of_sameStops h]
  rfl

/-- Plans with as many trades stop at the same orders. -/
theorem Plan.sameStops (h : Plan m order L ws)
    (h' : Plan m' order.mirror (L.map OrderBook.mirror) ws')
    (hlength : (ws.filterMap Write.taken).length = (ws'.filterMap Write.taken).length) :
    Matcher.sameStops m m' order L = true := by
  rw [h.taken_eq, h'.taken_eq] at hlength
  unfold Plan.fills at hlength
  rw [Greedy.fills_map, List.length_map] at hlength
  exact Greedy.sameStops_of_length hlength

theorem Plan.eq_nil_iff (h : Plan m order L ws) :
    ws = [] ↔ ∀ r ∈ L.head?, m.halts order.held r = true := by
  cases h with
  | nil => simp
  | stop L h => simp [h]
  | full L t₁ t₂ t₃ h hs => simp [Matcher.fullWrites, h]
  | part t₁ t₂ h hs hp => simp [Matcher.partWrites, h]

/-- Plans that both write something, or both nothing, stop at the same first orders. -/
theorem Plan.sameStops_first (h : Plan m order L ws)
    (h' : Plan m' order.mirror (L.map OrderBook.mirror) ws') (hnil : ws' = [] ↔ ws = []) :
    Matcher.sameStops m m' order (L.take 1) = true := by
  rw [h.eq_nil_iff, h'.eq_nil_iff] at hnil
  cases L with
  | nil => rfl
  | cons r L =>
    simp only [List.map_cons, List.head?_cons, Option.mem_some_iff, forall_eq'] at hnil
    have hsame := Bool.eq_iff_iff.mpr hnil
    simp [Matcher.sameStops, Greedy.sameStops, hsame]

theorem Plan.nil_iff_of_sameStops (h : Plan m order L ws)
    (h' : Plan m' order.mirror (L.map OrderBook.mirror) ws')
    (hstops : Matcher.sameStops m m' order (L.take 1) = true) : ws' = [] ↔ ws = [] := by
  rw [h.eq_nil_iff, h'.eq_nil_iff]
  cases L with
  | nil => simp
  | cons r L =>
    simp only [List.map_cons, List.head?_cons, Option.mem_some_iff, forall_eq']
    exact Bool.eq_iff_iff.mp (Matcher.sameStops_halts hstops)

end Plans

/-! ## Mirrored runs -/

/-- The runs answer alike and leave mirrored tables. -/
def RunsMirrored (run run' : Except Err MatchResult × World) : Prop :=
  run'.1 = run.1 ∧ run.2.db.Mirrored run'.2.db

/-- Over `L` the comparisons of the limit matchers stop at the same orders and their mirrors,
and the resting order that fills the rest of the order has its price. -/
def LimitsAgreeOver (order : OrderBook) (L : List OrderBook) : Prop :=
  Matcher.sameStops buyMatcher sellMatcher order L = true ∧
    ∀ r, Matcher.closer buyMatcher order L = some r → r.price = order.price

/-- This is asked of all that the match walks. Where the symbol has no trade, the emission
after the first write raises, and it is asked of the best order only. -/
def LimitsAgree (order : OrderBook) (w : World) : Prop :=
  (w.db.HasTrade order.symbol → LimitsAgreeOver order (w.array (w.side .SELL)).reverse) ∧
    (¬ w.db.HasTrade order.symbol →
      LimitsAgreeOver order ((w.array (w.side .SELL)).reverse.take 1))

/-- The best resting order is not smaller than a market order, if the symbol has a trade. -/
def MarketsAgree (order : OrderBook) (w : World) : Prop :=
  w.db.HasTrade order.symbol →
    ∀ r ∈ (w.array (w.side .SELL)).getLast?, Double.fl order.size ≤ Double.fl r.size

section Runs

variable {env env' : Env} {m m' : Matcher} {order : OrderBook} {w w' : World}
variable {ws ws' : List Write}

theorem Tables.mirror_hasTrade {db : Tables} {symbol : String} :
    db.mirror.HasTrade symbol ↔ db.HasTrade symbol := by
  unfold Tables.HasTrade
  rw [Tables.mirror_trades]
  simp [Trade.mirror]

/-- The answer where the emission after the first write raises. -/
def OrderBookService.Matcher.stuck (m : Matcher) (ws : List Write) : MatchResult :=
  if ws = [] then m.notEntered else ⟨false, "Failed to place order"⟩

/-- Without failures each run makes its plan, or the first write of it where the symbol has
no trade. -/
theorem World.Mirrored.runs (h : World.Mirrored order w w') (henv : env.Reliable)
    (henv' : env'.Reliable) (hm : m.Reflects m') (hside : m.side = .BUY) (hc : m.Consistent)
    (hc' : m'.Consistent) :
    let L := (w.array (w.side .SELL)).reverse
    let run := (m.run order).run (World.perform env) w
    let run' := (m'.run order.mirror).run (World.perform env') w'
    ∃ ws ws', Plan m order L ws ∧ Plan m' order.mirror (L.map OrderBook.mirror) ws' ∧
      (w.db.HasTrade order.symbol →
        run = (.ok (m.answer ws), run.2) ∧ run' = (.ok (m'.answer ws'), run'.2) ∧
        run.2.db = w.db.writeAll ws ∧ run'.2.db = w.db.mirror.writeAll ws') ∧
      (¬ w.db.HasTrade order.symbol →
        run = (.ok (m.stuck ws), run.2) ∧ run' = (.ok (m'.stuck ws'), run'.2) ∧
        run.2.db = w.db.writeAll (ws.take 1) ∧ run'.2.db = w.db.mirror.writeAll (ws'.take 1)) := by
  intro L run run'
  have hopposite : m.side.opposite = .SELL := by rw [hside]; rfl
  have hopposite' : m'.side.opposite = .BUY := by rw [hm.side, hside]; rfl
  have hheld : w.side m.side.opposite < w.arrays.length := hopposite ▸ h.held
  have hheld' : w'.side m'.side.opposite < w'.arrays.length := hopposite' ▸ h.held'
  have hL : (w'.array (w'.side .BUY)).reverse = L.map OrderBook.mirror := by
    rw [h.array, List.map_reverse]
  by_cases hT : w.db.HasTrade order.symbol
  · have hT' : w'.db.HasTrade order.mirror.symbol := by
      rw [h.db]
      exact Tables.mirror_hasTrade.mpr hT
    obtain ⟨ws, hplan, hans, hdb, -⟩ := matcher_complete henv hc order hheld hT
    obtain ⟨ws', hplan', hans', hdb', -⟩ := matcher_complete henv' hc' order.mirror hheld' hT'
    rw [hopposite] at hplan
    rw [hopposite', hL] at hplan'
    exact ⟨ws, ws', hplan, hplan',
      fun _ => ⟨Prod.ext hans rfl, Prod.ext hans' rfl, hdb, h.db ▸ hdb'⟩, fun hn => absurd hT hn⟩
  · have hT' : ¬ w'.db.HasTrade order.mirror.symbol := by
      rw [h.db]
      exact fun hn => hT (Tables.mirror_hasTrade.mp hn)
    obtain ⟨ws, hplan, hans, hdb⟩ := matcher_stuck henv hc order hheld hT
    obtain ⟨ws', hplan', hans', hdb'⟩ := matcher_stuck henv' hc' order.mirror hheld' hT'
    rw [hopposite] at hplan
    rw [hopposite', hL] at hplan'
    exact ⟨ws, ws', hplan, hplan', fun hp => absurd hp hT,
      fun _ => ⟨Prod.ext hans rfl, Prod.ext hans' rfl, hdb, h.db ▸ hdb'⟩⟩

/-- In mirrored tables the last fills of the order are at mirrored prices. -/
theorem World.Mirrored.last_fill {price price' : Option ℚ} (h : World.Mirrored order w w')
    (hws : ∀ wr ∈ ws, wr.Matching) (hws' : ∀ wr ∈ ws', wr.Matching)
    (hdb : (w.db.writeAll ws).Mirrored (w.db.mirror.writeAll ws'))
    (hlast : ∀ row : OrderBook, row.id = order.id → (rowAfter ws row).LastFill price)
    (hlast' : ∀ row : OrderBook, row.id = order.id → (rowAfter ws' row).LastFill price') :
    price' = mirrorPrice price := by
  obtain ⟨row, hrow, hid⟩ := h.stored
  have horders := hdb.orders
  rw [Tables.writeAll_rows hws, Tables.writeAll_rows hws', Tables.mirror_orders, List.map_map,
    List.map_map, List.map_map] at horders
  have hfills : (rowAfter ws' row.mirror).fills =
      (rowAfter ws row).fills.map fun fills => fills.map Fill.mirror :=
    congrArg OrderBook.fills (List.map_inj_left.mp horders row hrow)
  obtain ⟨fills, size, hown⟩ := hlast row hid
  obtain ⟨fills', size', hown'⟩ := hlast' row.mirror hid
  rw [hown, hown'] at hfills
  have hentries : fills' ++ [⟨size', price'⟩] =
      (fills ++ [(⟨size, price⟩ : Fill)]).map Fill.mirror := Option.some.inj hfills
  rw [List.map_append] at hentries
  exact congrArg Fill.price (List.singleton_inj.mp (List.append_inj' hentries rfl).2)

theorem World.Mirrored.others' (h : World.Mirrored order w w') :
    ∀ r ∈ (w.array (w.side .SELL)).reverse.map OrderBook.mirror, r.id ≠ order.id := by
  intro r hr
  obtain ⟨r₀, hr₀, rfl⟩ := List.mem_map.mp hr
  exact h.others r₀ (List.mem_reverse.mp hr₀)

/-! ## The limit matchers -/

theorem buyMatcher_reflects : buyMatcher.Reflects sellMatcher where
  side := rfl
  type := rfl
  notEntered := rfl
  full_is_buyer := rfl
  partTakerPrice _ _ := rfl
  partMakerPrice _ _ := rfl

/-- The limit matchers choose their prices the other way round in the last pass. -/
theorem fullAgrees_limit {price : Option ℚ} {r : OrderBook} :
    FullAgrees buyMatcher sellMatcher price r ↔ r.price = price := by
  constructor
  · rintro ⟨htaker, -⟩
    exact (mirrorPrice_inj.mp htaker).symm
  · intro h
    subst h
    exact ⟨rfl, rfl⟩

/-- In mirrored tables the order that fills the incoming one has its price. -/
theorem World.Mirrored.closer_price {L : List OrderBook} (h : World.Mirrored order w w')
    (hws : ∀ wr ∈ ws, wr.Matching) (hws' : ∀ wr ∈ ws', wr.Matching)
    (hmirrored : (w.db.writeAll ws).Mirrored (w.db.mirror.writeAll ws'))
    (hlast : ∀ r, Matcher.closer buyMatcher order L = some r → ∀ row : OrderBook,
      row.id = order.id → (rowAfter ws row).LastFill r.price)
    (hlast' : ∀ r, Matcher.closer sellMatcher order.mirror (L.map OrderBook.mirror) = some r →
      ∀ row : OrderBook, row.id = order.id → (rowAfter ws' row).LastFill order.mirror.price)
    (hstops : Matcher.sameStops buyMatcher sellMatcher order L = true) :
    LimitsAgreeOver order L := by
  refine ⟨hstops, fun r hr => ?_⟩
  have hr' := Matcher.closer_of_sameStops hstops
  rw [hr] at hr'
  have hprice := h.last_fill hws hws' hmirrored (hlast r hr) (hlast' r.mirror hr')
  exact (mirrorPrice_inj.mp hprice).symm

/-- All writes of a match are mirrored iff the matchers agree over the snapshot. -/
theorem limit_writes_mirrored (h : World.Mirrored order w w')
    (hplan : Plan buyMatcher order (w.array (w.side .SELL)).reverse ws)
    (hplan' : Plan sellMatcher order.mirror
      ((w.array (w.side .SELL)).reverse.map OrderBook.mirror) ws') :
    (w.db.writeAll ws).Mirrored (w.db.mirror.writeAll ws') ↔
      LimitsAgreeOver order (w.array (w.side .SELL)).reverse := by
  constructor
  · intro hmirrored
    have htrades := congrArg List.length (hmirrored.untimed hplan.matching hplan'.matching)
    rw [List.length_map, length_untimed, length_untimed] at htrades
    apply h.closer_price hplan.matching hplan'.matching hmirrored _ _
      (hplan.sameStops hplan' htrades.symm)
    · exact fun r hr row hid => hplan.own_fills (by simpa using h.others) hr hid
    · exact fun r hr row hid => hplan'.own_fills h.others' hr hid
  · rintro ⟨hstops, hprice⟩
    apply Tables.mirrored_writeAll _ _ hplan.matching hplan'.matching
    exact hplan.mirrors buyMatcher_reflects hplan' hstops
      (fun r hr => fullAgrees_limit.mpr (hprice r hr)) (.inl rfl)

theorem matching_first (h : ∀ wr ∈ ws, wr.Matching) : ∀ wr ∈ ws.take 1, wr.Matching :=
  fun wr hwr => h wr (List.mem_of_mem_take hwr)

/-- For the first write only the best resting order matters. -/
theorem limit_first_mirrored (h : World.Mirrored order w w')
    (hplan : Plan buyMatcher order (w.array (w.side .SELL)).reverse ws)
    (hplan' : Plan sellMatcher order.mirror
      ((w.array (w.side .SELL)).reverse.map OrderBook.mirror) ws') :
    (ws' = [] ↔ ws = []) ∧
        (w.db.writeAll (ws.take 1)).Mirrored (w.db.mirror.writeAll (ws'.take 1)) ↔
      LimitsAgreeOver order ((w.array (w.side .SELL)).reverse.take 1) := by
  have hfirst := matching_first hplan.matching
  have hfirst' := matching_first hplan'.matching
  constructor
  · rintro ⟨hnil, hmirrored⟩
    apply h.closer_price hfirst hfirst' hmirrored _ _ (hplan.sameStops_first hplan' hnil)
    · exact fun r hr row hid => hplan.own_fills_first hr hid
    · intro r hr row hid
      rw [List.map_take] at hr
      exact hplan'.own_fills_first hr hid
  · rintro ⟨hstops, hprice⟩
    refine ⟨hplan.nil_iff_of_sameStops hplan' hstops, ?_⟩
    apply Tables.mirrored_writeAll _ _ hfirst hfirst'
    exact hplan.mirrors_first buyMatcher_reflects hplan' hstops
      fun r hr => fullAgrees_limit.mpr (hprice r hr)

theorem limit_answer (ws : List Write) : buyMatcher.answer ws = ⟨true, "Ok"⟩ ∧
    sellMatcher.answer ws = ⟨true, "Ok"⟩ := by
  unfold Matcher.answer
  split <;> exact ⟨rfl, rfl⟩

/-- Where the first emission raises, the answers tell whether anything was written. -/
theorem limit_stuck : sellMatcher.stuck ws' = buyMatcher.stuck ws ↔ (ws' = [] ↔ ws = []) := by
  unfold Matcher.stuck
  by_cases hws : ws = [] <;> by_cases hws' : ws' = [] <;>
    simp [hws, hws', buyMatcher, sellMatcher]

/-- The runs of the limit matchers are mirrors iff they agree over what they can write to. -/
theorem limits_mirrored (h : World.Mirrored order w w') (henv : env.Reliable)
    (henv' : env'.Reliable) :
    RunsMirrored ((matchBuyOrder order).run (World.perform env) w)
      ((matchSellOrder order.mirror).run (World.perform env') w') ↔ LimitsAgree order w := by
  obtain ⟨ws, ws', hplan, hplan', htrade, hstuck⟩ := h.runs henv henv' buyMatcher_reflects rfl
    buyMatcher_consistent sellMatcher_consistent
  unfold RunsMirrored LimitsAgree matchBuyOrder matchSellOrder
  by_cases hT : w.db.HasTrade order.symbol
  · obtain ⟨hans, hans', hdb, hdb'⟩ := htrade hT
    rw [hdb, hdb', hans, hans', (limit_answer ws).1, (limit_answer ws').2,
      limit_writes_mirrored h hplan hplan']
    simp [hT]
  · obtain ⟨hans, hans', hdb, hdb'⟩ := hstuck hT
    rw [hdb, hdb', hans, hans', ← limit_first_mirrored h hplan hplan', ← limit_stuck]
    simp [hT]

/-! ## The market matchers -/

theorem marketBuyMatcher_reflects : marketBuyMatcher.Reflects marketSellMatcher where
  side := rfl
  type := rfl
  notEntered := rfl
  full_is_buyer := rfl
  partTakerPrice _ _ := rfl
  partMakerPrice _ _ := rfl

theorem fullAgrees_market {price : Option ℚ} {r : OrderBook} :
    FullAgrees marketBuyMatcher marketSellMatcher price r := ⟨rfl, rfl⟩

/-- The first trade of a plan that takes the whole of the first resting order. -/
theorem Plan.first_is_buyer {L : List OrderBook} {r : OrderBook} (h : Plan m order (r :: L) ws)
    (hr : m.halts order.held r = false)
    (hs : Double.fl r.size < Double.fl order.size) :
    ∃ t l, ws.filterMap Write.untimed = t :: l ∧ t.is_buyer = m.part_is_buyer := by
  obtain ⟨t₁, t₂, rest, rfl, -⟩ := h.of_part hr hs
  exact ⟨_, _, rfl, rfl⟩

theorem Matcher.sameStops_market (L : List OrderBook) :
    Matcher.sameStops marketBuyMatcher marketSellMatcher order L = true :=
  Greedy.sameStops_of_length rfl

theorem market_answer (h : ws' = [] ↔ ws = []) :
    marketSellMatcher.answer ws' = marketBuyMatcher.answer ws ∧
      marketSellMatcher.stuck ws' = marketBuyMatcher.stuck ws := by
  unfold Matcher.answer Matcher.stuck
  by_cases hws : ws = []
  · rw [if_pos hws, if_pos (h.mpr hws), if_pos hws, if_pos (h.mpr hws)]
    exact ⟨rfl, rfl⟩
  · rw [if_neg hws, if_neg (mt h.mp hws), if_neg hws, if_neg (mt h.mp hws)]
    exact ⟨rfl, rfl⟩

/-- The runs of the market matchers are mirrors iff no resting order is taken whole. -/
theorem markets_mirrored (h : World.Mirrored order w w') (henv : env.Reliable)
    (henv' : env'.Reliable) :
    RunsMirrored ((matchMarketBuyOrder order).run (World.perform env) w)
      ((matchMarketSellOrder order.mirror).run (World.perform env') w') ↔
        MarketsAgree order w := by
  obtain ⟨ws, ws', hplan, hplan', htrade, hstuck⟩ := h.runs henv henv'
    marketBuyMatcher_reflects rfl marketBuyMatcher_consistent marketSellMatcher_consistent
  have hws := hplan.matching
  have hws' := hplan'.matching
  obtain ⟨hanswer, hanswer'⟩ := market_answer
    (hplan.nil_iff_of_sameStops hplan' (Matcher.sameStops_market _))
  unfold RunsMirrored MarketsAgree matchMarketBuyOrder matchMarketSellOrder
  rw [← List.head?_reverse]
  by_cases hT : w.db.HasTrade order.symbol
  · obtain ⟨hans, hans', hdb, hdb'⟩ := htrade hT
    rw [hdb, hdb', hans, hans', hanswer]
    constructor
    · rintro ⟨-, hmirrored⟩ - r hr
      by_contra hsize
      obtain ⟨L, hL⟩ : ∃ L, (w.array (w.side .SELL)).reverse = r :: L := by
        cases hl : (w.array (w.side .SELL)).reverse with
        | nil => simp [hl] at hr
        | cons r' L =>
          rw [hl] at hr
          exact ⟨L, congrArg (· :: L) (Option.some.inj hr)⟩
      rw [hL] at hplan hplan'
      obtain ⟨t, l, ht, his⟩ := hplan.first_is_buyer rfl (not_le.mp hsize)
      obtain ⟨t', l', ht', his'⟩ := hplan'.first_is_buyer (r := r.mirror) rfl (not_le.mp hsize)
      have htrades := hmirrored.untimed hws hws'
      rw [ht, ht'] at htrades
      have hflag : t'.is_buyer = 1 - t.is_buyer :=
        congrArg Trade.is_buyer (List.cons.inj htrades).1
      rw [his, his'] at hflag
      cases hflag
    · intro hagree
      refine ⟨rfl, Tables.mirrored_writeAll _ ?_ hws hws'⟩
      exact hplan.mirrors marketBuyMatcher_reflects hplan' (Matcher.sameStops_market _)
        (fun _ _ => fullAgrees_market) (.inr (hagree hT))
  · obtain ⟨hans, hans', hdb, hdb'⟩ := hstuck hT
    rw [hdb, hdb', hans, hans', hanswer']
    refine ⟨fun _ hp => absurd hp hT, fun _ => ⟨rfl, ?_⟩⟩
    apply Tables.mirrored_writeAll _ _ (matching_first hws) (matching_first hws')
    exact hplan.mirrors_first marketBuyMatcher_reflects hplan' (Matcher.sameStops_market _)
      fun _ _ => fullAgrees_market

/-- **Selling is buying mirrored** exactly where the limit matchers stop at the same orders and
fill a limit order at its own price, and a market order takes no resting order whole. -/
theorem mirrored_iff (h : World.Mirrored order w w') (henv : env.Reliable)
    (henv' : env'.Reliable) :
    (RunsMirrored ((matchBuyOrder order).run (World.perform env) w)
      ((matchSellOrder order.mirror).run (World.perform env') w') ↔ LimitsAgree order w) ∧
    (RunsMirrored ((matchMarketBuyOrder order).run (World.perform env) w)
      ((matchMarketSellOrder order.mirror).run (World.perform env') w') ↔ MarketsAgree order w) :=
  ⟨limits_mirrored h henv henv', markets_mirrored h henv henv'⟩

end Runs

/-- A SELL of 3 at 11, one of 1 at `best`, and the row of a BUY at 11 that is to be matched. -/
def Tables.crossing (best size : ℚ) : Tables :=
  traded.place [.btc 1 .SELL 11 3, .btc 1 .SELL best 1, .btc 2 .BUY 11 size]

def Tables.crossed (best size : ℚ) : List OrderBook :=
  (crossing best size).findOrders .SELL "BTC/USDT" 100 .DESC

def World.crossing (best size : ℚ) : World :=
  { World.start (Tables.crossing best size) with arrays := [[], Tables.crossed best size] }

def World.crossingMirror (best size : ℚ) : World :=
  { World.start (Tables.crossing best size).mirror with
    arrays := [(Tables.crossed best size).map OrderBook.mirror, []] }

theorem mirrored_crossing {best size : ℚ}
    (hrow : ∃ row ∈ (Tables.crossing best size).tbl_order_books.rows, row.id = 3)
    (hother : ∀ r ∈ Tables.crossed best size, r.id ≠ 3) :
    World.Mirrored (toMatch size) (World.crossing best size) (World.crossingMirror best size) :=
  ⟨rfl, Nat.one_lt_two, Nat.zero_lt_two, rfl, hrow, hother⟩

/-- A BUY of 2 at 11 that takes 1 at 11 and 1 of the 3 at 11: mirrored as a limit order, but
not as a market order. -/
theorem mirrored_buy :
    let w := World.crossing 11 2
    let w' := World.crossingMirror 11 2
    RunsMirrored ((matchBuyOrder (toMatch 2)).run (World.perform .steady) w)
        ((matchSellOrder (toMatch 2).mirror).run (World.perform .steady) w') ∧
      ¬ RunsMirrored ((matchMarketBuyOrder (toMatch 2)).run (World.perform .steady) w)
        ((matchMarketSellOrder (toMatch 2).mirror).run (World.perform .steady) w') := by
  intro w w'
  have h : World.Mirrored (toMatch 2) w w' := by
    apply mirrored_crossing <;> decide +kernel
  have hagree := mirrored_iff h Env.steady_reliable Env.steady_reliable
  have hT : w.db.HasTrade "BTC/USDT" := by
    unfold Tables.HasTrade
    decide +kernel
  constructor
  · have hcloser : (Matcher.closer buyMatcher (toMatch 2) (w.array (w.side .SELL)).reverse).map
        OrderBook.price = some (toMatch 2).price := by
      decide +kernel
    refine hagree.1.mpr ⟨fun _ => ⟨by decide +kernel, fun r hr => ?_⟩, fun hn => absurd hT hn⟩
    rw [hr] at hcloser
    exact Option.some.inj hcloser
  · intro hrun
    exact absurd (hagree.2.mp hrun hT) (by decide +kernel)

/-- A BUY of 1 at 11 that trades at 10, where its mirror does not trade, and a market BUY of
2 that takes 1 at 10 whole. -/
theorem mirror_makes_no_trade :
    let w := World.crossing 10
    let w' := World.crossingMirror 10
    let run := (matchBuyOrder (toMatch 1)).run (World.perform .steady) (w 1)
    let run' := (matchSellOrder (toMatch 1).mirror).run (World.perform .steady) (w' 1)
    let market := (matchMarketBuyOrder (toMatch 2)).run (World.perform .steady) (w 2)
    let market' := (matchMarketSellOrder (toMatch 2).mirror).run (World.perform .steady) (w' 2)
    Env.steady.Reliable ∧
      World.Mirrored (toMatch 1) (w 1) (w' 1) ∧ ¬ RunsMirrored run run' ∧
      World.Mirrored (toMatch 2) (w 2) (w' 2) ∧ ¬ RunsMirrored market market' := by
  intro w w' run run' market market'
  refine ⟨Env.steady_reliable, ?_, ?_, ?_, ?_⟩
  · apply mirrored_crossing <;> decide +kernel
  · rintro ⟨-, hmirrored⟩
    exact absurd hmirrored.orders (by decide +kernel)
  · apply mirrored_crossing <;> decide +kernel
  · rintro ⟨-, hmirrored⟩
    exact absurd hmirrored.trades (by decide +kernel)

end Exchange
