import Exchange.Market.Auction
import Exchange.OrderBook.Crossed
import Exchange.OrderBook.Reference
import Mathlib.Data.List.TakeWhile

/-!
# The order book as an auction

What the matching is for: the open orders of the tables are the book of an
auction (`Tables.book`), and a request places an order in it. `serveAll_auction`:
every run in which no call fails, in which each match compares and subtracts as the
numbers are, no order behind the hundred that are fetched is within a limit, and an
order without a limit is filled, is a run of the auction, whose deals are the trades
that it records.
-/

namespace Exchange

open Async OrderBookService Store

/-! ## What the tables and the requests mean -/

def Side.auction : Side → Auction.Side
  | .BUY => .bid
  | .SELL => .ask

@[simp] theorem Side.auction_opposite (side : Side) :
    side.opposite.auction = side.auction.opposite := by
  cases side <;> rfl

theorem Side.auction_inj {side side' : Side} : side.auction = side'.auction ↔ side = side' := by
  cases side <;> cases side' <;> simp [auction]

/-- An open order as an offer at `p`. -/
def OrderBook.at (r : OrderBook) (p : ℚ) : Auction.Offer ℕ String ℚ ℚ :=
  ⟨r.uid, r.symbol, r.side.auction, p, r.size⟩

/-- What the row offers. -/
def OrderBook.offer (r : OrderBook) : Option (Auction.Offer ℕ String ℚ ℚ) :=
  if r.is_filled then none else r.price.map r.at

/-- The book of the tables: the open orders, by the keys of their rows. -/
def Tables.book (db : Tables) : Auction.Book ℕ ℕ String ℚ ℚ := fun id =>
  (db.tbl_order_books.rows.find? fun r => r.id = id).bind OrderBook.offer

/-- What a request asks for. -/
def Request.auction (req : Request) : Auction.Order ℕ String ℚ ℚ :=
  ⟨req.uid, req.symbol, req.side.auction, req.price, req.size⟩

/-- The orders of a run under the keys of their rows. -/
def placed (env : Env) : List Request → World → List (ℕ × Auction.Order ℕ String ℚ ℚ)
  | [], _ => []
  | req :: reqs, w =>
      (w.db.tbl_order_books.next, req.auction) :: placed env reqs (req.serve env w).2

/-- What a trade and a deal have in common. -/
def Trade.terms (t : Trade) : Deal × String := (t.deal, t.symbol)

def Write.terms : Write → Option (Deal × String)
  | .trade t _ => some (t.deal, t.symbol)
  | _ => none

def terms (d : Auction.Deal ℕ ℕ String ℚ ℚ) : Deal × String :=
  (⟨d.buyer, d.seller, some d.price, d.size⟩, d.market)

/-! ## The tables and the requests of the theorem -/

/-- Numbers that their columns hold; the open orders have prices and sizes. -/
structure Tables.Clean (db : Tables) : Prop where
  stored : db.Stored
  priced : db.Priced
  sizes : ∀ r ∈ db.tbl_order_books.rows, r.is_filled = false → 0 < r.size

/-- The price of the resting order is beyond the limit of the request. -/
def Request.beyond (req : Request) (r : OrderBook) : Bool :=
  match req.price, req.side with
  | none, _ => false
  | some p, .BUY => p < number r.price
  | some p, .SELL => number r.price < p

/-- The condition on a step: the comparisons and the subtractions of the match say what the
numbers say, no order behind the limit of the query is within the price, and an order
without a limit is covered. -/
structure Auctioned (req : Request) (w : World) : Prop where
  pos : 0 < req.size
  price : ∀ p ∈ req.price, IsDecimal 8 p
  steps : sameSteps (req.matcher.halts req.held) req.beyond req.size req.size
    (req.resting w) = true
  seen : ∀ r ∈ w.db.unfetched req.side.opposite req.symbol, req.beyond r = true
  covered : req.price = none → req.size ≤ ((req.resting w).map OrderBook.size).sum

section Book

variable {db : Tables} {r : OrderBook} {id : ℕ} {x : Auction.Offer ℕ String ℚ ℚ}

theorem Tables.book_of_mem (h : r ∈ db.tbl_order_books.rows) : db.book r.id = r.offer := by
  unfold book
  cases hfind : db.tbl_order_books.rows.find? fun r' => r'.id = r.id with
  | none => simpa using List.find?_eq_none.mp hfind r h
  | some r' =>
    have hid : r'.id = r.id := by simpa using List.find?_some hfind
    rw [Table.eq_of_key (List.mem_of_find?_eq_some hfind) h hid]
    rfl

theorem Tables.book_of_fresh (h : ∀ r ∈ db.tbl_order_books.rows, r.id ≠ id) :
    db.book id = none := by
  unfold book
  rw [List.find?_eq_none.mpr]
  · rfl
  · simpa using h

theorem Tables.exists_of_book (h : db.book id = some x) :
    ∃ r ∈ db.tbl_order_books.rows, r.id = id ∧ r.offer = some x := by
  unfold book at h
  obtain ⟨r, hr, hx⟩ := Option.bind_eq_some_iff.mp h
  exact ⟨r, List.mem_of_find?_eq_some hr, by simpa using List.find?_some hr, hx⟩

theorem OrderBook.offer_eq_some : r.offer = some x ↔
    r.is_filled = false ∧ ∃ p, r.price = some p ∧ r.at p = x := by
  unfold offer
  cases r.is_filled <;> simp [Option.map_eq_some_iff]

theorem OrderBook.offer_of_filled (h : r.is_filled = true) : r.offer = none := by
  simp [offer, h]

end Book

section Step

variable {env : Env} {req : Request} {w w' : World} {res : Except Err Response}
  {ws : List Write} {r : OrderBook} {p : ℚ}

/-- The request accepts what is not beyond its limit. -/
theorem beyond_iff_accepts (hp : r.price = some p) :
    req.beyond r = false ↔ req.auction.accepts p := by
  have hnumber : number r.price = p := by rw [hp]; rfl
  cases hlimit : req.price <;> cases hside : req.side <;>
    simp [Request.beyond, Request.auction, Auction.Order.accepts, Auction.Side.better, Side.auction,
      hlimit, hside, hnumber]

/-- Along the walk the prices get no better. -/
theorem resting_best_first (hw : w.db.Priced) :
    (req.resting w).Pairwise fun a b =>
      ¬ req.auction.side.better (number b.price) (number a.price) := by
  have hsorted := w.db.resting_pairwise req.side.opposite req.symbol
  refine List.Pairwise.imp_of_mem ?_ hsorted
  intro a b ha hb hab
  obtain ⟨p, hp⟩ := Option.isSome_iff_exists.mp
    (hw a (Request.resting_rows ha).1 (Request.resting_rows ha).2)
  obtain ⟨q, hq⟩ := Option.isSome_iff_exists.mp
    (hw b (Request.resting_rows hb).1 (Request.resting_rows hb).2)
  have hside : req.auction.side = req.side.auction := rfl
  rw [hside]
  cases hs : req.side <;>
    simp only [hs, byPrice, Side.opposite, Side.fetched, thenBy, priceLe, hp, hq,
      Bool.and_eq_true, decide_eq_true_eq] at hab <;>
    simp only [Side.auction, Auction.Side.better, number, hp, hq, Option.getD_some, not_lt]
  · exact hab.1
  · exact hab.1

/-- A resting order stands in the book. -/
theorem resting_offer (hw : w.db.Clean) (hr : r ∈ req.resting w) :
    w.db.book r.id = some (r.at (number r.price)) ∧ r.symbol = req.symbol ∧
      r.side = req.side.opposite ∧ 0 < r.size ∧ r.price = some (number r.price) := by
  have hopen := Tables.mem_openOrders.mp (Tables.mem_openOrders_iff.mpr (.inl hr))
  obtain ⟨p, hp⟩ := Option.isSome_iff_exists.mp (hw.priced r hopen.1 hopen.2.2.2)
  have hnumber : r.price = some (number r.price) := by simp [number, hp]
  refine ⟨?_, hopen.2.2.1, hopen.2.1, hw.sizes r hopen.1 hopen.2.2.2, hnumber⟩
  rw [Tables.book_of_mem hopen.1, OrderBook.offer_eq_some]
  exact ⟨hopen.2.2.2, _, hnumber, rfl⟩

/-- An offer that the request accepts is one of the resting orders. -/
theorem acceptable_resting (h : Auctioned req w) {k : ℕ} {x : Auction.Offer ℕ String ℚ ℚ}
    (hx : w.db.book.Acceptable req.auction k x) :
    ∃ r ∈ req.resting w, r.id = k ∧ r.at (number r.price) = x := by
  obtain ⟨r, hr, rfl, hoffer⟩ := Tables.exists_of_book hx.stands
  obtain ⟨hopen, p, hp, rfl⟩ := OrderBook.offer_eq_some.mp hoffer
  have hside : r.side = req.side.opposite := by
    rw [← Side.auction_inj, Side.auction_opposite]
    exact hx.side
  have hmem : r ∈ w.db.openOrders req.side.opposite req.symbol :=
    Tables.mem_openOrders.mpr ⟨hr, hside, hx.market, hopen⟩
  rcases Tables.mem_openOrders_iff.mp hmem with hfetched | hbehind
  · exact ⟨r, hfetched, rfl, by simp [number, hp]⟩
  · have hgo := (beyond_iff_accepts hp).mpr hx.price
    rw [h.seen r hbehind] at hgo
    cases hgo

/-- The walk of the request over the resting orders. -/
def Request.takes (req : Request) (w : World) : List (OrderBook × ℚ) :=
  Greedy.walk req.beyond OrderBook.size req.size (req.resting w)

/-- The walk of a request is a match of the auction. -/
theorem takes_match (hw : w.db.Clean) (h : Auctioned req w) :
    Auction.Match w.db.tbl_order_books.next req.auction w.db.book req.size
      ((req.takes w).map fun f => req.auction.deal w.db.tbl_order_books.next f.1.id
        (f.1.at (number f.1.price)) f.2)
      (w.db.book.takeAll OrderBook.id (fun r => r.at (number r.price)) (req.takes w))
      (req.size - ((req.takes w).map Prod.snd).sum) := by
  apply Auction.Match.of_walk (L := req.resting w) (k := OrderBook.id)
    (x := fun r => r.at (number r.price)) h.pos.le
  · intro r hr
    exact beyond_iff_accepts (resting_offer hw hr).2.2.2.2
  · intro r hr
    obtain ⟨hbook, hsymbol, hside, hsize, -⟩ := resting_offer hw hr
    refine ⟨hbook, hsymbol, ?_, hsize⟩
    change r.side.auction = _
    rw [hside, Side.auction_opposite]
    rfl
  · exact fun k x hx => acceptable_resting h hx
  · exact resting_best_first hw.priced
  · exact Tables.resting_nodup ..

/-- The trades of a plan, and where they are made. -/
theorem Plan.terms {m : Matcher} {order : OrderBook} {L : List OrderBook}
    (h : Plan m order L ws) (db : Tables) :
    ∃ rows, (db.writeAll ws).tbl_trades.rows = db.tbl_trades.rows ++ rows ∧
      rows.map Trade.terms = (fills m order L).map fun f =>
        ((m.trade order f.1 f.2 0 0).deal, order.symbol) := by
  obtain ⟨rows, hrows, hterms⟩ := db.writeAll_reads (φ := Trade.terms)
    (ψ := Write.terms) (fun _ _ _ => rfl) (fun _ _ _ => rfl) h.matching
  refine ⟨rows, hrows, hterms.trans ?_⟩
  clear hterms hrows
  induction h with
  | nil => rfl
  | stop L h => rw [fills_stop h]; rfl
  | full L t₁ t₂ t₃ h hs => rw [fills_full h hs]; rfl
  | part t₁ t₂ h hs hp ih =>
    rw [fills_part h hs, List.filterMap_append, ih]
    rfl

/-- A complete plan, and what it makes of the tables. -/
structure Completed (req : Request) (env : Env) (w w' : World) (ws : List Write) : Prop where
  plan : Plan req.matcher (req.taker env w) (req.resting w) ws
  db : w'.db = (req.inserted env w).writeAll ws

theorem serve_completed (henv : env.Reliable) (hT : w.db.HasTrade req.symbol) :
    ∃ ws, Completed req env w (req.serve env w).2 ws := by
  rcases serve_served env req w with ⟨hf, -⟩ | ⟨ws, done, hh⟩
  · rw [henv] at hf
    cases hf
  · have hdone := hh.complete hT (fun n o _ => henv n o) (fun wr _ n => henv n wr.op)
    exact ⟨ws, hh.plan, hdone ▸ hh.db⟩

theorem Completed.rows (h : Completed req env w w' ws) : w'.db.tbl_order_books.rows =
    (w.db.tbl_order_books.rows ++ [req.row env w]).map (rowAfter ws) := by
  rw [h.db, Tables.writeAll_rows h.plan.matching, Request.inserted_rows]

/-- The book under the key of a row that was there or was inserted. -/
theorem Completed.book (h : Completed req env w w' ws)
    (hr : r ∈ w.db.tbl_order_books.rows ++ [req.row env w]) :
    w'.db.book r.id = (rowAfter ws r).offer := by
  have hmem : rowAfter ws r ∈ w'.db.tbl_order_books.rows := by
    rw [h.rows]
    exact List.mem_map_of_mem hr
  rw [← Tables.book_of_mem hmem, (rowAfter_worked h.plan.matching r).id]

/-- The rest of the order of the request. -/
def Request.rest (req : Request) (w : World) : ℚ :=
  req.size - ((req.takes w).map Prod.snd).sum

theorem Completed.resting_ne (hr : r ∈ req.resting w) : r.id ≠ (req.taker env w).id := by
  have hlt := Request.resting_lt hr
  rw [Request.taker_id]
  exact hlt.ne

/-- The resting orders are open orders, as their columns hold them. -/
theorem Tables.Clean.openOrders (hw : w.db.Clean) (req : Request) :
    OpenOrders (req.resting w) where
  nodup := Tables.resting_nodup ..
  opened _ hr := (Request.resting_rows hr).2
  pos r hr := hw.sizes r (Request.resting_rows hr).1 (Request.resting_rows hr).2
  sizes r hr := hw.stored.sizes r (Request.resting_rows hr).1
  prices r hr := hw.stored.prices r (Request.resting_rows hr).1

/-- The match writes what the walk takes. -/
theorem Completed.walked (h : Completed req env w w' ws) (hw : w.db.Clean)
    (hA : Auctioned req w) :
    Walked req.beyond req.matcher (req.taker env w) (req.resting w) ws := by
  apply (h.plan.walked_iff (by simpa using hA.pos) (hw.openOrders req)
    fun r hr => Completed.resting_ne hr).mpr
  rw [Request.taker_held, Request.taker_size]
  exact hA.steps

theorem Completed.takes_eq (h : Completed req env w w' ws) (hw : w.db.Clean)
    (hA : Auctioned req w) :
    (Plan.fills req.matcher (req.taker env w) (req.resting w)).map
      (fun f => (f.1, roundTo 8 f.2)) = req.takes w := by
  rw [(h.walked hw hA).taken, Request.taker_size, Request.takes]

/-- The row of the order after its match. -/
theorem Completed.own (h : Completed req env w w' ws) (hw : w.db.Clean) (hA : Auctioned req w) :
    (rowAfter ws (req.row env w)).Holds (req.rest w) := by
  have hown := (h.walked hw hA).incoming (req.row env w) rfl (by simp) rfl
  rwa [Request.taker_size] at hown

/-- The row of an order from which something was taken. -/
theorem Completed.taken (h : Completed req env w w' ws) (hw : w.db.Clean) (hA : Auctioned req w)
    {f : OrderBook × ℚ} (hf : f ∈ req.takes w) : (rowAfter ws f.1).Holds (f.1.size - f.2) := by
  have hrow := (h.walked hw hA).resting f.1 (Greedy.mem_of_walk hf)
  rw [Request.taker_size] at hrow
  unfold Request.takes at hf
  rwa [takenFrom_of_mem (walk_nodup_id (hw.openOrders req) _) hf] at hrow

/-- A row from which nothing was taken. -/
theorem Completed.untouched (h : Completed req env w w' ws) (hw : w.db.Clean)
    (hA : Auctioned req w) (hr : r ∈ w.db.tbl_order_books.rows)
    (hnot : ∀ f ∈ req.takes w, f.1.id ≠ r.id) : rowAfter ws r = r := by
  apply rowAfter_untouched
  intro ht
  rcases h.plan.touches ht with ⟨he, -⟩ | ⟨f, hf, he⟩
  · have hlt := w.db.tbl_order_books.fresh r hr
    rw [he, Request.taker_id] at hlt
    exact lt_irrefl _ hlt
  · refine hnot (f.1, roundTo 8 f.2) ?_ he.symm
    rw [← h.takes_eq hw hA]
    exact List.mem_map_of_mem hf

/-- What is left of the order is not negative. -/
theorem Auctioned.rest_nonneg (hw : w.db.Clean) (h : Auctioned req w) : 0 ≤ req.rest w := by
  have hle : Greedy.amount (fun _ => true) (req.takes w) ≤ req.size :=
    (Greedy.amount_le h.pos.le fun r hr => (resting_offer hw hr).2.2.2.1).2
  have hall : Greedy.amount (fun _ => true) (req.takes w) =
      ((req.takes w).map Prod.snd).sum := by
    simp [Greedy.amount]
  unfold Request.rest
  rw [← hall]
  exact sub_nonneg.mpr hle

/-- An order without a limit is filled. -/
theorem Auctioned.filled (hw : w.db.Clean) (h : Auctioned req w) (hp : req.price = none) :
    req.rest w = 0 := by
  have hgo : ∀ r ∈ req.resting w, req.beyond r = false := by
    intro r _
    simp [Request.beyond, hp]
  unfold Request.rest Request.takes
  rw [Greedy.walk_covered h.pos.le (hw.openOrders req).pos hgo (h.covered hp), sub_self]

/-- What stands under a key after a complete plan, the key of the order apart. -/
theorem Completed.book_other (h : Completed req env w w' ws) (hw : w.db.Clean)
    (hA : Auctioned req w) {id : ℕ} (hid : id ≠ w.db.tbl_order_books.next) :
    w'.db.book id =
      w.db.book.takeAll OrderBook.id (fun r => r.at (number r.price)) (req.takes w) id := by
  by_cases htaken : ∃ f ∈ req.takes w, f.1.id = id
  · obtain ⟨f, hf, rfl⟩ := htaken
    have hmem : f.1 ∈ req.resting w := Greedy.mem_of_walk hf
    obtain ⟨-, -, -, -, hprice⟩ := resting_offer hw hmem
    have hnd : ((req.takes w).map fun f => f.1.id).Nodup :=
      Greedy.walk_nodup (Tables.resting_nodup ..)
    have hrow := (Request.resting_rows hmem).1
    rw [Auction.Book.takeAll_of_mem hnd hf, h.book (List.mem_append_left _ hrow)]
    obtain ⟨hsize, hfilled⟩ := h.taken hw hA hf
    have hworked := rowAfter_worked h.plan.matching f.1
    split
    · next h0 => exact OrderBook.offer_of_filled (hfilled.mpr h0)
    · next h0 =>
      rw [OrderBook.offer_eq_some]
      refine ⟨Bool.eq_false_iff.mpr fun ht => h0 (hfilled.mp ht), _, hworked.price.trans hprice, ?_⟩
      simp only [OrderBook.at, hworked.uid, hworked.symbol, hworked.side, hsize]
  · have hnot : ∀ f ∈ req.takes w, f.1.id ≠ id := fun f hf he => htaken ⟨f, hf, he⟩
    rw [Auction.Book.takeAll_of_not_mem hnot]
    by_cases hrow : ∃ r ∈ w.db.tbl_order_books.rows, r.id = id
    · obtain ⟨r, hr, rfl⟩ := hrow
      rw [h.book (List.mem_append_left _ hr), h.untouched hw hA hr hnot, Tables.book_of_mem hr]
    · rw [Tables.book_of_fresh fun r hr he => hrow ⟨r, hr, he⟩, Tables.book_of_fresh]
      intro r hr
      rw [h.rows] at hr
      obtain ⟨r₀, hr₀, rfl⟩ := List.mem_map.mp hr
      rw [(rowAfter_worked h.plan.matching r₀).id]
      rcases List.mem_append.mp hr₀ with hr₀ | hr₀
      · exact fun he => hrow ⟨r₀, hr₀, he⟩
      · rw [List.mem_singleton.mp hr₀]
        exact hid.symm

/-- What stands under the key of the order. -/
theorem Completed.book_own (h : Completed req env w w' ws) (hw : w.db.Clean)
    (hA : Auctioned req w) {p : ℚ} (hp : req.price = some p) :
    w'.db.book w.db.tbl_order_books.next =
      if req.rest w = 0 then none else some (req.auction.offer p (req.rest w)) := by
  obtain ⟨hsize, hfilled⟩ := h.own hw hA
  have hworked := rowAfter_worked h.plan.matching (req.row env w)
  have hbook := h.book (List.mem_append_right _ (List.mem_singleton_self _))
  rw [Request.row_id] at hbook
  rw [hbook]
  split
  · next h0 => exact OrderBook.offer_of_filled (hfilled.mpr h0)
  · next h0 =>
    rw [OrderBook.offer_eq_some]
    have hprice : (rowAfter ws (req.row env w)).price = some p := by
      rw [hworked.price, Request.row_price, hp, Option.map_some,
        (hA.price p (by rw [hp]; rfl)).roundTo_eq]
    refine ⟨Bool.eq_false_iff.mpr fun ht => h0 (hfilled.mp ht), p, hprice, ?_⟩
    simp only [OrderBook.at, hworked.uid, hworked.symbol, hworked.side, hsize, Request.row_uid,
      Request.row_symbol, Request.row_side, Auction.Order.offer, Request.auction]

/-- Nothing stands under the key of the next row. -/
theorem book_next (db : Tables) : db.book db.tbl_order_books.next = none :=
  Tables.book_of_fresh fun r hr => (db.tbl_order_books.fresh r hr).ne

/-- **A request places its order.** -/
theorem Completed.places (h : Completed req env w w' ws) (hw : w.db.Clean)
    (hA : Auctioned req w) :
    Auction.Place w.db.tbl_order_books.next req.auction w.db.book
      ((req.takes w).map fun f => req.auction.deal w.db.tbl_order_books.next f.1.id
        (f.1.at (number f.1.price)) f.2) w'.db.book := by
  have hmatch := takes_match hw hA
  have hnext : w.db.book.takeAll OrderBook.id (fun r => r.at (number r.price)) (req.takes w)
      w.db.tbl_order_books.next = none := by
    rw [Auction.Book.takeAll_of_not_mem, book_next]
    exact fun f hf => (Request.resting_lt (Greedy.mem_of_walk hf)).ne
  by_cases h0 : req.rest w = 0
  · have hbook : w'.db.book =
        w.db.book.takeAll OrderBook.id (fun r => r.at (number r.price)) (req.takes w) := by
      funext id
      by_cases hid : id = w.db.tbl_order_books.next
      · rw [hid, hnext, ← Request.row_id,
          h.book (List.mem_append_right _ (List.mem_singleton_self _))]
        exact OrderBook.offer_of_filled ((h.own hw hA).2.mpr h0)
      · exact h.book_other hw hA hid
    unfold Request.rest at h0
    rw [h0] at hmatch
    rw [hbook]
    exact .filled hmatch
  · have hpos : 0 < req.rest w := lt_of_le_of_ne (hA.rest_nonneg hw) (Ne.symm h0)
    obtain ⟨p, hp⟩ := Option.ne_none_iff_exists'.mp fun hp => h0 (hA.filled hw hp)
    have hbook : w'.db.book = Function.update
        (w.db.book.takeAll OrderBook.id (fun r => r.at (number r.price)) (req.takes w))
        w.db.tbl_order_books.next (some (req.auction.offer p (req.rest w))) := by
      funext id
      by_cases hid : id = w.db.tbl_order_books.next
      · rw [hid, Function.update_self, h.book_own hw hA hp, if_neg h0]
      · rw [Function.update_of_ne hid]
        exact h.book_other hw hA hid
    rw [hbook]
    exact .rests hmatch hpos hp

/-- The trades that a complete plan records are the deals. -/
theorem Completed.trades (h : Completed req env w w' ws) (hw : w.db.Clean)
    (hA : Auctioned req w) :
    ∃ rows, w'.db.tbl_trades.rows = w.db.tbl_trades.rows ++ rows ∧
      rows.map Trade.terms = ((req.takes w).map fun f =>
        req.auction.deal w.db.tbl_order_books.next f.1.id
          (f.1.at (number f.1.price)) f.2).map terms := by
  obtain ⟨rows, hrows, hterms⟩ := h.plan.terms (req.inserted env w)
  refine ⟨rows, ?_, ?_⟩
  · rw [h.db, hrows, Request.inserted_trades]
  · rw [hterms, ← h.takes_eq hw hA, List.map_map, List.map_map]
    apply List.map_congr_left
    intro f hf
    have hmem : f.1 ∈ req.resting w :=
      (Greedy.fills_prefix _ _).subset (List.mem_map_of_mem hf)
    obtain ⟨-, -, -, -, hprice⟩ := resting_offer hw hmem
    have hround : f.1.price.map (roundTo 8) = f.1.price :=
      hw.stored.prices _ (Request.resting_rows hmem).1
    cases hs : req.side <;>
      simp [terms, Function.comp, Auction.Order.deal, Request.auction, hs, Side.auction,
        NewTrade.deal, Matcher.trade, OrderBook.at, hround, ← hprice]

/-- A row afterwards was there or was inserted. -/
theorem Completed.origin (h : Completed req env w w' ws) {r' : OrderBook}
    (hr' : r' ∈ w'.db.tbl_order_books.rows) : ∃ r, r' = rowAfter ws r ∧ Worked r r' ∧
      (r ∈ w.db.tbl_order_books.rows ∨ r = req.row env w) := by
  rw [h.rows] at hr'
  obtain ⟨r, hr, rfl⟩ := List.mem_map.mp hr'
  refine ⟨r, rfl, rowAfter_worked h.plan.matching r, ?_⟩
  simpa using hr

theorem Completed.stored (h : Completed req env w w' ws) (hw : w.db.Stored) : w'.db.Stored where
  prices r' hr' := by
    obtain ⟨r, -, hworked, hr | rfl⟩ := h.origin hr'
    · rw [hworked.price]
      exact hw.prices r hr
    · rw [hworked.price, Request.row_price]
      exact map_roundTo req.price
  sizes r' hr' := by
    obtain ⟨r, rfl, -, hr | rfl⟩ := h.origin hr'
    · rw [← rowAfter_stored ws (hw.sizes r hr).roundTo_eq]
      exact isDecimal_roundTo _
    · have hrow : roundTo 8 (req.row env w).size = (req.row env w).size := by
        simp [(isDecimal_roundTo req.size).roundTo_eq]
      rw [← rowAfter_stored ws hrow]
      exact isDecimal_roundTo _

theorem Completed.priced (h : Completed req env w w' ws) (hw : w.db.Clean)
    (hA : Auctioned req w) : w'.db.Priced := by
  intro r' hr' hopen
  obtain ⟨r, rfl, hworked, hr | rfl⟩ := h.origin hr'
  · rw [hworked.price]
    exact hw.priced r hr (hworked.open hopen)
  · rw [hworked.price, Request.row_price, Option.isSome_map, Option.isSome_iff_ne_none]
    intro hp
    rw [(h.own hw hA).2.mpr (hA.filled hw hp)] at hopen
    cases hopen

/-- What is left of an order that stays open is not zero. -/
theorem OrderBook.Holds.pos {row : OrderBook} {size : ℚ} (h : row.Holds size) (hsize : 0 ≤ size)
    (hopen : row.is_filled = false) : 0 < row.size := by
  have hne : size ≠ 0 := by
    intro h0
    rw [h.2.mpr h0] at hopen
    cases hopen
  rw [h.1]
  exact lt_of_le_of_ne hsize hne.symm

theorem Completed.sizes (h : Completed req env w w' ws) (hw : w.db.Clean) (hA : Auctioned req w) :
    ∀ r' ∈ w'.db.tbl_order_books.rows, r'.is_filled = false → 0 < r'.size := by
  intro r' hr' hopen
  obtain ⟨r, rfl, hworked, hr | rfl⟩ := h.origin hr'
  · by_cases htaken : ∃ f ∈ req.takes w, f.1.id = r.id
    · obtain ⟨f, hf, hid⟩ := htaken
      have hmem := (Request.resting_rows (Greedy.mem_of_walk hf)).1
      obtain rfl : f.1 = r := Table.eq_of_key hmem hr hid
      have hle : f.2 ≤ f.1.size := Greedy.walk_le hf
      exact (h.taken hw hA hf).pos (sub_nonneg.mpr hle) hopen
    · rw [h.untouched hw hA hr fun f hf he => htaken ⟨f, hf, he⟩]
      exact hw.sizes r hr (hworked.open hopen)
  · exact (h.own hw hA).pos (hA.rest_nonneg hw) hopen

/-- What the theorem asks of the tables is kept. -/
theorem Completed.clean (h : Completed req env w w' ws) (hw : w.db.Clean)
    (hA : Auctioned req w) : w'.db.Clean :=
  ⟨h.stored hw.stored, h.priced hw hA, h.sizes hw hA⟩

end Step

/-! ## Runs -/

section Runs

variable {env : Env} {reqs : List Request} {w : World}

/-- A run of the requests is one of the auction, whose deals are the trades. -/
theorem serveAll_run (henv : env.Reliable) (hw : w.db.Clean)
    (hT : ∀ req ∈ reqs, w.db.HasTrade req.symbol) (hA : StepsMeet env Auctioned reqs w) :
    ∃ ds, Auction.Run w.db.book (placed env reqs w) ds (serveAll env reqs w).2.db.book ∧
      ∃ rows, (serveAll env reqs w).2.db.tbl_trades.rows = w.db.tbl_trades.rows ++ rows ∧
        rows.map Trade.terms = ds.map terms := by
  induction reqs generalizing w with
  | nil => exact ⟨[], .nil _, [], (List.append_nil _).symm, rfl⟩
  | cons req reqs ih =>
    obtain ⟨hreq, hreqs⟩ := List.forall_mem_cons.mp hT
    obtain ⟨ws, hc⟩ := serve_completed henv hreq
    obtain ⟨rows, hrows, hterms⟩ := hc.trades hw hA.1
    obtain ⟨ds, hrun, rows', hrows', hterms'⟩ := ih (hc.clean hw hA.1)
      (fun req' hreq' => serve_hasTrade (hreqs req' hreq')) hA.2
    refine ⟨_, .cons (book_next w.db) hA.1.pos (hc.places hw hA.1) hrun, rows ++ rows', ?_, ?_⟩
    · change (serveAll env reqs (req.serve env w).2).2.db.tbl_trades.rows = _
      rw [hrows', hrows, List.append_assoc]
    · rw [List.map_append, List.map_append, hterms, hterms']

/-- **The order book is an auction**, along every run whose orders meet the condition: the
trades recorded are the deals of a run of the auction, so what is left open under a key and
what was dealt under it is what was submitted under it, and no book gets crossed. -/
theorem serveAll_auction (henv : env.Reliable) (hw : w.db.Clean)
    (hT : ∀ req ∈ reqs, w.db.HasTrade req.symbol) (hA : StepsMeet env Auctioned reqs w) :
    ∃ ds, Auction.Run w.db.book (placed env reqs w) ds (serveAll env reqs w).2.db.book ∧
      (∃ rows, (serveAll env reqs w).2.db.tbl_trades.rows = w.db.tbl_trades.rows ++ rows ∧
        rows.map Trade.terms = ds.map terms) ∧
      (∀ id, (serveAll env reqs w).2.db.book.standing id + Auction.dealt id ds =
        w.db.book.standing id + Auction.submitted id (placed env reqs w)) ∧
      (w.db.book.Uncrossed → (serveAll env reqs w).2.db.book.Uncrossed) := by
  obtain ⟨ds, hrun, htrades⟩ := serveAll_run henv hw hT hA
  exact ⟨ds, hrun, htrades, fun id => hrun.account id, fun hbook => hrun.uncrossed hbook⟩

end Runs

/-! ## A limit order and a market order -/

/-- Three are offered at 10; two are taken, one by an order with a limit. -/
def World.offering : World := .start (Tables.traded.place [.btc 1 .SELL 10 3])

def takers : List Request :=
  [.limit ⟨2, .BUY, "BTC/USDT", 11, 1⟩, .market ⟨3, .BUY, "BTC/USDT", 1⟩]

theorem auctioned_takers : StepsMeet .steady Auctioned takers .offering := by
  refine ⟨⟨by decide +kernel, ?_, by decide +kernel, by decide +kernel, nofun⟩,
    ⟨by decide +kernel, nofun, by decide +kernel, by decide +kernel, fun _ => by decide +kernel⟩,
    trivial⟩
  rintro p ⟨⟩
  exact IsDecimal.natCast 11

theorem auction_takers :
    ∃ ds, Auction.Run World.offering.db.book (placed .steady takers .offering) ds
        (serveAll .steady takers .offering).2.db.book ∧
      (∃ rows, (serveAll .steady takers .offering).2.db.tbl_trades.rows =
          World.offering.db.tbl_trades.rows ++ rows ∧
        rows.map Trade.terms = ds.map terms) ∧
      (∀ id, (serveAll .steady takers .offering).2.db.book.standing id + Auction.dealt id ds =
        World.offering.db.book.standing id +
          Auction.submitted id (placed .steady takers .offering)) ∧
      (World.offering.db.book.Uncrossed →
        (serveAll .steady takers .offering).2.db.book.Uncrossed) := by
  apply serveAll_auction Env.steady_reliable
  · refine ⟨⟨?_, ?_⟩, ?_, ?_⟩
    · unfold Tables.PricesStored
      decide +kernel
    · have hround : ∀ row ∈ World.offering.db.tbl_order_books.rows,
          roundTo 8 row.size = row.size := by
        decide +kernel
      intro row hrow
      rw [← hround row hrow]
      exact isDecimal_roundTo _
    · unfold Tables.Priced
      decide +kernel
    · decide +kernel
  · unfold Tables.HasTrade
    decide +kernel
  · exact auctioned_takers

end Exchange
