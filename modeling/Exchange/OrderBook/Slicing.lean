import Exchange.OrderBook.Reference

/-!
# A limit order in two slices

An order in two slices, the second matched with the orders that the first leaves open, is
to do what it does whole. It does where the three matches subtract and round as the numbers
are (`sliced_of_takesSlices`). Elsewhere what a slice takes may be lost in the row that it is
taken from, and the second slice meets a different size there.
-/

namespace Exchange

open Async Proc OrderBookService Store

/-! ## Slices -/

/-- An order of the same user, for the same symbol and side and with the same limit. -/
structure OrderBook.Slice (order slice : OrderBook) : Prop where
  uid : slice.uid = order.uid
  side : slice.side = order.side
  symbol : slice.symbol = order.symbol
  price : slice.price = order.price
  numeric : slice.numeric = order.numeric
/-- Two slices of positive sizes that make up the size of the order. -/
structure OrderBook.Slices (order first second : OrderBook) : Prop where
  slice₁ : order.Slice first
  slice₂ : order.Slice second
  first_pos : 0 < first.size
  second_pos : 0 < second.size
  size : order.size = first.size + second.size

/-- The orders of a snapshot that are still open. -/
def Tables.stillOpen (db : Tables) (L : List OrderBook) : List OrderBook :=
  L.filterMap fun r => db.tbl_order_books.rows.find? fun row => row.id = r.id && !row.is_filled

/-- The order got its row in `db`, and the service holds what is still open of the snapshot. -/
structure Resumed (order : OrderBook) (L : List OrderBook) (db : Tables) (w : World) : Prop where
  held : w.side order.side.opposite < w.arrays.length
  array : w.array (w.side order.side.opposite) = db.stillOpen L
  stored : ∃ row, w.db.tbl_order_books.rows = db.tbl_order_books.rows ++ [row] ∧
    row.id = order.id ∧ row.is_filled = false ∧ row.size = roundTo 8 order.size
  trades : w.db.tbl_trades.rows = db.tbl_trades.rows

/-- What the write trades with the order `id` at `price`, as it is recorded. -/
def Write.tradedWith (id : Nat) (price : Option ℚ) : Write → Option ℚ
  | .trade t x => if x.maker.id = id ∧ t.deal.price = price then some t.deal.size else none
  | _ => none

/-- What has been traded with the order `id` at `price`. -/
def World.traded (w : World) (id : Nat) (price : Option ℚ) : ℚ :=
  (w.journal.filterMap fun e => e.write.tradedWith id price).sum

/-- What `order` does from `w` to `w'`, `first` does from `w₁` to `w₁'` and `second` from
`w₂` to `w₂'`: the sizes of the resting orders, what is traded with each at each price, and
what is left over. -/
structure Sliced (order first second : OrderBook) (L : List OrderBook)
    (w w' w₁ w₁' w₂ w₂' : World) : Prop where
  resting : ∀ r ∈ L, ∃ row ∈ w'.db.tbl_order_books.rows, ∃ row' ∈ w₂'.db.tbl_order_books.rows,
    row.id = r.id ∧ row'.id = r.id ∧ row'.size = row.size
  traded : ∀ r ∈ L, ∀ price, w'.traded r.id price - w.traded r.id price =
    (w₁'.traded r.id price - w₁.traded r.id price) +
      (w₂'.traded r.id price - w₂.traded r.id price)
  remainder : ∃ row ∈ w'.db.tbl_order_books.rows, row.id = order.id ∧
    ∃ row₁ ∈ w₂'.db.tbl_order_books.rows, row₁.id = first.id ∧
      ∃ row₂ ∈ w₂'.db.tbl_order_books.rows, row₂.id = second.id ∧
        row.size = row₁.size + row₂.size

/-! ## Exact walks -/

/-- What an exact walk takes for the order, as far as the limit matcher goes. -/
def OrderBook.walk (order : OrderBook) (K : List OrderBook) : List (OrderBook × ℚ) :=
  Greedy.walk (order.limitMatcher.halts order.held) OrderBook.size order.size K

/-- The match subtracts and rounds as the numbers are. -/
def OrderBook.exact (order : OrderBook) (K : List OrderBook) : Bool :=
  sameSteps (order.limitMatcher.halts order.held) (order.limitMatcher.halts order.held)
    order.size order.size K

/-- The resting orders of which something is left. -/
def leftover (K : List OrderBook) (rest : OrderBook → OrderBook) : List OrderBook :=
  (K.map rest).filter fun r => r.size ≠ 0

/-- What an order leaves of a resting one, in exact numbers. -/
def OrderBook.remains (order : OrderBook) (K : List OrderBook) (r : OrderBook) : OrderBook :=
  { r with size := r.size - takenFrom (order.walk K) r.id }

/-- The order and the slices are matched as the numbers are, the second slice with what the
first leaves. -/
def OrderBook.takesSlices (order first second : OrderBook) (L : List OrderBook) : Bool :=
  order.exact L.reverse && first.exact L.reverse &&
    second.exact (leftover L.reverse (first.remains L.reverse))

/-- The plan writes what the exact walk takes. -/
abbrev OrderBook.Walks (order : OrderBook) (K : List OrderBook) (ws : List Write) : Prop :=
  Walked (order.limitMatcher.halts order.held) order.limitMatcher order K ws

/-! ## What a plan trades with one order -/

section Traded

variable {m : Matcher} {order : OrderBook} {K : List OrderBook} {ws : List Write}
variable {id : Nat} {price : Option ℚ}

theorem Plan.tradedWith_eq (h : Plan m order K ws) :
    ws.filterMap (Write.tradedWith id price) =
      (((Plan.fills m order K).map fun f => (f.1, roundTo 8 f.2)).filter fun f =>
        f.1.id = id ∧ f.1.price.map (roundTo 8) = price).map Prod.snd := by
  induction h with
  | nil => rfl
  | stop K h => rw [Plan.fills_stop h]; rfl
  | @full order r K t₁ t₂ t₃ h hs =>
    rw [Plan.fills_full h hs]
    change ([Write.trade (m.trade order r order.size m.full_is_buyer t₂)
      ⟨order, r⟩].filterMap (Write.tradedWith id price)) = _
    by_cases hr : r.id = id ∧ r.price.map (roundTo 8) = price
    · simp [Write.tradedWith, NewTrade.deal, Matcher.trade, hr]
    · simp [Write.tradedWith, NewTrade.deal, Matcher.trade, hr]
  | @part order r K ws t₁ t₂ h hs hp ih =>
    rw [Plan.fills_part h hs, List.filterMap_append, ih]
    change ([Write.trade (m.trade order r r.size m.part_is_buyer t₂)
      ⟨order, r⟩].filterMap (Write.tradedWith id price)) ++ _ = _
    by_cases hr : r.id = id ∧ r.price.map (roundTo 8) = price
    · simp [Write.tradedWith, NewTrade.deal, Matcher.trade, hr]
    · simp [Write.tradedWith, NewTrade.deal, Matcher.trade, hr]

theorem OrderBook.mem_of_walk {f : OrderBook × ℚ} (h : f ∈ order.walk K) : f.1 ∈ K :=
  Greedy.mem_of_walk h

/-- What is traded with an order is what the walk takes from it, at its price. -/
theorem OrderBook.Walks.traded_eq (hw : order.Walks K ws)
    (h : Plan order.limitMatcher order K ws) {q : Option ℚ}
    (hprice : ∀ r ∈ K, r.id = id → r.price = q) (hq : q.map (roundTo 8) = q) :
    (ws.filterMap (Write.tradedWith id price)).sum =
      if q = price then takenFrom (order.walk K) id else 0 := by
  rw [h.tradedWith_eq, hw.taken]
  change (((order.walk K).filter _).map Prod.snd).sum = _
  have hmaker : ∀ f ∈ order.walk K, f.1.id = id → f.1.price.map (roundTo 8) = q := by
    intro f hf hid
    rw [hprice f.1 (OrderBook.mem_of_walk hf) hid, hq]
  split
  · next hqp =>
    have hsame : (order.walk K).filter (fun f =>
        f.1.id = id ∧ f.1.price.map (roundTo 8) = price) =
        (order.walk K).filter fun f => f.1.id = id := by
      apply List.filter_congr
      intro f hf
      rw [decide_eq_decide]
      exact ⟨And.left, fun hid => ⟨hid, (hmaker f hf hid).trans hqp⟩⟩
    rw [hsame]
    rfl
  · next hqp =>
    have hnone : (order.walk K).filter (fun f =>
        f.1.id = id ∧ f.1.price.map (roundTo 8) = price) = [] := by
      rw [List.filter_eq_nil_iff]
      intro f hf he
      have hboth := of_decide_eq_true he
      exact hqp ((hmaker f hf hboth.1).symm.trans hboth.2)
    rw [hnone]
    rfl

end Traded

/-! ## What is still open -/

section Open

variable {order : OrderBook} {L : List OrderBook} {ws : List Write} {db : Tables}

/-- The orders that a match leaves open are those of which something is left. -/
theorem stillOpen_writeAll (hws : ∀ wr ∈ ws, wr.Matching)
    (hL : ∀ r ∈ L, r ∈ db.tbl_order_books.rows)
    (hclosed : ∀ r ∈ L, (rowAfter ws r).is_filled = true ↔ (rowAfter ws r).size = 0) :
    (db.writeAll ws).stillOpen L = leftover L (rowAfter ws) := by
  induction L with
  | nil => rfl
  | cons r L ih =>
    rw [List.forall_mem_cons] at hL hclosed
    have hid := (rowAfter_worked hws r).id
    have hmem : rowAfter ws r ∈ (db.writeAll ws).tbl_order_books.rows := by
      rw [Tables.writeAll_rows hws]
      exact List.mem_map_of_mem hL.1
    have hfind := Table.find?_key hmem fun row => !row.is_filled
    rw [hid] at hfind
    have hflag : (!(rowAfter ws r).is_filled) = decide ((rowAfter ws r).size ≠ 0) := by
      rw [Bool.eq_iff_iff, Bool.not_eq_true', decide_eq_true_eq, ← Bool.not_eq_true, hclosed.1]
    rw [hflag] at hfind
    have hrest := ih hL.2 hclosed.2
    unfold Tables.stillOpen leftover at hrest ⊢
    rw [List.map_cons, List.filter_cons, List.filterMap_cons]
    split at hfind
    · next hkept => rw [if_pos hkept, hfind, hrest]
    · next hkept => rw [if_neg hkept, hfind, hrest]

end Open

theorem leftover_reverse (L : List OrderBook) (rest : OrderBook → OrderBook) :
    (leftover L rest).reverse = leftover L.reverse rest := by
  unfold leftover
  rw [← List.filter_reverse, ← List.map_reverse]

/-! ## The walks of the slices -/

/-- `rest` gives what the first slice leaves of the resting orders. -/
structure Leaves (first : OrderBook) (K : List OrderBook) (rest : OrderBook → OrderBook) :
    Prop where
  worked : ∀ r, Worked r (rest r)
  holds : ∀ r ∈ K, (rest r).Holds (r.size - takenFrom (first.walk K) r.id)

section Walks

variable {order first second : OrderBook} {K : List OrderBook} {rest rest' : OrderBook → OrderBook}
variable {ws : List Write}

theorem OrderBook.Slice.halts (h : order.Slice first) :
    first.limitMatcher.halts first.held = order.limitMatcher.halts order.held := by
  unfold OrderBook.limitMatcher OrderBook.held
  rw [h.side, h.price, h.numeric]

theorem mem_leftover {r' : OrderBook} :
    r' ∈ leftover K rest ↔ ∃ r ∈ K, rest r = r' ∧ r'.size ≠ 0 := by
  simp only [leftover, List.mem_filter, List.mem_map, decide_eq_true_eq]
  constructor
  · rintro ⟨⟨r, hr, he⟩, h0⟩
    exact ⟨r, hr, he, h0⟩
  · rintro ⟨r, hr, he, h0⟩
    exact ⟨⟨r, hr, he⟩, h0⟩

/-- Only prices and sizes of what is left over matter. -/
theorem sameSteps_leftover {halts stop : OrderBook → Bool}
    (hsize : ∀ r ∈ K, (rest r).size = (rest' r).size)
    (hhalts : ∀ r ∈ K, halts (rest r) = halts (rest' r))
    (hstop : ∀ r ∈ K, stop (rest r) = stop (rest' r)) (s s' : ℚ) :
    sameSteps halts stop s s' (leftover K rest) = sameSteps halts stop s s' (leftover K rest') := by
  induction K generalizing s s' with
  | nil => rfl
  | cons r K ih =>
    rw [List.forall_mem_cons] at hsize hhalts hstop
    have hrest := ih hsize.2 hhalts.2 hstop.2
    have hcons (rest : OrderBook → OrderBook) : leftover (r :: K) rest =
        if (rest r).size ≠ 0 then rest r :: leftover K rest else leftover K rest := by
      unfold leftover
      rw [List.map_cons, List.filter_cons]
      simp only [decide_eq_true_eq]
    rw [hcons, hcons, hsize.1]
    split
    · simp only [sameSteps, hhalts.1, hstop.1, hsize.1, hrest]
    · exact hrest s s'

theorem OrderBook.Walks.isDecimal (hw : order.Walks K ws) :
    ∀ f ∈ order.walk K, IsDecimal 8 f.2 := by
  intro f hf
  unfold OrderBook.walk at hf
  rw [← hw.taken] at hf
  obtain ⟨g, -, rfl⟩ := List.mem_map.mp hf
  exact isDecimal_roundTo g.2

theorem OrderBook.Walks.isDecimal_takenFrom (hw : order.Walks K ws) (id : Nat) :
    IsDecimal 8 (takenFrom (order.walk K) id) := by
  unfold takenFrom
  apply IsDecimal.sum
  intro q hq
  obtain ⟨f, hf, rfl⟩ := List.mem_map.mp hq
  exact hw.isDecimal f (List.mem_of_mem_filter hf)

/-- The walk takes of what `p` selects for the whole order what it takes for the slices. -/
theorem Leaves.amount_walk (h : Leaves first K rest) (hslices : order.Slices first second)
    (hK : OpenOrders K) {p : OrderBook → Bool} (hp : ∀ r, p (rest r) = p r) :
    Greedy.amount p (order.walk K) = Greedy.amount p (first.walk K) +
      Greedy.amount p (second.walk (leftover K rest)) := by
  unfold OrderBook.walk leftover
  rw [hslices.slice₁.halts, hslices.slice₂.halts, hslices.size]
  apply Greedy.amount_walk_add hslices.first_pos.le hslices.second_pos.le hK.pos hK.nodup
  · intro r _
    unfold Matcher.halts
    rw [(h.worked r).held]
  · intro r hr
    rw [(h.holds r hr).1, OrderBook.walk, hslices.slice₁.halts]
    rfl
  · exact fun r _ => hp r

theorem Leaves.takenFrom_walk (h : Leaves first K rest) (hslices : order.Slices first second)
    (hK : OpenOrders K) (id : Nat) :
    takenFrom (order.walk K) id = takenFrom (first.walk K) id +
      takenFrom (second.walk (leftover K rest)) id := by
  have hp (r : OrderBook) : decide ((rest r).id = id) = decide (r.id = id) := by
    rw [(h.worked r).id]
  exact h.amount_walk hslices hK (p := fun r => r.id = id) hp

theorem Leaves.total_walk (h : Leaves first K rest) (hslices : order.Slices first second)
    (hK : OpenOrders K) :
    ((order.walk K).map Prod.snd).sum = ((first.walk K).map Prod.snd).sum +
      ((second.walk (leftover K rest)).map Prod.snd).sum := by
  have hall := h.amount_walk hslices hK (p := fun _ => true) fun _ => rfl
  simpa [Greedy.amount] using hall

theorem takenFrom_le (hK : OpenOrders K) {r : OrderBook} (hr : r ∈ K) :
    takenFrom (order.walk K) r.id ≤ r.size := by
  by_cases htaken : ∃ f ∈ order.walk K, f.1.id = r.id
  · obtain ⟨f, hf, hid⟩ := htaken
    have hmaker : f.1 = r :=
      List.inj_on_of_nodup_map hK.nodup (OrderBook.mem_of_walk hf) hr hid
    rw [← hid, OrderBook.walk, takenFrom_of_mem (walk_nodup_id hK _) hf, ← hmaker]
    exact Greedy.walk_le hf
  · rw [takenFrom_of_not_mem fun f hf he => htaken ⟨f, hf, he⟩]
    exact (hK.pos r hr).le

/-- A slice is matched with what is left as with the numbers that are left. -/
theorem Leaves.exact_leftover (h : Leaves first K rest) :
    second.exact (leftover K rest) = second.exact (leftover K (first.remains K)) := by
  have hhalts (r : OrderBook) : second.limitMatcher.halts second.held (rest r) =
      second.limitMatcher.halts second.held (first.remains K r) := by
    unfold Matcher.halts
    rw [(h.worked r).held]
    rfl
  exact sameSteps_leftover (fun r hr => (h.holds r hr).1) (fun r _ => hhalts r)
    (fun r _ => hhalts r) second.size second.size

/-- What is left over are open orders. -/
theorem Leaves.openOrders (h : Leaves first K rest) (hK : OpenOrders K)
    (hw : first.Walks K ws) : OpenOrders (leftover K rest) where
  nodup := by
    have hids : (K.map rest).map OrderBook.id = K.map OrderBook.id := by
      rw [List.map_map]
      exact List.map_congr_left fun r _ => (h.worked r).id
    apply (List.filter_sublist.map OrderBook.id).nodup
    rw [hids]
    exact hK.nodup
  opened r' hr' := by
    obtain ⟨r, hr, rfl, h0⟩ := mem_leftover.mp hr'
    obtain ⟨hsize, hclosed⟩ := h.holds r hr
    rw [← Bool.not_eq_true, hclosed, ← hsize]
    exact h0
  pos r' hr' := by
    obtain ⟨r, hr, rfl, h0⟩ := mem_leftover.mp hr'
    apply lt_of_le_of_ne _ h0.symm
    rw [(h.holds r hr).1]
    exact sub_nonneg.mpr (takenFrom_le hK hr)
  sizes r' hr' := by
    obtain ⟨r, hr, rfl, -⟩ := mem_leftover.mp hr'
    rw [(h.holds r hr).1]
    exact (hK.sizes r hr).sub (hw.isDecimal_takenFrom r.id)
  prices r' hr' := by
    obtain ⟨r, hr, rfl, -⟩ := mem_leftover.mp hr'
    rw [(h.worked r).price]
    exact hK.prices r hr

/-- A resting order after the second slice, whether it was still open or not. -/
theorem Leaves.second_row (h : Leaves first K rest) (hnd : (K.map OrderBook.id).Nodup)
    (hplan : Plan second.limitMatcher second (leftover K rest) ws)
    (hw : second.Walks (leftover K rest) ws) (hne : ∀ r ∈ K, r.id ≠ second.id)
    {r : OrderBook} (hr : r ∈ K) : (rowAfter ws (rest r)).size =
      (rest r).size - takenFrom (second.walk (leftover K rest)) r.id := by
  by_cases h0 : (rest r).size = 0
  · have hnone : ∀ f ∈ second.walk (leftover K rest), f.1.id ≠ r.id := by
      intro f hf he
      obtain ⟨r', hr', hrest, h0'⟩ := mem_leftover.mp (OrderBook.mem_of_walk hf)
      rw [← hrest, (h.worked r').id] at he
      obtain rfl := List.inj_on_of_nodup_map hnd hr' hr he
      exact h0' (hrest ▸ h0)
    rw [takenFrom_of_not_mem hnone, h0, sub_zero, rowAfter_untouched, h0]
    intro ht
    rw [(h.worked r).id] at ht
    rcases hplan.touches ht with ⟨he, -⟩ | ⟨f, hf, he⟩
    · exact hne r hr he
    · refine hnone (f.1, roundTo 8 f.2) ?_ he.symm
      unfold OrderBook.walk
      rw [← hw.taken]
      exact List.mem_map_of_mem hf
  · rw [(hw.resting _ (mem_leftover.mpr ⟨r, hr, rfl, h0⟩)).1, (h.worked r).id]
    rfl

end Walks

/-! ## The plans -/

/-- The plans of an order and of its slices, over open orders that are none of the three. All
write what the exact walks take. -/
structure SlicedPlans (order first second : OrderBook) (K : List OrderBook)
    (ws ws₁ ws₂ : List Write) : Prop where
  slices : order.Slices first second
  orders : OpenOrders K
  plan : Plan order.limitMatcher order K ws
  plan₁ : Plan first.limitMatcher first K ws₁
  plan₂ : Plan second.limitMatcher second (leftover K (rowAfter ws₁)) ws₂
  walks : order.Walks K ws
  walks₁ : first.Walks K ws₁
  walks₂ : second.Walks (leftover K (rowAfter ws₁)) ws₂
  ne₁ : ∀ r ∈ K, r.id ≠ first.id
  ne₂ : ∀ r ∈ K, r.id ≠ second.id

theorem OrderBook.Slices.pos {order first second : OrderBook} (h : order.Slices first second) :
    0 < order.size := by
  rw [h.size]
  exact add_pos h.first_pos h.second_pos

theorem OrderBook.Walks.leaves {first : OrderBook} {K : List OrderBook} {ws : List Write}
    (hw : first.Walks K ws) (h : Plan first.limitMatcher first K ws) :
    Leaves first K (rowAfter ws) :=
  ⟨rowAfter_worked h.matching, hw.resting⟩

namespace SlicedPlans

variable {order first second : OrderBook} {K : List OrderBook} {ws ws₁ ws₂ : List Write}

theorem leaves (h : SlicedPlans order first second K ws ws₁ ws₂) :
    Leaves first K (rowAfter ws₁) := h.walks₁.leaves h.plan₁

/-- A resting order ends with the same size. -/
theorem size_eq (h : SlicedPlans order first second K ws ws₁ ws₂) {r : OrderBook} (hr : r ∈ K) :
    (rowAfter ws₂ (rowAfter ws₁ r)).size = (rowAfter ws r).size := by
  rw [h.leaves.second_row h.orders.nodup h.plan₂ h.walks₂ h.ne₂ hr, (h.leaves.holds r hr).1,
    (h.walks.resting r hr).1, sub_sub]
  congr 1
  exact (h.leaves.takenFrom_walk h.slices h.orders r.id).symm

/-- As much is traded with a resting order at each price. -/
theorem traded_eq (h : SlicedPlans order first second K ws ws₁ ws₂) {r : OrderBook} (hr : r ∈ K)
    (price : Option ℚ) :
    (ws.filterMap (Write.tradedWith r.id price)).sum =
      (ws₁.filterMap (Write.tradedWith r.id price)).sum +
        (ws₂.filterMap (Write.tradedWith r.id price)).sum := by
  have hK := h.orders
  have hprice : ∀ r' ∈ K, r'.id = r.id → r'.price = r.price := by
    intro r' hr' hid
    rw [List.inj_on_of_nodup_map hK.nodup hr' hr hid]
  have hprice₂ : ∀ r' ∈ leftover K (rowAfter ws₁), r'.id = r.id → r'.price = r.price := by
    intro r' hr' hid
    obtain ⟨r₀, hr₀, rfl, -⟩ := mem_leftover.mp hr'
    rw [(h.leaves.worked r₀).id] at hid
    exact (h.leaves.worked r₀).price.trans (hprice r₀ hr₀ hid)
  have hstored := hK.prices r hr
  rw [h.walks.traded_eq h.plan hprice hstored, h.walks₁.traded_eq h.plan₁ hprice hstored,
    h.walks₂.traded_eq h.plan₂ hprice₂ hstored]
  split
  · exact h.leaves.takenFrom_walk h.slices hK r.id
  · exact (add_zero 0).symm

/-- The rows of the slices are left with what the row of the order is left with. -/
theorem remainder_eq (h : SlicedPlans order first second K ws ws₁ ws₂)
    {row row₁ row₂ : OrderBook} (hid : row.id = order.id) (hid₁ : row₁.id = first.id)
    (hid₂ : row₂.id = second.id) (hsize : row.size = roundTo 8 order.size)
    (hsize₁ : row₁.size = roundTo 8 first.size) (hsize₂ : row₂.size = roundTo 8 second.size)
    (hopen : row.is_filled = false) (hopen₁ : row₁.is_filled = false)
    (hopen₂ : row₂.is_filled = false) :
    (rowAfter ws row).size = (rowAfter ws₁ row₁).size + (rowAfter ws₂ row₂).size := by
  rw [(h.walks.incoming row hid hsize hopen).1, (h.walks₁.incoming row₁ hid₁ hsize₁ hopen₁).1,
    (h.walks₂.incoming row₂ hid₂ hsize₂ hopen₂).1]
  have htotal := h.leaves.total_walk h.slices h.orders
  unfold OrderBook.walk at htotal
  rw [htotal, h.slices.size, add_sub_add_comm]

end SlicedPlans

/-! ## The runs -/

section Runs

variable {env env₁ env₂ : Env} {order first second : OrderBook} {L : List OrderBook}
variable {w w' w₁ w₂ : World} {ws ws₁ ws₂ : List Write}

/-- `w'` is `w` after the writes of a match. -/
structure MadeBy (ws : List Write) (w w' : World) : Prop where
  matching : ∀ wr ∈ ws, wr.Matching
  db : w'.db = w.db.writeAll ws
  journal : w'.journal = w.journal ++ w.db.entries ws

theorem MadeBy.traded_sub (h : MadeBy ws w w') (id : Nat) (price : Option ℚ) :
    w'.traded id price - w.traded id price = (ws.filterMap (Write.tradedWith id price)).sum := by
  have hwrites : (w.db.entries ws).filterMap (fun e => e.write.tradedWith id price) =
      ws.filterMap (Write.tradedWith id price) := by
    conv_rhs => rw [← w.db.entries_write ws]
    rw [List.filterMap_map]
    rfl
  unfold World.traded
  rw [h.journal, List.filterMap_append, List.sum_append, hwrites, add_sub_cancel_left]

theorem MadeBy.mem (h : MadeBy ws w w') {row : OrderBook}
    (hrow : row ∈ w.db.tbl_order_books.rows) : rowAfter ws row ∈ w'.db.tbl_order_books.rows := by
  rw [h.db, Tables.writeAll_rows h.matching]
  exact List.mem_map_of_mem hrow

theorem Resumed.fresh {db : Tables} (h : Resumed second L db w₂) :
    ∀ row ∈ db.tbl_order_books.rows, row.id ≠ second.id := by
  intro row hrow he
  obtain ⟨own, hrows, hid, -⟩ := h.stored
  have hnd := w₂.db.tbl_order_books.nodup
  rw [hrows, List.map_append, List.nodup_append] at hnd
  exact hnd.2.2 row.id (List.mem_map_of_mem hrow) own.id (by simp) (he.trans hid.symm)

theorem Resumed.kept {db : Tables} (h : Resumed second L db w₂) :
    ∀ row ∈ db.tbl_order_books.rows, row ∈ w₂.db.tbl_order_books.rows := by
  intro row hrow
  obtain ⟨own, hrows, -⟩ := h.stored
  rw [hrows]
  exact List.mem_append_left _ hrow

/-- A match of a limit order where nothing fails. -/
theorem matchLimitOrder_madeBy (henv : env.Reliable)
    (hheld : w.side order.side.opposite < w.arrays.length)
    (harray : w.array (w.side order.side.opposite) = L) (hT : w.db.HasTrade order.symbol) :
    ∃ ws, Plan order.limitMatcher order L.reverse ws ∧
      MadeBy ws w ((matchLimitOrder order).run (World.perform env) w).2 := by
  obtain ⟨-, ws, hplan, hdb, hjournal⟩ := matchLimitOrder_complete henv hheld hT
  rw [harray] at hplan
  exact ⟨ws, hplan, hplan.matching, hdb, hjournal⟩

namespace SlicedPlans

variable {w₁' w₂' : World}

/-- The second slice does not touch the row of the first. -/
theorem first_untouched (h : SlicedPlans order first second L.reverse ws ws₁ ws₂) {row : OrderBook}
    (hid : row.id = first.id) (hne : first.id ≠ second.id) : rowAfter ws₂ row = row := by
  apply rowAfter_untouched
  intro ht
  rcases h.plan₂.touches ht with ⟨he, -⟩ | ⟨f, hf, he⟩
  · exact hne (hid.symm.trans he)
  · obtain ⟨r, hr, hmaker, -⟩ := mem_leftover.mp
      ((Greedy.fills_prefix _ _).subset (List.mem_map_of_mem hf))
    rw [← hmaker, (h.leaves.worked r).id, hid] at he
    exact h.ne₁ r hr he.symm

theorem remainder (h : SlicedPlans order first second L.reverse ws ws₁ ws₂)
    (hs : Snapshot order L w) (hs₁ : Snapshot first L w₁)
    (hresumed : Resumed second L w₁'.db w₂) (hm : MadeBy ws w w') (hm₁ : MadeBy ws₁ w₁ w₁')
    (hm₂ : MadeBy ws₂ w₂ w₂') :
    ∃ row ∈ w'.db.tbl_order_books.rows, row.id = order.id ∧
      ∃ row₁ ∈ w₂'.db.tbl_order_books.rows, row₁.id = first.id ∧
        ∃ row₂ ∈ w₂'.db.tbl_order_books.rows, row₂.id = second.id ∧
          row.size = row₁.size + row₂.size := by
  obtain ⟨row, hrow, hid, -, hopen, hsize⟩ := hs.stored
  obtain ⟨row₁, hrow₁, hid₁, -, hopen₁, hsize₁⟩ := hs₁.stored
  obtain ⟨row₂, hrows₂, hid₂, hopen₂, hsize₂⟩ := hresumed.stored
  have hmem₁ := hm₁.mem hrow₁
  have hmem₂ : row₂ ∈ w₂.db.tbl_order_books.rows := by
    rw [hrows₂]
    exact List.mem_append_right _ (List.mem_singleton_self row₂)
  have hid₁' := (rowAfter_worked hm₁.matching row₁).id.trans hid₁
  have hne : first.id ≠ second.id := fun he => hresumed.fresh _ hmem₁ (hid₁'.trans he)
  refine ⟨_, hm.mem hrow, (rowAfter_worked hm.matching row).id.trans hid, rowAfter ws₁ row₁, ?_,
    hid₁', _, hm₂.mem hmem₂, (rowAfter_worked hm₂.matching row₂).id.trans hid₂, ?_⟩
  · rw [← h.first_untouched hid₁' hne]
    exact hm₂.mem (hresumed.kept _ hmem₁)
  · exact h.remainder_eq hid hid₁ hid₂ hsize hsize₁ hsize₂ hopen hopen₁ hopen₂

theorem sliced (h : SlicedPlans order first second L.reverse ws ws₁ ws₂) (hs : Snapshot order L w)
    (hs₁ : Snapshot first L w₁) (hresumed : Resumed second L w₁'.db w₂) (hm : MadeBy ws w w')
    (hm₁ : MadeBy ws₁ w₁ w₁') (hm₂ : MadeBy ws₂ w₂ w₂') :
    Sliced order first second L w w' w₁ w₁' w₂ w₂' := by
  refine ⟨?_, ?_, h.remainder hs hs₁ hresumed hm hm₁ hm₂⟩
  · intro r hr
    have hmem₁ := hm₁.mem (hs₁.resting r hr).1
    refine ⟨_, hm.mem (hs.resting r hr).1, _, hm₂.mem (hresumed.kept _ hmem₁), ?_, ?_,
      h.size_eq (List.mem_reverse.mpr hr)⟩
    · exact (rowAfter_worked hm.matching r).id
    · exact (rowAfter_worked hm₂.matching _).id.trans (h.leaves.worked r).id
  · intro r hr price
    rw [hm.traded_sub, hm₁.traded_sub, hm₂.traded_sub]
    exact h.traded_eq (List.mem_reverse.mpr hr) price

end SlicedPlans

end Runs

/-! ## One order in two slices -/

/-- SELL orders, and the limit of the BUYs that are matched with them. -/
structure Offers where
  sells : List NewOrder
  limit : ℚ

namespace Offers

variable (offers : Offers)

def buy (size : ℚ) : NewOrder := .btc 2 .BUY offers.limit size

def tables (size : ℚ) : Tables := Tables.traded.place (offers.sells ++ [offers.buy size])

def order (size : ℚ) : OrderBook :=
  (offers.buy size).saved (offers.sells.length + 1) (offers.sells.length + 1)

def resting : List OrderBook := (offers.tables 1).findOrders .SELL "BTC/USDT" 100 .DESC

def world (size : ℚ) : World :=
  { World.start (offers.tables size) with arrays := [[], offers.resting] }

/-- The world in which a BUY of `size` has been matched. -/
def matched (size : ℚ) : World :=
  ((matchLimitOrder (offers.order size)).run (World.perform .steady) (offers.world size)).2

/-- A second slice, saved after the first. -/
def second (size : ℚ) : OrderBook :=
  (offers.buy size).saved (offers.sells.length + 2) (offers.sells.length + 2)

/-- The second slice is saved, and what the first leaves open is picked up. -/
def resumed (size rest : ℚ) : World :=
  { World.start ((offers.matched size).db.place [offers.buy rest]) with
    arrays := [[], (offers.matched size).db.stillOpen offers.resting] }

/-- A BUY of `size + rest` does what one of `size` and then one of `rest` do. -/
def SlicedAt (size rest : ℚ) : Prop :=
  Sliced (offers.order (size + rest)) (offers.order size) (offers.second rest) offers.resting
    (offers.world (size + rest)) (offers.matched (size + rest)) (offers.world size)
    (offers.matched size) (offers.resumed size rest)
    ((matchLimitOrder (offers.second rest)).run (World.perform .steady)
      (offers.resumed size rest)).2

variable {offers}

theorem slices {size rest : ℚ} (hsize : 0 < size) (hrest : 0 < rest) :
    (offers.order (size + rest)).Slices (offers.order size) (offers.second rest) :=
  ⟨⟨rfl, rfl, rfl, rfl, rfl⟩, ⟨rfl, rfl, rfl, rfl, rfl⟩, hsize, hrest, rfl⟩

theorem stored {size : ℚ} (hround : ∀ row ∈ (offers.tables size).tbl_order_books.rows,
    row.price.map (roundTo 8) = row.price ∧ roundTo 8 row.size = row.size) :
    (offers.tables size).Stored where
  prices row hrow := (hround row hrow).1
  sizes row hrow := by
    rw [← (hround row hrow).2]
    exact isDecimal_roundTo _

theorem snapshot {size : ℚ} (hnd : (offers.resting.map OrderBook.id).Nodup)
    (hresting : ∀ r ∈ offers.resting, r ∈ (offers.tables size).tbl_order_books.rows ∧
      r.side = .SELL ∧ r.is_filled = false ∧ 0 < r.size)
    (hrow : ∃ row ∈ (offers.tables size).tbl_order_books.rows,
      row.id = (offers.order size).id ∧ row.side = .BUY ∧ row.is_filled = false ∧
        row.size = roundTo 8 size) :
    Snapshot (offers.order size) offers.resting (offers.world size) :=
  ⟨Nat.one_lt_two, rfl, hnd, hresting, hrow⟩

theorem resumed_second {size rest : ℚ}
    (hrow : (offers.resumed size rest).db.tbl_order_books.rows =
      (offers.matched size).db.tbl_order_books.rows ++
        [(offers.buy rest).toRow (offers.second rest).id (offers.second rest).id])
    (htrades : (offers.resumed size rest).db.tbl_trades.rows =
      (offers.matched size).db.tbl_trades.rows) :
    Resumed (offers.second rest) offers.resting (offers.matched size).db
      (offers.resumed size rest) :=
  ⟨Nat.one_lt_two, rfl, ⟨_, hrow, rfl, rfl, rfl⟩, htrades⟩

theorem hasTrade (size : ℚ)
    (h : ∃ t ∈ (offers.tables size).tbl_trades.rows, t.symbol = "BTC/USDT") :
    (offers.world size).db.HasTrade (offers.order size).symbol := h

end Offers

/-- SELLs of 3 at 11 and of 1 at 10. -/
def twoLevels : Offers := ⟨[.btc 1 .SELL 11 3, .btc 1 .SELL 10 1], 11⟩

/-- A SELL of 900000000 at 0.1. -/
def largeOffer : Offers := ⟨[.btc 1 .SELL (1 / 10) 900000000], 1 / 10⟩

end Exchange
