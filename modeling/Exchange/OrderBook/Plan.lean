import Exchange.OrderBook.Service
import Exchange.Store.Greedy

/-!
# The writes of one match

`Plan m order L ws`: `ws` are the writes of the loop of matcher `m` for `order`
over the resting orders `L`, walked from the first.

Proved here, for every plan:

* matching writes only rewrite rows in place, keep the columns that identify an
  order and never reopen one (`writeAll_rows`, `rowAfter_worked`);
* a covered order is closed (`Plan.closes_order`), otherwise every order
  reached is (`Plan.closes_reached`);
* which rows are touched before a trade (`Plan.at_trade`), and that everything
  that is to be taken is traded (`Plan.trades`).
-/

namespace Exchange

open Async OrderBookService

/-! ## Matching writes -/

/-- A write of a matcher: it inserts no order and reopens none. -/
def Write.Matching : Write → Prop
  | .order .. => False
  | .update _ u _ => u.is_filled ≠ some false
  | .trade .. => True

/-- What a matching write makes of a row. -/
def Write.onRow : Write → OrderBook → OrderBook
  | .update id u _, r => if r.id = id then u.apply r else r
  | _, r => r

def rowAfter (ws : List Write) (r : OrderBook) : OrderBook := ws.foldl (fun r w => w.onRow r) r

def Tables.writeAll (db : Tables) (ws : List Write) : Tables := ws.foldl Tables.write db

/-- The journal of a list of writes. -/
def Tables.entries (db : Tables) : List Write → List Entry
  | [] => []
  | w :: ws => ⟨db, w⟩ :: (db.write w).entries ws

/-- `r'` is the order `r`, possibly further executed. -/
structure Worked (r r' : OrderBook) : Prop where
  id : r'.id = r.id
  uid : r'.uid = r.uid
  side : r'.side = r.side
  symbol : r'.symbol = r.symbol
  price : r'.price = r.price
  orgSize : r'.orgSize = r.orgSize
  created_at : r'.created_at = r.created_at
  numeric : r'.numeric = r.numeric
  filled : r.is_filled = true → r'.is_filled = true

theorem Worked.refl (r : OrderBook) : Worked r r :=
  ⟨rfl, rfl, rfl, rfl, rfl, rfl, rfl, rfl, fun h => h⟩

theorem Worked.trans {r r' r'' : OrderBook} (h : Worked r r') (h' : Worked r' r'') :
    Worked r r'' where
  id := h'.id.trans h.id
  uid := h'.uid.trans h.uid
  side := h'.side.trans h.side
  symbol := h'.symbol.trans h.symbol
  price := h'.price.trans h.price
  orgSize := h'.orgSize.trans h.orgSize
  created_at := h'.created_at.trans h.created_at
  numeric := h'.numeric.trans h.numeric
  filled := fun hf => h'.filled (h.filled hf)

theorem Worked.held {r r' : OrderBook} (h : Worked r r') : r'.held = r.held := by
  unfold OrderBook.held
  rw [h.price, h.numeric]

theorem Worked.open {r r' : OrderBook} (h : Worked r r') (ho : r'.is_filled = false) :
    r.is_filled = false := by
  cases hr : r.is_filled with
  | false => rfl
  | true => rw [h.filled hr] at ho; exact ho

theorem Write.onRow_worked {w : Write} (h : w.Matching) (r : OrderBook) :
    Worked r (w.onRow r) := by
  cases w with
  | order o now => exact h.elim
  | trade t x => exact Worked.refl r
  | update id u x =>
    simp only [Write.onRow]
    split
    · refine ⟨rfl, rfl, rfl, rfl, rfl, rfl, rfl, rfl, fun hf => ?_⟩
      simp only [Write.Matching] at h
      rcases hu : u.is_filled with _ | b
      · simp [OrderUpdate.apply, hu, hf]
      · cases b with
        | false => exact absurd hu h
        | true => simp [OrderUpdate.apply, hu]
    · exact Worked.refl r

theorem rowAfter_worked {ws : List Write} (h : ∀ w ∈ ws, w.Matching) (r : OrderBook) :
    Worked r (rowAfter ws r) := by
  induction ws generalizing r with
  | nil => exact Worked.refl r
  | cons w ws ih =>
    rw [List.forall_mem_cons] at h
    exact (Write.onRow_worked h.1 r).trans (ih h.2 _)

/-- `ws` writes to the order with key `id`. -/
def Touches (ws : List Write) (id : Nat) : Prop := ∃ update x, Write.update id update x ∈ ws

/-- `ws` closes the order with key `id`. -/
def Closes (ws : List Write) (id : Nat) : Prop :=
  ∃ update x, Write.update id update x ∈ ws ∧ update.is_filled = some true

theorem Touches.append {ws ws' : List Write} {id : Nat} :
    Touches (ws ++ ws') id ↔ Touches ws id ∨ Touches ws' id := by
  simp only [Touches, List.mem_append, exists_or]

theorem Closes.append {ws ws' : List Write} {id : Nat} :
    Closes (ws ++ ws') id ↔ Closes ws id ∨ Closes ws' id := by
  simp only [Closes, List.mem_append, or_and_right, exists_or]

/-- A row that no write touches is unchanged. -/
theorem rowAfter_untouched {ws : List Write} {r : OrderBook} (h : ¬ Touches ws r.id) :
    rowAfter ws r = r := by
  induction ws with
  | nil => rfl
  | cons w ws ih =>
    have hw : w.onRow r = r := by
      cases w with
      | update id u x =>
        have : r.id ≠ id := fun e => h ⟨u, x, by simp [e]⟩
        simp [Write.onRow, this]
      | _ => rfl
    change rowAfter ws (w.onRow r) = r
    rw [hw]
    exact ih fun ⟨u, x, hm⟩ => h ⟨u, x, List.mem_cons_of_mem _ hm⟩

theorem rowAfter_closed {ws : List Write} (hws : ∀ w ∈ ws, w.Matching) {r : OrderBook}
    (h : Closes ws r.id) : (rowAfter ws r).is_filled = true := by
  induction ws generalizing r with
  | nil => obtain ⟨u, x, hm, -⟩ := h; simp at hm
  | cons w ws ih =>
    rw [List.forall_mem_cons] at hws
    change (rowAfter ws (w.onRow r)).is_filled = true
    have hid := (Write.onRow_worked hws.1 r).id
    obtain ⟨u, x, hm, hu⟩ := h
    rcases List.mem_cons.mp hm with rfl | hm
    · apply (rowAfter_worked hws.2 _).filled
      simp [Write.onRow, OrderUpdate.apply, hu]
    · exact ih hws.2 ⟨u, x, hid ▸ hm, hu⟩

theorem Tables.write_rows {w : Write} (h : w.Matching) (db : Tables) :
    (db.write w).tbl_order_books.rows = db.tbl_order_books.rows.map w.onRow := by
  cases w with
  | order o now => exact h.elim
  | trade t x => exact (List.map_id _).symm
  | update id u x => rfl

theorem Tables.next_le_write (db : Tables) (wr : Write) :
    db.tbl_trades.next ≤ (db.write wr).tbl_trades.next := by
  cases wr with
  | order o now => rw [Tables.write, Tables.saveOrderBook_trades]
  | update id u x => exact le_refl _
  | trade t x => exact le_max_left _ _

theorem Tables.next_le_writeAll (db : Tables) (ws : List Write) :
    db.tbl_trades.next ≤ (db.writeAll ws).tbl_trades.next := by
  induction ws generalizing db with
  | nil => exact le_refl _
  | cons wr ws ih => exact (db.next_le_write wr).trans (ih _)

theorem Tables.writeAll_append (db : Tables) (ws ws' : List Write) :
    db.writeAll (ws ++ ws') = (db.writeAll ws).writeAll ws' := List.foldl_append ..

theorem Tables.writeAll_rows {ws : List Write} (h : ∀ w ∈ ws, w.Matching) (db : Tables) :
    (db.writeAll ws).tbl_order_books.rows = db.tbl_order_books.rows.map (rowAfter ws) := by
  induction ws generalizing db with
  | nil => exact (List.map_id _).symm
  | cons w ws ih =>
    rw [List.forall_mem_cons] at h
    change ((db.write w).writeAll ws).tbl_order_books.rows = _
    rw [ih h.2, Tables.write_rows h.1, List.map_map]
    rfl

/-- Matching writes only append to the trades: what `φ` reads of the new rows, `ψ`
reads of the writes. -/
theorem Tables.writeAll_reads {β : Type} {φ : Trade → β} {ψ : Write → Option β}
    (htrade : ∀ t x id, ψ (.trade t x) = some (φ (t.toRow id)))
    (hupdate : ∀ id u x, ψ (.update id u x) = none) (db : Tables) {ws : List Write}
    (h : ∀ w ∈ ws, w.Matching) :
    ∃ rows, (db.writeAll ws).tbl_trades.rows = db.tbl_trades.rows ++ rows ∧
      rows.map φ = ws.filterMap ψ := by
  induction ws generalizing db with
  | nil => exact ⟨[], (List.append_nil _).symm, rfl⟩
  | cons w ws ih =>
    rw [List.forall_mem_cons] at h
    obtain ⟨rows, hrows, hread⟩ := ih (db.write w) h.2
    cases w with
    | order o now => exact h.1.elim
    | update id u x =>
      refine ⟨rows, hrows, ?_⟩
      rw [hread, List.filterMap_cons_none (hupdate id u x)]
    | trade t x =>
      refine ⟨t.toRow db.tbl_trades.next :: rows, ?_, ?_⟩
      · exact hrows.trans (List.append_assoc ..)
      · rw [List.map_cons, hread, List.filterMap_cons_some (htrade t x _)]

theorem Tables.mem_entries {db : Tables} {ws : List Write} {e : Entry} :
    e ∈ db.entries ws ↔ ∃ pre post, ws = pre ++ e.write :: post ∧ e.before = db.writeAll pre := by
  induction ws generalizing db with
  | nil => simp [Tables.entries]
  | cons w ws ih =>
    simp only [Tables.entries, List.mem_cons, ih]
    constructor
    · rintro (rfl | ⟨pre, post, rfl, h⟩)
      · exact ⟨[], ws, rfl, rfl⟩
      · exact ⟨w :: pre, post, rfl, h⟩
    · rintro ⟨_ | ⟨w', pre⟩, post, h, hb⟩
      · obtain ⟨rfl, rfl⟩ := List.cons.inj h
        exact .inl (by cases e; simp_all [Tables.writeAll])
      · obtain ⟨rfl, rfl⟩ := List.cons.inj h
        exact .inr ⟨pre, post, rfl, hb⟩

/-! ## Plans -/

namespace OrderBookService

/-- Sizes are compared and subtracted as doubles. -/
def doubles : Greedy.Arith ℚ := ⟨fun s q => Double.fl s ≤ Double.fl q, Double.sub⟩

@[simp] theorem doubles_meets (s q : ℚ) : doubles.meets s q = decide (Double.fl s ≤ Double.fl q) :=
  rfl

@[simp] theorem doubles_less (s q : ℚ) : doubles.less s q = Double.sub s q := rfl

end OrderBookService

namespace OrderBookService.Matcher

variable (m : Matcher)

/-- The writes that fill `order` from `r` and end the loop. -/
def fullWrites (order r : OrderBook) (t₁ t₂ t₃ : Nat) : List Write :=
  [.update order.id {
      is_filled := some true
      size := 0
      settled_at := some t₁
      fills := parseFills order.fills ++ [⟨order.size, m.fullTakerPrice order.price r.price⟩] }
    ⟨order, r⟩,
   .trade (m.trade order r order.size m.full_is_buyer t₂) ⟨order, r⟩,
   .update r.id (
      let fills := parseFills r.fills ++ [⟨order.size, m.fullMakerPrice order.price r.price⟩]
      if Double.sub r.size order.size = 0 then
        { is_filled := some true, size := 0, fills := fills, settled_at := some t₃ }
      else { size := Double.sub r.size order.size, fills := fills })
    ⟨order, r⟩]

/-- The fills of `order` after taking the whole of `r`. -/
def partFills (order r : OrderBook) : List Fill :=
  parseFills order.fills ++ [⟨r.size, m.partTakerPrice order.price r.price⟩]

/-- The writes that take the whole of `r`. -/
def partWrites (order r : OrderBook) (t₁ t₂ : Nat) : List Write :=
  [.update r.id {
      is_filled := some true
      size := 0
      settled_at := some t₁
      fills := parseFills r.fills ++ [⟨r.size, m.partMakerPrice order.price r.price⟩] }
    ⟨order, r⟩,
   .trade (m.trade order r r.size m.part_is_buyer t₂) ⟨order, r⟩,
   .update order.id { size := Double.sub order.size r.size, fills := m.partFills order r }
    ⟨order, r⟩]

/-- The order with which the loop goes on. -/
def rest (order r : OrderBook) : OrderBook :=
  { order with size := Double.sub order.size r.size, fills := some (m.partFills order r) }

@[simp] theorem rest_id (order r : OrderBook) : (m.rest order r).id = order.id := rfl

@[simp] theorem rest_uid (order r : OrderBook) : (m.rest order r).uid = order.uid := rfl

@[simp] theorem rest_symbol (order r : OrderBook) : (m.rest order r).symbol = order.symbol := rfl

@[simp] theorem rest_price (order r : OrderBook) : (m.rest order r).price = order.price := rfl

@[simp] theorem rest_held (order r : OrderBook) : (m.rest order r).held = order.held := rfl

@[simp] theorem rest_size (order r : OrderBook) :
    (m.rest order r).size = Double.sub order.size r.size := rfl

/-- The resting order ends the walk. -/
def halts (price : Text.Value) (r : OrderBook) : Bool := m.stop price r.held

end OrderBookService.Matcher

/-- Either way the update of the resting order sets the size that is left. -/
theorem Matcher.full_size (order r : OrderBook) (fills : List Fill) (t : Nat) :
    (if Double.sub r.size order.size = 0 then
      { is_filled := some true, size := 0, fills := fills, settled_at := some t }
    else { size := Double.sub r.size order.size, fills := fills } : OrderUpdate).size =
      Double.sub r.size order.size := by
  split
  · next h => exact h.symm
  · rfl

/-- The writes of the loop, for some clock readings in each pass. -/
inductive Plan (m : Matcher) : OrderBook → List OrderBook → List Write → Prop
  | nil (order : OrderBook) : Plan m order [] []
  | stop {order r : OrderBook} (L : List OrderBook) (h : m.halts order.held r = true) :
      Plan m order (r :: L) []
  | full {order r : OrderBook} (L : List OrderBook) (t₁ t₂ t₃ : Nat)
      (h : m.halts order.held r = false) (hs : Double.fl order.size ≤ Double.fl r.size) :
      Plan m order (r :: L) (m.fullWrites order r t₁ t₂ t₃)
  | part {order r : OrderBook} {L : List OrderBook} {ws : List Write} (t₁ t₂ : Nat)
      (h : m.halts order.held r = false) (hs : Double.fl r.size < Double.fl order.size)
      (hp : Plan m (m.rest order r) L ws) :
      Plan m order (r :: L) (m.partWrites order r t₁ t₂ ++ ws)

theorem exists_plan (m : Matcher) (order : OrderBook) (L : List OrderBook) :
    ∃ ws, Plan m order L ws := by
  induction L generalizing order with
  | nil => exact ⟨_, .nil order⟩
  | cons r L ih =>
    cases h : m.halts order.held r with
    | true => exact ⟨_, .stop L h⟩
    | false =>
      rcases le_or_gt (Double.fl order.size) (Double.fl r.size) with hs | hs
      · exact ⟨_, .full L 0 0 0 h hs⟩
      · obtain ⟨ws, hws⟩ := ih (m.rest order r)
        exact ⟨_, .part 0 0 h hs hws⟩

namespace Plan

variable {m : Matcher} {order r : OrderBook} {L : List OrderBook} {ws : List Write}

/-! The first resting order decides how a plan begins. -/

theorem of_halts (h : Plan m order (r :: L) ws) (hr : m.halts order.held r = true) : ws = [] := by
  cases h with
  | stop => rfl
  | full L t₁ t₂ t₃ h hs => rw [h] at hr; cases hr
  | part t₁ t₂ h hs hp => rw [h] at hr; cases hr

theorem of_full (h : Plan m order (r :: L) ws) (hr : m.halts order.held r = false)
    (hs : Double.fl order.size ≤ Double.fl r.size) :
    ∃ t₁ t₂ t₃, ws = m.fullWrites order r t₁ t₂ t₃ := by
  cases h with
  | stop L h => rw [h] at hr; cases hr
  | full L t₁ t₂ t₃ h hs => exact ⟨t₁, t₂, t₃, rfl⟩
  | part t₁ t₂ h hs' hp => exact absurd hs hs'.not_ge

theorem of_part (h : Plan m order (r :: L) ws) (hr : m.halts order.held r = false)
    (hs : Double.fl r.size < Double.fl order.size) :
    ∃ t₁ t₂ rest, ws = m.partWrites order r t₁ t₂ ++ rest ∧ Plan m (m.rest order r) L rest := by
  cases h with
  | stop L h => rw [h] at hr; cases hr
  | full L t₁ t₂ t₃ h hs' => exact absurd hs' hs.not_ge
  | part t₁ t₂ h hs hp => exact ⟨t₁, t₂, _, rfl, hp⟩

theorem matching (h : Plan m order L ws) : ∀ w ∈ ws, w.Matching := by
  induction h with
  | nil | stop => simp
  | full L t₁ t₂ t₃ h hs =>
    simp only [Matcher.fullWrites, List.forall_mem_cons, Write.Matching]
    refine ⟨by simp, trivial, ?_, by simp⟩
    split <;> simp
  | part t₁ t₂ h hs hp ih =>
    simp only [List.forall_mem_append, Matcher.partWrites, List.forall_mem_cons, Write.Matching]
    exact ⟨⟨by simp, trivial, by simp, by simp⟩, ih⟩

/-- The demand of an order on the resting orders. -/
abbrev Covered (m : Matcher) (order : OrderBook) (L : List OrderBook) : Prop :=
  Greedy.covered doubles (m.halts order.held) OrderBook.size order.size L = true

theorem closes_order (h : Plan m order L ws) (hc : Covered m order L) : Closes ws order.id := by
  induction h with
  | nil => simp [Covered, Greedy.covered] at hc
  | stop L h => simp [Covered, Greedy.covered, h] at hc
  | full L t₁ t₂ t₃ h hs => exact ⟨_, _, List.mem_cons_self .., rfl⟩
  | part t₁ t₂ h hs hp ih =>
    refine Closes.append.mpr (.inr (ih ?_))
    simpa [Covered, Greedy.covered, h, hs.not_ge] using hc

theorem closes_reached (h : Plan m order L ws) (hc : ¬ Covered m order L) :
    ∀ r ∈ Greedy.reach (m.halts order.held) L, Closes ws r.id := by
  induction h with
  | nil => simp [Greedy.reach]
  | stop L h => simp [Greedy.reach, h]
  | full L t₁ t₂ t₃ h hs => simp [Covered, Greedy.covered, h, hs] at hc
  | @part order r L ws t₁ t₂ h hs hp ih =>
    intro r' hr'
    simp only [Greedy.reach, List.takeWhile_cons, h, Bool.not_false, if_true,
      List.mem_cons] at hr'
    refine Closes.append.mpr ?_
    rcases hr' with rfl | hr'
    · exact .inl ⟨_, _, List.mem_cons_self .., rfl⟩
    · refine .inr (ih ?_ r' hr')
      simpa [Covered, Greedy.covered, h, hs.not_ge] using hc

/-! ## Trades -/

end Plan

/-- What a trade takes from whom. -/
def Write.taken : Write → Option (OrderBook × ℚ)
  | .trade t x => some (x.maker, t.size)
  | _ => none

/-- The execution a trade records. -/
def Write.traded : Write → Option Execution
  | .trade _ x => some x
  | _ => none

theorem Write.mem_traded {w : Write} {x : Execution} : x ∈ w.traded ↔ ∃ t, w = .trade t x := by
  cases w <;> simp [Write.traded, eq_comm]

theorem taken_fullWrites (m : Matcher) (order r : OrderBook) (t₁ t₂ t₃ : Nat) :
    (m.fullWrites order r t₁ t₂ t₃).filterMap Write.taken = [(r, order.size)] := rfl

theorem taken_partWrites (m : Matcher) (order r : OrderBook) (t₁ t₂ : Nat) :
    (m.partWrites order r t₁ t₂).filterMap Write.taken = [(r, r.size)] := rfl

theorem touches_partWrites {m : Matcher} {order r : OrderBook} {t₁ t₂ id : Nat} :
    Touches (m.partWrites order r t₁ t₂) id ↔ id = r.id ∨ id = order.id := by
  constructor
  · rintro ⟨u, x, h⟩
    simp only [Matcher.partWrites, List.mem_cons, Write.update.injEq, reduceCtorEq,
      List.not_mem_nil, or_false, false_or] at h
    exact h.imp And.left And.left
  · rintro (rfl | rfl)
    · exact ⟨_, _, List.mem_cons_self ..⟩
    · exact ⟨_, _, List.mem_cons_of_mem _ (List.mem_cons_of_mem _ (List.mem_cons_self ..))⟩

theorem closes_partWrites (m : Matcher) (order r : OrderBook) (t₁ t₂ : Nat) :
    Closes (m.partWrites order r t₁ t₂) r.id :=
  ⟨_, _, List.mem_cons_self .., rfl⟩

namespace Plan

variable {m : Matcher} {order : OrderBook} {L : List OrderBook} {ws : List Write}

/-- The orders to be taken, each with the size taken. -/
abbrev fills (m : Matcher) (order : OrderBook) (L : List OrderBook) : List (OrderBook × ℚ) :=
  Greedy.fills doubles (m.halts order.held) OrderBook.size order.size L

theorem fills_stop {r : OrderBook} (h : m.halts order.held r = true) :
    fills m order (r :: L) = [] := by
  simp [fills, Greedy.fills, h]

theorem fills_full {r : OrderBook} (h : m.halts order.held r = false)
    (hs : Double.fl order.size ≤ Double.fl r.size) :
    fills m order (r :: L) = [(r, order.size)] := by
  simp [fills, Greedy.fills, h, hs]

theorem fills_part {r : OrderBook} (h : m.halts order.held r = false)
    (hs : Double.fl r.size < Double.fl order.size) :
    fills m order (r :: L) = (r, r.size) :: fills m (m.rest order r) L := by
  simp [fills, Greedy.fills, h, hs.not_ge]

/-- The orders that are reached, each after the size with which it is. -/
abbrev passes (m : Matcher) (order : OrderBook) (L : List OrderBook) : List (ℚ × OrderBook) :=
  Greedy.passes doubles (m.halts order.held) OrderBook.size order.size L

theorem passes_full {r : OrderBook} (h : m.halts order.held r = false)
    (hs : Double.fl order.size ≤ Double.fl r.size) :
    passes m order (r :: L) = [(order.size, r)] := by
  simp [passes, Greedy.passes, h, hs]

theorem passes_part {r : OrderBook} (h : m.halts order.held r = false)
    (hs : Double.fl r.size < Double.fl order.size) :
    passes m order (r :: L) = (order.size, r) :: passes m (m.rest order r) L := by
  simp [passes, Greedy.passes, h, hs.not_ge]

/-- The trades of a plan are the greedy filling of the order. -/
theorem taken_eq (h : Plan m order L ws) : ws.filterMap Write.taken = fills m order L := by
  induction h with
  | nil => rfl
  | stop L h => exact (fills_stop h).symm
  | full L t₁ t₂ t₃ h hs => rw [fills_full h hs, taken_fullWrites]
  | part t₁ t₂ h hs hp ih =>
    rw [List.filterMap_append, ih, taken_partWrites, fills_part h hs]
    rfl

theorem trade_eq (h : Plan m order L ws) {t : NewTrade} {x : Execution}
    (hm : Write.trade t x ∈ ws) :
    x.taker.id = order.id ∧ ∃ is_buyer now, t = m.trade order x.maker t.size is_buyer now := by
  induction h with
  | nil | stop => simp at hm
  | full L t₁ t₂ t₃ h hs =>
    simp only [Matcher.fullWrites, List.mem_cons, Write.trade.injEq, List.not_mem_nil, or_false,
      reduceCtorEq, false_or] at hm
    obtain ⟨rfl, rfl⟩ := hm
    exact ⟨rfl, _, _, rfl⟩
  | part t₁ t₂ h hs hp ih =>
    simp only [Matcher.partWrites, List.mem_append, List.mem_cons, Write.trade.injEq,
      List.not_mem_nil, or_false, reduceCtorEq, false_or] at hm
    rcases hm with ⟨rfl, rfl⟩ | hm
    · exact ⟨rfl, _, _, rfl⟩
    · exact ih hm

theorem touches_fullWrites {r : OrderBook} {t₁ t₂ t₃ id : Nat} :
    Touches (m.fullWrites order r t₁ t₂ t₃) id ↔ id = r.id ∨ id = order.id := by
  constructor
  · rintro ⟨u, x, h⟩
    simp only [Matcher.fullWrites, List.mem_cons, Write.update.injEq, reduceCtorEq,
      List.not_mem_nil, or_false, false_or] at h
    exact h.symm.imp And.left And.left
  · rintro (rfl | rfl)
    · exact ⟨_, _, List.mem_cons_of_mem _ (List.mem_cons_of_mem _ (List.mem_cons_self ..))⟩
    · exact ⟨_, _, List.mem_cons_self ..⟩

/-- A plan writes to the orders it takes from, and to the order itself if it takes anything. -/
theorem touches (h : Plan m order L ws) {id : Nat} (ht : Touches ws id) :
    id = order.id ∧ fills m order L ≠ [] ∨ ∃ f ∈ fills m order L, id = f.1.id := by
  induction h with
  | nil | stop => simp [Touches] at ht
  | full L t₁ t₂ t₃ h hs =>
    rw [fills_full h hs]
    rcases touches_fullWrites.mp ht with rfl | rfl
    · exact .inr ⟨_, List.mem_singleton_self _, rfl⟩
    · exact .inl ⟨rfl, List.cons_ne_nil _ _⟩
  | part t₁ t₂ h hs hp ih =>
    rw [fills_part h hs]
    rcases Touches.append.mp ht with ht | ht
    · rcases touches_partWrites.mp ht with rfl | rfl
      · exact .inr ⟨_, List.mem_cons_self, rfl⟩
      · exact .inl ⟨rfl, List.cons_ne_nil _ _⟩
    · rcases ih ht with ⟨rfl, -⟩ | ⟨f, hf, rfl⟩
      · exact .inl ⟨rfl, List.cons_ne_nil _ _⟩
      · exact .inr ⟨f, List.mem_cons_of_mem _ hf, rfl⟩

/-- A plan begins with an update. -/
theorem head_eq {w : Write} (h : Plan m order L (w :: ws)) : ∃ id u x, w = .update id u x := by
  generalize he : w :: ws = ws' at h
  cases h with
  | nil | stop => simp at he
  | full => exact ⟨_, _, _, (List.cons.inj he).1⟩
  | part => exact ⟨_, _, _, (List.cons.inj he).1⟩

/-- Before a trade the plan has touched the order itself, the resting order, and
the orders taken before, which it has closed. -/
theorem before_trade (h : Plan m order L ws) {pre post : List Write} {t : NewTrade}
    {x : Execution} (he : ws = pre ++ .trade t x :: post) :
    (∀ r ∈ pre.filterMap Write.taken, Closes pre r.1.id) ∧
      ∀ id, Touches pre id →
        id = order.id ∨ id = x.maker.id ∨ ∃ r ∈ pre.filterMap Write.taken, id = r.1.id := by
  induction h generalizing pre with
  | nil | stop => simp at he
  | full L t₁ t₂ t₃ h hs =>
    -- the only trade stands second, after the update of the order
    rcases pre with _ | ⟨w₁, _ | ⟨w₂, _ | ⟨w₃, pre⟩⟩⟩ <;> simp [Matcher.fullWrites] at he
    obtain ⟨rfl, ⟨rfl, rfl⟩, -⟩ := he
    refine ⟨by simp [Write.taken], ?_⟩
    rintro id ⟨u, y, hu⟩
    simp only [List.mem_singleton, Write.update.injEq] at hu
    exact .inl hu.1
  | @part order r L ws t₁ t₂ h hs hp ih =>
    rcases pre with _ | ⟨w₁, _ | ⟨w₂, _ | ⟨w₃, pre⟩⟩⟩ <;> simp [Matcher.partWrites] at he
    · -- the trade of this pass, after the update of the resting order
      obtain ⟨rfl, ⟨rfl, rfl⟩, -⟩ := he
      refine ⟨by simp [Write.taken], ?_⟩
      rintro id ⟨u, y, hu⟩
      simp only [List.mem_singleton, Write.update.injEq] at hu
      exact .inr (.inl hu.1)
    · -- a trade of a later pass
      obtain ⟨rfl, rfl, rfl, he⟩ := he
      obtain ⟨hc, ht⟩ := ih he
      change (∀ r' ∈ (m.partWrites order r t₁ t₂ ++ pre).filterMap Write.taken,
          Closes (m.partWrites order r t₁ t₂ ++ pre) r'.1.id) ∧
        ∀ id, Touches (m.partWrites order r t₁ t₂ ++ pre) id → id = order.id ∨ id = x.maker.id ∨
          ∃ r' ∈ (m.partWrites order r t₁ t₂ ++ pre).filterMap Write.taken, id = r'.1.id
      simp only [List.filterMap_append, taken_partWrites, Closes.append, Touches.append,
        touches_partWrites, List.mem_append, List.mem_singleton]
      refine ⟨?_, ?_⟩
      · rintro r' (rfl | hr')
        · exact .inl (closes_partWrites ..)
        · exact .inr (hc r' hr')
      · rintro id ((rfl | rfl) | hid)
        · exact .inr (.inr ⟨_, .inl rfl, rfl⟩)
        · exact .inl rfl
        · rcases ht id hid with h | h | ⟨r', hr', h⟩
          · exact .inl h
          · exact .inr (.inl h)
          · exact .inr (.inr ⟨r', .inr hr', h⟩)

end Plan

end Exchange
