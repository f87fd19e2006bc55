import Exchange.OrderBook.Run

/-!
# Sharing the world

What concurrent requests do to each other. Each of them holds an order, a
reference to an array of resting orders and, between the writes of an
execution, copies of both orders; the others meanwhile write to the tables,
reload the book and shrink the rows of shared arrays.

`Step` is what a request may do to the world. Its writes leave entries in the
journal that are `Sound`: they name orders that are in the tables, on opposite
sides, the resting one picked up from the book by the matcher.
-/

namespace Exchange

open Async OrderBookService Store

/-! ## Objects of one order -/

/-- Two objects of the same order. -/
structure Same (r r' : OrderBook) : Prop where
  id : r'.id = r.id
  uid : r'.uid = r.uid
  side : r'.side = r.side
  symbol : r'.symbol = r.symbol

theorem Same.refl (r : OrderBook) : Same r r := ⟨rfl, rfl, rfl, rfl⟩

theorem Same.symm {r r' : OrderBook} (h : Same r r') : Same r' r :=
  ⟨h.id.symm, h.uid.symm, h.side.symm, h.symbol.symm⟩

theorem Same.trans {r r' r'' : OrderBook} (h : Same r r') (h' : Same r' r'') : Same r r'' :=
  ⟨h'.id.trans h.id, h'.uid.trans h.uid, h'.side.trans h.side, h'.symbol.trans h.symbol⟩

/-- `r'` is the object `r` later on; if all orders are positive (`pos`), it has not grown. -/
structure Aged (pos : Prop) (r r' : OrderBook) : Prop extends Same r r' where
  size : pos → Double.fl r'.size ≤ Double.fl r.size

theorem Aged.refl (pos : Prop) (r : OrderBook) : Aged pos r r := ⟨Same.refl r, fun _ => le_refl _⟩

theorem Aged.trans {pos : Prop} {r r' r'' : OrderBook} (h : Aged pos r r') (h' : Aged pos r' r'') :
    Aged pos r r'' :=
  ⟨h.toSame.trans h'.toSame, fun hp => (h'.size hp).trans (h.size hp)⟩

/-- The order of this object has a row. -/
def Tables.Has (db : Tables) (r : OrderBook) : Prop :=
  ∃ r' ∈ db.tbl_order_books.rows, Same r r'

theorem Tables.Has.same {db : Tables} {r r' : OrderBook} (h : db.Has r) (hs : Same r' r) :
    db.Has r' := by
  obtain ⟨row, hrow, hr⟩ := h
  exact ⟨row, hrow, hs.trans hr⟩

/-! ## Entries of the journal -/

/-- An execution over these tables, the resting order being one that the matcher
of an order of the same symbol picked up. -/
structure Execution.Known (x : Execution) (db : Tables) (captures : List Capture) : Prop where
  taker : db.Has x.taker
  maker : db.Has x.maker
  opposite : x.maker.side = x.taker.side.opposite
  captured : ∃ c ∈ captures, c.order.symbol = x.taker.symbol ∧ ∃ r ∈ c.orders, Same r x.maker

/-- A trade that executes the taker against the maker. -/
structure Execution.Trades (pos : Prop) (x : Execution) (t : NewTrade) : Prop where
  symbol : t.symbol = x.taker.symbol
  buyer : t.buyer_id = if x.taker.side = .BUY then x.taker.uid else x.maker.uid
  seller : t.seller_id = if x.taker.side = .BUY then x.maker.uid else x.taker.uid
  size : pos → Double.fl t.size ≤ Double.fl x.taker.size ∧
    Double.fl t.size ≤ Double.fl x.maker.size

def Entry.Sound (pos : Prop) (captures : List Capture) (e : Entry) : Prop :=
  match e.write with
  | .order o _ => o.id = none ∧ (pos → 0 < o.size)
  | .update id _ x => (id = x.taker.id ∨ id = x.maker.id) ∧ x.Known e.before captures
  | .trade t x => x.Trades pos t ∧ x.Known e.before captures

/-- Writes that keep what identifies an order. -/
def Write.Keeps : Write → Prop
  | .order o _ => o.id = none
  | _ => True

theorem Entry.Sound.keeps {pos : Prop} {captures : List Capture} {e : Entry}
    (h : e.Sound pos captures) : e.write.Keeps := by
  unfold Entry.Sound at h
  unfold Write.Keeps
  cases hw : e.write with
  | order o now => rw [hw] at h; exact h.1
  | update id u x => trivial
  | trade t x => trivial

theorem Execution.Known.mono {x : Execution} {db : Tables} {captures captures' : List Capture}
    (h : x.Known db captures) (hc : captures <+: captures') : x.Known db captures' := by
  obtain ⟨c, hcm, hcx⟩ := h.captured
  exact ⟨h.taker, h.maker, h.opposite, c, hc.subset hcm, hcx⟩

theorem Entry.Sound.mono {pos : Prop} {captures captures' : List Capture} {e : Entry}
    (h : e.Sound pos captures) (hc : captures <+: captures') : e.Sound pos captures' := by
  unfold Entry.Sound at *
  split
  · next hw => rw [hw] at h; exact h
  · next hw => rw [hw] at h; exact ⟨h.1, h.2.mono hc⟩
  · next hw => rw [hw] at h; exact ⟨h.1, h.2.mono hc⟩

theorem Tables.Has.write {db : Tables} {r : OrderBook} (h : db.Has r) {wr : Write}
    (hw : wr.Keeps) : (db.write wr).Has r := by
  obtain ⟨row, hrow, hs⟩ := h
  cases wr with
  | order o now =>
    have ho : o.id = none := hw
    refine ⟨row, ?_, hs⟩
    simp only [Tables.write, Tables.saveOrderBook, ho]
    exact List.mem_append_left _ hrow
  | update id u x =>
    by_cases hid : row.id = id
    · exact ⟨u.apply row, Tables.mem_update_self u hrow hid, hs.trans ⟨rfl, rfl, rfl, rfl⟩⟩
    · exact ⟨row, Tables.mem_update_of_ne u hrow hid, hs⟩
  | trade t x => exact ⟨row, hrow, hs⟩

theorem Tables.Has.writeAll {db : Tables} {r : OrderBook} {ws : List Write} (h : db.Has r)
    (hw : ∀ wr ∈ ws, wr.Keeps) : (db.writeAll ws).Has r := by
  induction ws generalizing db with
  | nil => exact h
  | cons wr ws ih =>
    have hwr := List.forall_mem_cons.mp hw
    exact ih (h.write hwr.1) hwr.2

theorem Tables.entries_append (db : Tables) (ws ws' : List Write) :
    db.entries (ws ++ ws') = db.entries ws ++ (db.writeAll ws).entries ws' := by
  induction ws generalizing db with
  | nil => rfl
  | cons wr ws ih => exact congrArg (_ :: ·) (ih _)

theorem Tables.entries_write (db : Tables) (ws : List Write) :
    (db.entries ws).map Entry.write = ws := by
  induction ws generalizing db with
  | nil => rfl
  | cons wr ws ih => exact congrArg (wr :: ·) (ih _)

/-! ## What one request does to the others -/

/-- The arrays hold orders that have rows, the two current ones each of its side. -/
structure World.Sound (w : World) : Prop where
  rows : ∀ l ∈ w.arrays, ∀ r ∈ l, w.db.Has r
  valid : ∀ side, w.side side < w.arrays.length
  sides : ∀ side, ∀ r ∈ w.array (w.side side), r.side = side

theorem World.array_of_get (w : World) {orders : Nat} {l : List OrderBook}
    (h : w.arrays[orders]? = some l) : w.array orders = l := by
  simp [World.array, h]

theorem World.array_eq (w : World) {orders : Nat} (h : orders < w.arrays.length) :
    w.array orders = w.arrays[orders] :=
  w.array_of_get (List.getElem?_eq_getElem h)

/-- What a step of a request may do to the world. -/
structure Step (pos : Prop) (w w' : World) : Prop where
  log : ∃ ws, w'.db = w.db.writeAll ws ∧ w'.journal = w.journal ++ w.db.entries ws ∧
    ∀ e ∈ w.db.entries ws, e.Sound pos w'.captures
  arrays : ∀ (orders : Nat) (l : List OrderBook), w.arrays[orders]? = some l →
    ∃ l', w'.arrays[orders]? = some l' ∧ List.Forall₂ (Aged pos) l l'
  captures : w.captures <+: w'.captures
  sound : w.Sound → w'.Sound

theorem forall₂_aged_refl (pos : Prop) (l : List OrderBook) : List.Forall₂ (Aged pos) l l :=
  List.forall₂_same.mpr fun r _ => Aged.refl pos r

theorem forall₂_aged_trans {pos : Prop} {l l' l'' : List OrderBook}
    (h : List.Forall₂ (Aged pos) l l') (h' : List.Forall₂ (Aged pos) l' l'') :
    List.Forall₂ (Aged pos) l l'' := by
  induction h generalizing l'' with
  | nil => exact h'
  | cons ha _ ih =>
    cases h' with
    | cons ha' hl' => exact .cons (ha.trans ha') (ih hl')

theorem Step.refl (pos : Prop) (w : World) : Step pos w w where
  log := ⟨[], rfl, (List.append_nil _).symm, by simp [Tables.entries]⟩
  arrays := fun _ l h => ⟨l, h, forall₂_aged_refl pos l⟩
  captures := List.prefix_refl _
  sound := fun h => h

theorem Step.trans {pos : Prop} {w w' w'' : World} (h : Step pos w w') (h' : Step pos w' w'') :
    Step pos w w'' where
  log := by
    obtain ⟨ws, hdb, hj, he⟩ := h.log
    obtain ⟨ws', hdb', hj', he'⟩ := h'.log
    refine ⟨ws ++ ws', ?_, ?_, ?_⟩
    · rw [hdb', hdb, Tables.writeAll_append]
    · rw [hj', hj, hdb, Tables.entries_append, List.append_assoc]
    · intro e hmem
      rw [Tables.entries_append, List.mem_append, ← hdb] at hmem
      rcases hmem with hmem | hmem
      · exact (he e hmem).mono h'.captures
      · exact he' e hmem
  arrays := by
    intro orders l hl
    obtain ⟨l', hl', ha⟩ := h.arrays orders l hl
    obtain ⟨l'', hl'', ha'⟩ := h'.arrays orders l' hl'
    exact ⟨l'', hl'', forall₂_aged_trans ha ha'⟩
  captures := h.captures.trans h'.captures
  sound := fun hw => h'.sound (h.sound hw)

section Steps

variable {pos : Prop} {w w' : World}

theorem Step.has (h : Step pos w w') {r : OrderBook} (hr : w.db.Has r) : w'.db.Has r := by
  obtain ⟨ws, hdb, -, he⟩ := h.log
  rw [hdb]
  apply hr.writeAll
  intro wr hwr
  rw [← w.db.entries_write ws] at hwr
  obtain ⟨e, hmem, rfl⟩ := List.mem_map.mp hwr
  exact (he e hmem).keeps

/-- Every object of the second list is a later one of some object of the first. -/
theorem exists_aged {l l' : List OrderBook} (h : List.Forall₂ (Aged pos) l l') {r' : OrderBook}
    (hr : r' ∈ l') : ∃ r ∈ l, Aged pos r r' := by
  induction h with
  | nil => cases hr
  | cons ha _ ih =>
    rcases List.mem_cons.mp hr with rfl | hr
    · exact ⟨_, List.mem_cons_self, ha⟩
    · obtain ⟨r, hmem, har⟩ := ih hr
      exact ⟨r, List.mem_cons_of_mem _ hmem, har⟩

/-- A step that writes nothing and reloads nothing; rows of arrays may shrink. -/
theorem Step.of_aged (hdb : w'.db = w.db) (hj : w'.journal = w.journal)
    (hb : w'.order_books = w.order_books) (hc : w.captures <+: w'.captures)
    (ha : List.Forall₂ (List.Forall₂ (Aged pos)) w.arrays w'.arrays) : Step pos w w' where
  log := ⟨[], hdb, by rw [hj]; exact (List.append_nil _).symm, by simp [Tables.entries]⟩
  arrays := by
    intro orders l hl
    obtain ⟨hlt, rfl⟩ := List.getElem?_eq_some_iff.mp hl
    obtain ⟨hlen, hget⟩ := List.forall₂_iff_get.mp ha
    exact ⟨_, List.getElem?_eq_getElem (hlen ▸ hlt), hget orders hlt (hlen ▸ hlt)⟩
  captures := hc
  sound := by
    obtain ⟨hlen, hget⟩ := List.forall₂_iff_get.mp ha
    have hside : w'.side = w.side := by
      funext side
      cases side <;> simp [World.side, hb]
    intro h
    refine ⟨?_, ?_, ?_⟩
    · intro l' hl' r' hr'
      obtain ⟨orders, hlt, rfl⟩ := List.getElem_of_mem hl'
      obtain ⟨r, hr, har⟩ := exists_aged (hget orders (hlen ▸ hlt) hlt) hr'
      rw [hdb]
      exact (h.rows _ (List.getElem_mem _) r hr).same har.toSame.symm
    · intro side
      rw [hside, ← hlen]
      exact h.valid side
    · intro side r' hr'
      have hlt := h.valid side
      rw [hside, w'.array_eq (hlen ▸ hlt)] at hr'
      obtain ⟨r, hr, har⟩ := exists_aged (hget _ hlt (hlen ▸ hlt)) hr'
      rw [har.side]
      apply h.sides side r
      rw [w.array_eq hlt]
      exact hr

/-- A step that changes neither tables nor books. -/
theorem Step.of_eq (hdb : w'.db = w.db) (hj : w'.journal = w.journal) (ha : w'.arrays = w.arrays)
    (hb : w'.order_books = w.order_books) (hc : w.captures <+: w'.captures) : Step pos w w' := by
  apply Step.of_aged hdb hj hb hc
  rw [ha]
  exact List.forall₂_same.mpr fun l _ => forall₂_aged_refl pos l

theorem Step.tick (w : World) : Step pos w w.tick :=
  Step.of_eq rfl rfl rfl rfl (List.prefix_refl _)

/-- An accepted write whose entry is sound. -/
theorem Step.commit {wr : Write} (h : Entry.Sound pos w.captures ⟨w.db, wr⟩) :
    Step pos w (w.commit wr) where
  log := by
    refine ⟨[wr], rfl, rfl, ?_⟩
    intro e he
    obtain rfl := List.mem_singleton.mp he
    exact h
  arrays := fun _ l hl => ⟨l, hl, forall₂_aged_refl pos l⟩
  captures := List.prefix_refl _
  sound := fun hw => ⟨fun l hl r hr => (hw.rows l hl r hr).write h.keeps, hw.valid, hw.sides⟩

/-- These orders of one side have rows. -/
def World.Lists (w : World) (side : Side) (l : List OrderBook) : Prop :=
  ∀ r ∈ l, r.side = side ∧ w.db.Has r

theorem Step.lists (h : Step pos w w') {side : Side} {l : List OrderBook} (hl : w.Lists side l) :
    w'.Lists side l :=
  fun r hr => ⟨(hl r hr).1, h.has (hl r hr).2⟩

theorem lists_findOrders (w : World) (side : Side) (symbol : String) (limit : Nat)
    (order_by : Direction) : w.Lists side (w.db.findOrders side symbol limit order_by) := by
  intro r hr
  have hopen := mem_of_mem_orderByLimit hr
  simp only [Tables.openOrders, List.mem_filter, decide_eq_true_eq] at hopen
  exact ⟨hopen.2.1, r, hopen.1, Same.refl r⟩

/-- Reloading the book leaves the arrays that are in use as they are. -/
theorem Step.setOrderBooks {now : Nat} {buy_orders sell_orders : List OrderBook}
    (hb : w.Lists .BUY buy_orders) (hs : w.Lists .SELL sell_orders) :
    Step pos w (World.answer now (.setOrderBooks buy_orders sell_orders) w).2 where
  log := ⟨[], rfl, (List.append_nil _).symm, by simp [Tables.entries]⟩
  arrays := by
    intro orders l hl
    refine ⟨l, ?_, forall₂_aged_refl pos l⟩
    have hlt := (List.getElem?_eq_some_iff.mp hl).1
    simpa [World.answer, List.getElem?_append_left hlt] using hl
  captures := List.prefix_refl _
  sound := by
    intro hw
    refine ⟨?_, ?_, ?_⟩
    · intro l hl r hr
      simp only [World.answer, List.mem_append, List.mem_cons, List.not_mem_nil, or_false] at hl
      rcases hl with hl | rfl | rfl
      · exact hw.rows l hl r hr
      · exact (hb r hr).2
      · exact (hs r hr).2
    · intro side
      cases side <;> simp [World.answer, World.side]
    · intro side r hr
      cases side with
      | BUY =>
        simp [World.answer, World.side, World.array] at hr
        exact (hb r hr).1
      | SELL =>
        simp [World.answer, World.side, World.array] at hr
        exact (hs r hr).1

theorem forall₂_modify {β : Type} {R : β → β → Prop} (hrefl : ∀ b, R b b) {l : List β} {i : Nat}
    {f : β → β} (h : ∀ b, l[i]? = some b → R b (f b)) : List.Forall₂ R l (l.modify i f) := by
  apply List.forall₂_iff_get.mpr
  refine ⟨(List.length_modify ..).symm, ?_⟩
  intro j hj hj'
  simp only [List.get_eq_getElem, List.getElem_modify]
  split
  · next hij => exact h _ (hij ▸ List.getElem?_eq_getElem hj)
  · exact hrefl _

/-- Shrinking the row at position `i` of an array. -/
theorem Step.setSize {now orders i : Nat} {size : ℚ} {r : OrderBook}
    (hget : (w.array orders)[i]? = some r) (hsize : pos → Double.fl size ≤ Double.fl r.size) :
    Step pos w (World.answer now (.setSize orders i size) w).2 := by
  have hall : List.Forall₂ (List.Forall₂ (Aged pos)) w.arrays
      (w.arrays.modify orders fun l => l.modify i fun r => { r with size := size }) := by
    apply forall₂_modify (forall₂_aged_refl pos)
    intro l hl
    apply forall₂_modify (Aged.refl pos)
    intro r' hr'
    rw [w.array_of_get hl, hr'] at hget
    cases hget
    exact ⟨⟨rfl, rfl, rfl, rfl⟩, hsize⟩
  exact Step.of_aged rfl rfl rfl (List.prefix_refl _) hall

end Steps

end Exchange
