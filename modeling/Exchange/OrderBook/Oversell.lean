import Exchange.OrderBook.Interleaving
import Exchange.Store.Quota

/-!
# Overselling under interleaving

A matcher walks a copy of the book across many awaits and writes absolute sizes
back, so two requests can execute one resting order twice (`sold_twice`).

`Entry.UpToDate` says that the two sizes a matcher holds when it trades are still
there; along every interleaving whose trades are all up to date, no user sells
or buys more than the user's orders brought in (`not_oversold`).
-/

namespace Exchange

open Async OrderBookService Store

/-! ## What orders bring in and what trades take -/

/-- An order as a source of size: open at the start, or submitted later. -/
structure Supply where
  id : Nat
  uid : Nat
  side : Side
  size : ℚ

def OrderBook.supply (r : OrderBook) : Supply where
  id := r.id
  uid := r.uid
  side := r.side
  size := if r.is_filled then 0 else r.size

def Entry.supply (e : Entry) : Option Supply :=
  match e.write with
  | .order o _ => some ⟨e.before.tbl_order_books.next, o.uid, o.side, o.size⟩
  | _ => none

/-- The orders of the start tables and those submitted since. -/
def supplies (db : Tables) (journal : List Entry) : List Supply :=
  db.tbl_order_books.rows.map OrderBook.supply ++ journal.filterMap Entry.supply

def Supply.put (s : Supply) : Nat × ℚ := (s.id, s.size)

/-- The total size that a user's orders of one side brought in. -/
def submitted (db : Tables) (journal : List Entry) (side : Side) (u : Nat) : ℚ :=
  (((supplies db journal).filter fun s => s.side = side ∧ s.uid = u).map Supply.size).sum

/-- The total size of a user's trades with key at least `n`. -/
def Tables.tradedSince (n : Nat) (db : Tables) (side : Side) (u : Nat) : ℚ :=
  ((db.tbl_trades.rows.filter fun t => t.party side = u ∧ n ≤ t.id).map Trade.size).sum

/-- The order of an execution that is on this side. -/
def Execution.on (x : Execution) (side : Side) : OrderBook :=
  if x.taker.side = side then x.taker else x.maker

/-- What a trade takes from the order of this side. -/
def Entry.draw (side : Side) (e : Entry) : Option (Nat × ℚ) :=
  match e.write with
  | .trade t x => some ((x.on side).id, roundTo 8 t.size)
  | _ => none

/-- When a trade is recorded, the sizes that the matcher holds are left of the two
orders: they were brought in, and the trades before did not take them. The trade is
no larger than either as a decimal, as it is as a double: two decimals of sixteen
digits may be one double. -/
def Entry.UpToDate (db : Tables) (before : List Entry) (e : Entry) : Prop :=
  match e.write with
  | .trade t x => ∀ side, roundTo 8 t.size ≤ roundTo 8 (x.on side).size ∧
      onKey (before.filterMap (Entry.draw side)) (x.on side).id + roundTo 8 (x.on side).size ≤
        onKey ((supplies db before).map Supply.put) (x.on side).id
  | _ => True

/-- Every trade of the journal is up to date. -/
def UpToDate (db : Tables) (journal : List Entry) : Prop :=
  ∀ i, ∀ h : i < journal.length, journal[i].UpToDate db (journal.take i)

instance (P : Side → Prop) [DecidablePred P] : Decidable (∀ side, P side) :=
  decidable_of_iff (P .BUY ∧ P .SELL)
    ⟨fun h side => by cases side; exacts [h.1, h.2], fun h => ⟨h _, h _⟩⟩

instance (db : Tables) (before : List Entry) : DecidablePred (Entry.UpToDate db before)
  | ⟨_, .order ..⟩ => inferInstanceAs (Decidable True)
  | ⟨_, .update ..⟩ => inferInstanceAs (Decidable True)
  | ⟨_, .trade t x⟩ => inferInstanceAs (Decidable (∀ side,
      roundTo 8 t.size ≤ roundTo 8 (x.on side).size ∧
        onKey (before.filterMap (Entry.draw side)) (x.on side).id + roundTo 8 (x.on side).size ≤
          onKey ((supplies db before).map Supply.put) (x.on side).id))

instance (db : Tables) (journal : List Entry) : Decidable (UpToDate db journal) :=
  inferInstanceAs (Decidable (∀ i, ∀ h : i < journal.length,
    journal[i].UpToDate db (journal.take i)))

/-! ## Accounts -/

def OrderBook.account (r : OrderBook) : Nat × Nat × Side := (r.id, r.uid, r.side)

def Supply.account (s : Supply) : Nat × Nat × Side := (s.id, s.uid, s.side)

theorem accounts_write (db : Tables) {wr : Write} (hw : wr.Keeps) :
    (db.write wr).tbl_order_books.rows.map OrderBook.account =
      db.tbl_order_books.rows.map OrderBook.account ++
        (Entry.supply ⟨db, wr⟩).toList.map Supply.account := by
  cases wr with
  | order o now =>
    have ho : o.id = none := hw
    simp only [Tables.write, Tables.saveOrderBook, ho]
    exact List.map_append
  | update id u x =>
    have hrow : ∀ r : OrderBook, (if r.id = id then u.apply r else r).account = r.account := by
      intro r
      split <;> rfl
    change (db.tbl_order_books.rows.map _).map OrderBook.account = _ ++ []
    rw [List.append_nil, List.map_map]
    exact List.map_congr_left fun r _ => hrow r
  | trade t x => exact (List.append_nil _).symm

/-- The rows are those of the supplies. -/
theorem accounts_supplies (db : Tables) {ws : List Write} (hw : ∀ wr ∈ ws, wr.Keeps) :
    (supplies db (db.entries ws)).map Supply.account =
      (db.writeAll ws).tbl_order_books.rows.map OrderBook.account := by
  have hstart : ∀ db : Tables, (db.tbl_order_books.rows.map OrderBook.supply).map Supply.account =
      db.tbl_order_books.rows.map OrderBook.account := by
    intro db
    rw [List.map_map]
    rfl
  induction ws generalizing db with
  | nil => simpa [supplies, Tables.entries, Tables.writeAll] using hstart db
  | cons wr ws ih =>
    have hwr := List.forall_mem_cons.mp hw
    have hrest := ih (db.write wr) hwr.2
    rw [supplies, List.map_append, hstart, accounts_write db hwr.1] at hrest
    rw [supplies, List.map_append, hstart]
    change _ = ((db.write wr).writeAll ws).tbl_order_books.rows.map OrderBook.account
    rw [← hrest, List.append_assoc, Tables.entries]
    congr 1
    cases hs : Entry.supply ⟨db, wr⟩ with
    | none => rw [List.filterMap_cons_none hs]; rfl
    | some s => rw [List.filterMap_cons_some hs]; rfl

theorem Tables.entries_split {db : Tables} {ws : List Write} {before after : List Entry} {e : Entry}
    (h : db.entries ws = before ++ e :: after) :
    ∃ ws₁ ws₂, ws = ws₁ ++ e.write :: ws₂ ∧ before = db.entries ws₁ ∧
      e.before = db.writeAll ws₁ := by
  induction before generalizing db ws with
  | nil =>
    cases ws with
    | nil => cases h
    | cons wr ws =>
      cases h
      exact ⟨[], ws, rfl, rfl, rfl⟩
  | cons e' before ih =>
    cases ws with
    | nil => cases h
    | cons wr ws =>
      obtain ⟨rfl, htail⟩ := List.cons.inj h
      obtain ⟨ws₁, ws₂, rfl, rfl, he⟩ := ih htail
      exact ⟨wr :: ws₁, ws₂, rfl, rfl, he⟩

/-! ## Owners -/

section Run

variable {pos : Prop} {db : Tables} {ws : List Write} {captures : List Capture}

theorem Tables.keeps_of_sound (h : ∀ e ∈ db.entries ws, e.Sound pos captures) :
    ∀ wr ∈ ws, wr.Keeps := by
  intro wr hwr
  rw [← db.entries_write ws] at hwr
  obtain ⟨e, he, rfl⟩ := List.mem_map.mp hwr
  exact (h e he).keeps

theorem supplies_nodup (h : ∀ e ∈ db.entries ws, e.Sound pos captures) :
    ((supplies db (db.entries ws)).map Supply.id).Nodup := by
  have hids : (supplies db (db.entries ws)).map Supply.id =
      ((supplies db (db.entries ws)).map Supply.account).map Prod.fst := by
    rw [List.map_map]
    rfl
  rw [hids, accounts_supplies db (Tables.keeps_of_sound h), List.map_map]
  exact (db.writeAll ws).tbl_order_books.nodup

theorem Execution.Known.on {x : Execution} {db : Tables} (hx : x.Known db captures) (side : Side) :
    db.Has (x.on side) ∧ (x.on side).side = side := by
  unfold Execution.on
  split
  · next h => exact ⟨hx.taker, h⟩
  · next h =>
    refine ⟨hx.maker, ?_⟩
    rw [hx.opposite]
    cases side <;> cases hs : x.taker.side <;> simp_all [Side.opposite]

theorem Execution.Trades.party {x : Execution} {db : Tables} {t : NewTrade} (ht : x.Trades pos t)
    (hx : x.Known db captures) (side : Side) : t.party side = (x.on side).uid := by
  have hopp := hx.opposite
  cases side with
  | BUY =>
    rw [NewTrade.party, ht.buyer, Execution.on]
    split <;> rfl
  | SELL =>
    rw [NewTrade.party, ht.seller, Execution.on]
    cases hs : x.taker.side <;> simp

/-- The order of an execution on one side is among the supplies. -/
theorem exists_supply (h : ∀ e ∈ db.entries ws, e.Sound pos captures) {e : Entry}
    (he : e ∈ db.entries ws) {x : Execution} (hx : x.Known e.before captures) (side : Side) :
    ∃ s ∈ supplies db (db.entries ws),
      s.id = (x.on side).id ∧ s.uid = (x.on side).uid ∧ s.side = side := by
  obtain ⟨before, after, hsplit⟩ := List.append_of_mem he
  obtain ⟨ws₁, ws₂, rfl, rfl, hbefore⟩ := Tables.entries_split hsplit
  obtain ⟨⟨r, hr, hs⟩, hside⟩ := hx.on side
  have hkeeps := Tables.keeps_of_sound h
  have hkeeps₁ : ∀ wr ∈ ws₁, wr.Keeps := fun wr hwr => hkeeps wr (List.mem_append_left _ hwr)
  rw [hbefore] at hr
  have haccount : r.account ∈ (supplies db (db.entries ws₁)).map Supply.account := by
    rw [accounts_supplies db hkeeps₁]
    exact List.mem_map_of_mem hr
  obtain ⟨s, hmem, heq⟩ := List.mem_map.mp haccount
  simp only [Supply.account, OrderBook.account, Prod.mk.injEq] at heq
  refine ⟨s, ?_, heq.1.trans hs.id, heq.2.1.trans hs.uid, heq.2.2.trans (hs.side.trans hside)⟩
  rw [hsplit, supplies, List.filterMap_append, ← List.append_assoc]
  exact List.mem_append_left _ hmem

/-- The keys of a user's orders of one side. -/
def ownKeys (db : Tables) (journal : List Entry) (side : Side) (u : Nat) : List Nat :=
  ((supplies db journal).filter fun s => s.side = side ∧ s.uid = u).map Supply.id

theorem mem_ownKeys (h : ∀ e ∈ db.entries ws, e.Sound pos captures) {s : Supply}
    (hs : s ∈ supplies db (db.entries ws)) (side : Side) (u : Nat) :
    s.id ∈ ownKeys db (db.entries ws) side u ↔ s.side = side ∧ s.uid = u := by
  constructor
  · intro hid
    obtain ⟨s', hs', heq⟩ := List.mem_map.mp hid
    obtain ⟨hs', howner⟩ := List.mem_filter.mp hs'
    have : s' = s := List.inj_on_of_nodup_map (supplies_nodup h) hs' hs heq
    rw [← this]
    simpa using howner
  · intro howner
    exact List.mem_map_of_mem (List.mem_filter.mpr ⟨hs, by simpa using howner⟩)

/-- A trade draws on a user's orders iff it names the user. -/
theorem draw_mem_ownKeys (h : ∀ e ∈ db.entries ws, e.Sound pos captures) {e : Entry}
    (he : e ∈ db.entries ws) {t : NewTrade} {x : Execution} (hw : e.write = .trade t x)
    (side : Side) (u : Nat) :
    (x.on side).id ∈ ownKeys db (db.entries ws) side u ↔ t.party side = u := by
  have hsound := h e he
  unfold Entry.Sound at hsound
  rw [hw] at hsound
  obtain ⟨ht, hx⟩ := hsound
  obtain ⟨s, hs, hid, huid, hside⟩ := exists_supply h he hx side
  rw [← hid, mem_ownKeys h hs, ht.party hx, huid]
  simp [hside]

/-! ## Totals -/

theorem tradedSince_write {n : Nat} (hn : n ≤ db.tbl_trades.next) (wr : Write) (side : Side)
    (u : Nat) : (db.write wr).tradedSince n side u = db.tradedSince n side u +
      match wr with
      | .trade t _ => if t.party side = u then roundTo 8 t.size else 0
      | _ => 0 := by
  cases wr with
  | order o now =>
    rw [Tables.tradedSince, Tables.write, Tables.saveOrderBook_trades, add_zero]
    rfl
  | update id u x => exact (add_zero _).symm
  | trade t x =>
    have hrows : (db.write (.trade t x)).tbl_trades.rows =
        db.tbl_trades.rows ++ [t.toRow db.tbl_trades.next] := rfl
    rw [Tables.tradedSince, Tables.tradedSince, hrows, List.filter_append, List.map_append,
      List.sum_append]
    congr 1
    have hid : n ≤ (t.toRow db.tbl_trades.next).id := hn
    rw [List.filter_cons, NewTrade.toRow_party]
    split
    · next hif =>
      have hp : t.party side = u ∧ n ≤ (t.toRow db.tbl_trades.next).id := by simpa using hif
      simp only [hp.1, if_true]
      exact List.sum_singleton
    · next hif =>
      have hp : ¬ t.party side = u := fun hp => hif (by simp [hp, hid])
      simp only [hp, if_false]
      rfl

/-- The trades of a user are the draws on the user's orders. -/
theorem tradedSince_writeAll {n : Nat} (hn : n ≤ db.tbl_trades.next) {side : Side} {u : Nat}
    {keys : List Nat} (hkeys : ∀ e ∈ db.entries ws, ∀ t x, e.write = .trade t x →
      ((x.on side).id ∈ keys ↔ t.party side = u)) :
    (db.writeAll ws).tradedSince n side u = db.tradedSince n side u +
      ((((db.entries ws).filterMap (Entry.draw side)).filter fun d => d.1 ∈ keys).map
        Prod.snd).sum := by
  induction ws generalizing db with
  | nil => simp [Tables.writeAll, Tables.entries]
  | cons wr ws ih =>
    obtain ⟨hwr, hrest⟩ := List.forall_mem_cons.mp hkeys
    change ((db.write wr).writeAll ws).tradedSince n side u = _
    rw [ih (hn.trans (db.next_le_write wr)) hrest, tradedSince_write hn, add_assoc]
    congr 1
    rw [Tables.entries]
    cases wr with
    | order o now =>
      rw [List.filterMap_cons_none rfl]
      exact zero_add _
    | update id u x =>
      rw [List.filterMap_cons_none rfl]
      exact zero_add _
    | trade t x =>
      have hiff := hwr t x rfl
      have hdraw : Entry.draw side ⟨db, .trade t x⟩ = some ((x.on side).id, roundTo 8 t.size) := rfl
      rw [List.filterMap_cons_some hdraw, List.filter_cons]
      by_cases hp : t.party side = u
      · have hmem := hiff.mpr hp
        simp [hp, hmem]
      · have hmem : (x.on side).id ∉ keys := fun hmem => hp (hiff.mp hmem)
        simp [hp, hmem]

theorem tradedSince_next (db : Tables) (side : Side) (u : Nat) :
    db.tradedSince db.tbl_trades.next side u = 0 := by
  have hnone : (db.tbl_trades.rows.filter fun t => t.party side = u ∧ db.tbl_trades.next ≤ t.id) =
      [] := by
    apply List.filter_eq_nil_iff.mpr
    intro t ht
    have hlt := db.tbl_trades.fresh t ht
    simp only [decide_eq_true_eq]
    omega
  rw [Tables.tradedSince, hnone]
  rfl

theorem UpToDate.of_split {journal before after : List Entry} {e : Entry}
    (h : UpToDate db journal) (hsplit : journal = before ++ e :: after) : e.UpToDate db before := by
  have hlt : before.length < journal.length := by simp [hsplit]
  have hup := h before.length hlt
  have hat : journal[before.length] = e := by simp [hsplit]
  have htake : journal.take before.length = before := by simp [hsplit]
  rwa [hat, htake] at hup

/-- More orders bring in more. -/
theorem supplied_mono {earlier later : List Entry}
    (hputs : ∀ d ∈ (supplies db (earlier ++ later)).map Supply.put, 0 ≤ d.2) (id : Nat) :
    onKey ((supplies db earlier).map Supply.put) id ≤
      onKey ((supplies db (earlier ++ later)).map Supply.put) id := by
  have hmore : (supplies db (earlier ++ later)).map Supply.put =
      (supplies db earlier).map Supply.put ++
        (later.filterMap Entry.supply).map Supply.put := by
    rw [supplies, List.filterMap_append, ← List.append_assoc, List.map_append]
    rfl
  rw [hmore] at hputs ⊢
  rw [onKey_append]
  have hrest := onKey_nonneg (fun d hd => hputs d (List.mem_append_right _ hd)) id
  linarith

/-- Trades that are up to date stay within what was brought in. -/
theorem within_of_upToDate
    (hputs : ∀ d ∈ (supplies db (db.entries ws)).map Supply.put, 0 ≤ d.2)
    (hC : UpToDate db (db.entries ws)) (side : Side) :
    Within (onKey ((supplies db (db.entries ws)).map Supply.put))
      ((db.entries ws).filterMap (Entry.draw side)) := by
  intro before d after hsplit
  -- the draw `d` is that of the trade `e`, the draws before it those of earlier entries
  obtain ⟨es₁, es₂, hes, rfl, htail⟩ := List.filterMap_eq_append_iff.mp hsplit
  obtain ⟨es₃, e, es₄, rfl, hnone, hdraw, -⟩ := List.filterMap_eq_cons_iff.mp htail
  rw [← List.append_assoc] at hes
  have hbefore : (es₁ ++ es₃).filterMap (Entry.draw side) = es₁.filterMap (Entry.draw side) := by
    rw [List.filterMap_append, List.filterMap_eq_nil_iff.mpr hnone, List.append_nil]
  rw [← hbefore]
  generalize es₁ ++ es₃ = earlier at hes
  have hup := hC.of_split hes
  unfold Entry.UpToDate at hup
  unfold Entry.draw at hdraw
  cases hw : e.write with
  | order o now => rw [hw] at hdraw; cases hdraw
  | update id u x => rw [hw] at hdraw; cases hdraw
  | trade t x =>
    rw [hw] at hdraw hup
    cases hdraw
    obtain ⟨hheld, hleft⟩ := hup side
    rw [hes] at hputs ⊢
    have hgrow := supplied_mono hputs (x.on side).id
    change _ + roundTo 8 t.size ≤ _
    linarith

theorem supplies_nonneg (hpos : pos) (h : ∀ e ∈ db.entries ws, e.Sound pos captures)
    (hopen : ∀ r ∈ db.tbl_order_books.rows, r.is_filled = false → 0 ≤ r.size) :
    ∀ d ∈ (supplies db (db.entries ws)).map Supply.put, 0 ≤ d.2 := by
  intro d hd
  obtain ⟨s, hs, rfl⟩ := List.mem_map.mp hd
  rcases List.mem_append.mp hs with hs | hs
  · obtain ⟨r, hr, rfl⟩ := List.mem_map.mp hs
    simp only [Supply.put, OrderBook.supply]
    split
    · exact le_refl _
    · next hf => exact hopen r hr (by simpa using hf)
  · obtain ⟨e, he, hsupply⟩ := List.mem_filterMap.mp hs
    have hsound := h e he
    unfold Entry.Sound at hsound
    unfold Entry.supply at hsupply
    cases hw : e.write with
    | order o now =>
      rw [hw] at hsound hsupply
      cases hsupply
      exact (hsound.2 hpos).le
    | update id u x => rw [hw] at hsupply; cases hsupply
    | trade t x => rw [hw] at hsupply; cases hsupply

end Run

/-- **Nothing is oversold** along an interleaving whose trades are all up to date. -/
theorem not_oversold (env : Env) (db : Tables) (calls : List Call) (schedule : List Nat)
    (hopen : ∀ r ∈ db.tbl_order_books.rows, r.is_filled = false → 0 ≤ r.size)
    (hpos : Positive calls) (hC : UpToDate db (interleave env db calls schedule).journal)
    (side : Side) (u : Nat) :
    (interleave env db calls schedule).db.tradedSince db.tbl_trades.next side u ≤
      submitted db (interleave env db calls schedule).journal side u := by
  obtain ⟨ws, hdb, hj, hsound⟩ := (interleave_step env db calls schedule).log
  have hj' : (interleave env db calls schedule).journal = db.entries ws := by
    simpa [World.start] using hj
  have hdb' : (interleave env db calls schedule).db = db.writeAll ws := hdb
  have hsound' : ∀ e ∈ db.entries ws, e.Sound (Positive calls)
      (interleave env db calls schedule).captures := hsound
  rw [hj'] at hC ⊢
  rw [hdb']
  have hputs := supplies_nonneg hpos hsound' hopen
  have hwithin := within_of_upToDate hputs hC side
  have hkeys : (ownKeys db (db.entries ws) side u).Nodup :=
    ((supplies_nodup hsound').sublist (List.filter_sublist.map _))
  have hdraws := tradedSince_writeAll (le_refl _)
    fun e he t x hw => draw_mem_ownKeys hsound' he hw side u
  have hown : ((((supplies db (db.entries ws)).map Supply.put).filter fun d =>
      d.1 ∈ ownKeys db (db.entries ws) side u).map Prod.snd).sum =
      submitted db (db.entries ws) side u := by
    rw [submitted, List.filter_map, List.map_map]
    congr 2
    apply List.filter_congr
    intro s hs
    exact decide_eq_decide.mpr (mem_ownKeys hsound' hs side u)
  calc (db.writeAll ws).tradedSince db.tbl_trades.next side u
      = ((((db.entries ws).filterMap (Entry.draw side)).filter fun d =>
          d.1 ∈ ownKeys db (db.entries ws) side u).map Prod.snd).sum := by
        rw [hdraws, tradedSince_next, zero_add]
    _ ≤ _ := sum_draws_le hkeys hputs hwithin
    _ = submitted db (db.entries ws) side u := hown

/-- Two market BUYs, inserted one after the other and then matched one after the
other, share a SELL of 2. -/
theorem not_oversold_in_turn :
    let db := Tables.traded.place [.btc 1 .SELL 10 2]
    let calls : List Call := [.order (.market ⟨3, .BUY, "BTC/USDT", 1⟩),
      .order (.market ⟨4, .BUY, "BTC/USDT", 1⟩)]
    let schedule := [0, 1] ++ List.replicate 40 0 ++ List.replicate 40 1
    let w := interleave .steady db calls schedule
    w.db.tradedSince db.tbl_trades.next .SELL 1 = 2 ∧
      w.db.tradedSince db.tbl_trades.next .SELL 1 ≤ submitted db w.journal .SELL 1 := by
  intro db calls schedule w
  constructor
  · decide +kernel
  · apply not_oversold
    · decide +kernel
    · intro req hreq
      simp only [calls, List.mem_cons, Call.order.injEq, List.not_mem_nil, or_false] at hreq
      rcases hreq with rfl | rfl
      · exact one_pos
      · exact one_pos
    · decide +kernel

/-- Two market BUYs of 1 both pick up the book with one SELL of 1: user 1, who
sold 1, has sold 2. -/
theorem sold_twice :
    let db := Tables.traded.place [.btc 1 .SELL 10 1]
    let calls : List Call := [.order (.market ⟨3, .BUY, "BTC/USDT", 1⟩),
      .order (.market ⟨4, .BUY, "BTC/USDT", 1⟩)]
    let schedule := [0, 0, 0, 1, 1, 1] ++ List.replicate 40 0 ++ List.replicate 40 1
    let w := interleave .steady db calls schedule
    submitted db w.journal .SELL 1 = 1 ∧ w.db.tradedSince db.tbl_trades.next .SELL 1 = 2 := by
  decide +kernel

end Exchange
