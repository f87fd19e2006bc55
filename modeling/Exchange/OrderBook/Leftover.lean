import Exchange.OrderBook.Serve

/-!
# Leftovers of market orders

A market order is inserted open and without a price, and only a match closes
it. An order that its opposite side does not cover, or whose match stops early,
rests in the book without a price (`market_order_rests`).

`priced_of_cleared`: the book stays priced along every run in which each market
order is refused at its insertion or is cleared.
-/

namespace Exchange

open OrderBookService Store

/-- The trade that takes the whole of `r` fits its columns, and so does what is left. -/
def partAdmissible (size : ℚ) (r : OrderBook) : Bool :=
  r.price.isSome && r.price.all (fits 17 8) && fits 17 8 r.size &&
    fits 10 2 (Double.mul (number r.price) r.size) && fits 17 8 (Double.sub size r.size)

/-- How many resting orders a market order takes whole before one covers the
rest of it, if it gets there through trades that fit their columns. -/
def clearedAfter : ℚ → List OrderBook → Option Nat
  | _, [] => none
  | size, r :: L =>
      if Double.fl size ≤ Double.fl r.size then some 0
      else if partAdmissible size r then (clearedAfter (Double.sub size r.size) L).map (· + 1)
      else none

/-- The market order is closed: it is covered, an emission does not raise before
that, and no call that the columns allow fails until its closing update. -/
structure Cleared (env : Env) (dto : MarketOrderDto) (w : World) (j : Nat) : Prop where
  after : clearedAfter dto.size ((Request.market dto).resting w) = some j
  traded : j = 0 ∨ w.db.HasTrade dto.symbol
  undisturbed : ∀ n o, w.calls < n → n ≤ w.calls + 3 + 21 * j → o.admissible = true →
    env.fails n o = false

/-- The condition on a step: a market order is refused at its insertion or cleared. -/
def RefusedOrCleared (env : Env) (req : Request) (w : World) : Prop :=
  match req with
  | .limit _ => True
  | .market dto =>
      env.fails w.calls (.saveOrderBook req.toSave) = true ∨ ∃ j, Cleared env dto w j

theorem part_admissible {m : Matcher} {order r : OrderBook} {t₁ t₂ : Nat}
    (h : partAdmissible order.size r = true) :
    ∀ wr ∈ m.partWrites order r t₁ t₂, wr.op.admissible = true := by
  simp only [partAdmissible, Bool.and_eq_true] at h
  obtain ⟨⟨⟨⟨hsome, hprice⟩, hsize⟩, hvolume⟩, hrest⟩ := h
  simp [Matcher.partWrites, Write.op, Op.admissible, OrderUpdate.admissible,
    NewTrade.admissible, NewTrade.volume, Matcher.trade, *]

/-- The plan of a market order that clears: `3 * j` admissible writes, then the
update that closes the order. -/
theorem Plan.closing {m : Matcher} (hstop : ∀ p q, m.stop p q = false)
    {order : OrderBook} {L : List OrderBook} {ws : List Write} (h : Plan m order L ws) {j : Nat}
    (hj : clearedAfter order.size L = some j) :
    ∃ pre u x post, ws = pre ++ .update order.id u x :: post ∧ pre.length = 3 * j ∧
      u.is_filled = some true ∧ u.admissible = true ∧ ∀ wr ∈ pre, wr.op.admissible = true := by
  induction h generalizing j with
  | nil => simp [clearedAfter] at hj
  | @stop order r L h =>
    have := hstop order.held r.held
    rw [Matcher.halts, this] at h
    cases h
  | full L t₁ t₂ t₃ h hs =>
    rw [clearedAfter, if_pos hs] at hj
    obtain rfl : 0 = j := Option.some.inj hj
    refine ⟨[], _, _, _, rfl, rfl, rfl, ?_, by simp⟩
    exact fits_zero 17
  | @part order r L ws t₁ t₂ h hs hp ih =>
    rw [clearedAfter, if_neg hs.not_ge] at hj
    cases hadm : partAdmissible order.size r with
    | false => simp [hadm] at hj
    | true =>
      simp only [hadm, if_true, Option.map_eq_some_iff] at hj
      obtain ⟨j, hj, rfl⟩ := hj
      obtain ⟨pre, u, x, post, rfl, hlen, hu, hua, hpre⟩ := ih hj
      refine ⟨m.partWrites order r t₁ t₂ ++ pre, u, x, post, by simp, ?_, hu, hua, ?_⟩
      · simp only [List.length_append, hlen, Matcher.partWrites,
          List.length_cons, List.length_nil]
        omega
      · intro wr hwr
        rcases List.mem_append.mp hwr with hwr | hwr
        · exact part_admissible hadm wr hwr
        · exact hpre wr hwr

theorem market_stop (dto : MarketOrderDto) (p q : Text.Value) :
    (Request.market dto).matcher.stop p q = false := by
  unfold Request.matcher
  dsimp only
  split <;> rfl

/-- A market order that is handled and cleared is closed. -/
theorem market_closed {env : Env} {dto : MarketOrderDto} {w w' : World} {j : Nat}
    {r : Except Err Response} {ws done : List Write}
    (hh : Handled env (.market dto) w r w' ws done) (hc : Cleared env dto w j) :
    Closes done w.db.tbl_order_books.next := by
  obtain ⟨pre, u, x, post, hws, hlen, hu, hua, hpre⟩ := hh.plan.closing (market_stop dto)
    (j := j) (by rw [Request.taker_size]; exact hc.after)
  -- otherwise the run stops before the closing update, but has no reason to
  rcases le_or_gt done.length (3 * j) with hle | hlt
  · exfalso
    have hne : done ≠ ws := by
      rintro rfl
      simp only [hws, List.length_append, List.length_cons] at hle
      omega
    rcases hh.reason hne with ⟨n, o, h₁, h₂, ho, hf⟩ | ⟨n, wr, h₁, h₂, hwr, hf⟩ | ⟨hn, hd⟩
    · have hok := hc.undisturbed n o (by omega) ?_ (Op.admissible_of_reads ho)
      · simp [hok] at hf
      · simp only [Request.prelude] at h₂
        omega
    · have hadm : wr.op.admissible = true := by
        rw [hws] at hwr
        rcases Nat.lt_or_eq_of_le (hlen ▸ hle) with hlt | heq
        · rw [List.getElem?_append_left hlt] at hwr
          exact hpre wr (List.mem_of_getElem? hwr)
        · rw [heq, List.getElem?_append_right (le_refl _), Nat.sub_self] at hwr
          obtain rfl := Option.some.inj hwr
          exact hua
      have hok := hc.undisturbed n wr.op (by omega) ?_ hadm
      · simp [hok] at hf
      · simp only [Request.prelude] at h₂
        omega
    · rcases hc.traded with rfl | hT
      · have : done = [] := List.length_eq_zero_iff.mp (by omega)
        rcases hd with hd | hd
        · simp [Request.price] at hd
        · exact hd this
      · exact hn hT
  · refine ⟨u, x, ?_, hu⟩
    obtain ⟨l, hl⟩ := hh.made
    have hget : done[3 * j]? = ws[3 * j]? := by rw [← hl, List.getElem?_append_left hlt]
    rw [hws, List.getElem?_append_right hlen.le, hlen, Nat.sub_self] at hget
    exact List.mem_of_getElem? hget

/-- One step that meets its condition keeps the book priced. -/
theorem serve_priced {env : Env} {req : Request} {w : World} (h : w.db.Priced)
    (hC : RefusedOrCleared env req w) : (req.serve env w).2.db.Priced := by
  rcases serve_served env req w with ⟨-, -, hw⟩ | ⟨ws, done, hh⟩
  · rw [hw]
    exact h
  · intro r' hr' ho
    rw [hh.rows] at hr'
    obtain ⟨r, hr, rfl⟩ := List.mem_map.mp hr'
    have hworked := rowAfter_worked hh.matching r
    rw [hworked.price]
    rcases List.mem_append.mp hr with hr | hr
    · exact h r hr (hworked.open ho)
    · obtain rfl := List.mem_singleton.mp hr
      cases req with
      | limit dto => rfl
      | market dto =>
        rcases hC with hf | ⟨j, hc⟩
        · rw [hh.accepted] at hf
          cases hf
        · have hclosed := rowAfter_closed hh.matching (r := (Request.market dto).row env w)
            (market_closed hh hc)
          rw [hclosed] at ho
          cases ho

/-- **Market orders do not rest** along a run in which each is refused at its
insertion or cleared: every open order has a price. -/
theorem priced_of_cleared {env : Env} {reqs : List Request} {w : World} (h : w.db.Priced)
    (hC : StepsMeet env (RefusedOrCleared env) reqs w) : (serveAll env reqs w).2.db.Priced :=
  serveAll_invariant env (I := fun w => w.db.Priced) (fun _ _ h hC => serve_priced h hC) h hC

/-- A market BUY that takes one order whole and a part of the next is closed. -/
theorem priced_after_market_buy :
    (serveAll .constrained [.market ⟨3, .BUY, "BTC/USDT", 3/2⟩]
      (.start (Tables.traded.place [.btc 1 .SELL 11 1, .btc 1 .SELL 10 1]))).2.db.Priced := by
  refine priced_of_cleared ?_ ⟨.inr ⟨1, ?_, .inr ?_, ?_⟩, trivial⟩
  · unfold Tables.Priced
    decide +kernel
  · decide +kernel
  · unfold Tables.HasTrade
    decide +kernel
  · intro n o _ _ ho
    simp [Env.constrained, ho]

/-- A market SELL on an empty book is answered with a failure and stays open
without a price. -/
theorem market_order_rests :
    let w := World.start .traded
    let req := Request.market ⟨2, .SELL, "BTC/USDT", 5⟩
    w.db.Priced ∧ ¬ (serveAll .steady [req] w).2.db.Priced := by
  unfold Tables.Priced
  decide +kernel

end Exchange
