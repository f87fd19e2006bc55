import Exchange.OrderBook.Walk

/-!
# Failing calls

`handleOrder` makes its writes one by one, outside any transaction. When a call
after the insertion fails, the request ends in a failure (`handleOrder_strict`),
but the row inserted for it stays, with all writes made before the failure.

`leavesNoTrace_iff`: a request whose first failing call is number `k` leaves
the tables as they were exactly when `k = 0`, the insertion itself.
-/

namespace Exchange

open Async Proc OrderBookService

/-- Counted from `start`, call number `k` is the first to fail. -/
structure Env.FailsFirst (env : Env) (start k : Nat) : Prop where
  before : ∀ n o, start ≤ n → n < start + k → env.fails n o = false
  fails : ∀ o, env.fails (start + k) o = true

/-- The call neither raised nor answered `success = false`. -/
def succeeded : Except Err Response → Bool
  | .ok resp => resp.success
  | .error _ => false

/-- A request that raises or answers a failure leaves the tables as they were. -/
def LeavesNoTrace (env : Env) (req : Request) (w : World) : Prop :=
  succeeded (req.serve env w).1 = false → (req.serve env w).2.db = w.db

/-! ## A failing call is not overcome -/

section Strict

variable {env : Env} {K : Nat}

theorem perform_failsAt (h : ∀ o, env.fails K o = true) :
    FailsAt (World.perform env) World.calls K where
  mono := by
    intro o w
    unfold World.perform
    split
    · split
      · exact Nat.le_succ _
      · rw [World.answer_calls]
        exact Nat.le_succ _
    · rw [World.answer_calls]
  error := by
    intro o w hle hlt
    unfold World.perform at hlt ⊢
    split at hlt
    · next hext =>
      -- the call counted is number `w.calls`, hence `K`
      have hK : w.calls = K := by
        split at hlt
        · simp only [World.tick] at hlt
          omega
        · rw [World.answer_calls] at hlt
          simp only [World.tick] at hlt
          omega
      rw [if_pos hext, if_pos (hK ▸ h o)]
      exact ⟨_, rfl⟩
    · rw [World.answer_calls] at hlt
      omega

abbrev StrictProg {α : Type} (env : Env) (K : Nat) (bad : α → Prop) (p : Prog α) : Prop :=
  Strict (World.perform env) World.calls K bad p

variable (hK : ∀ o, env.fails K o = true)

include hK

theorem call_strict (o : Op) (bad : o.Res → Prop) :
    StrictProg env K bad (OrderBookService.call o) :=
  Strict.call (perform_failsAt hK) o bad

theorem fillOrderBook_strict (symbol : String) (bad : Unit → Prop) :
    StrictProg env K bad (fillOrderBook symbol) := by
  apply Strict.seq (call_strict hK _ _)
  intro buy_orders
  apply Strict.seq (call_strict hK _ _)
  intro sell_orders
  exact call_strict hK _ _

theorem emitSocketData_strict (symbol : String) (bad : Unit → Prop) :
    StrictProg env K bad (emitSocketData symbol) := by
  apply Strict.seq (fillOrderBook_strict hK _ _)
  intro _
  apply Strict.seq (call_strict hK _ _)
  intro trades
  apply Strict.seq (call_strict hK _ _)
  intro last_24_hour_data
  apply Strict.seq (call_strict hK _ _)
  intro price_before_24_hour
  cases trades with
  | nil => exact Strict.throw _
  | cons last_trade trades =>
    apply Strict.seq (call_strict hK _ _)
    intro books
    exact call_strict hK _ _

theorem saveOrder_strict (order : NewOrder) (bad : OrderBook → Prop) :
    StrictProg env K bad (saveOrder order) := by
  apply Strict.seq (call_strict hK _ _)
  intro saved_order
  apply Strict.seq (fillOrderBook_strict hK _ _)
  intro _
  apply Strict.seq (emitSocketData_strict hK _ _)
  intro _
  exact Strict.pure _

theorem saveMarketOrder_strict (order : NewOrder) (bad : OrderBook → Prop) :
    StrictProg env K bad (saveMarketOrder order) := by
  apply Strict.seq (call_strict hK _ _)
  intro saved_order
  apply Strict.seq (fillOrderBook_strict hK _ _)
  intro _
  exact Strict.pure _

theorem saveTrade_strict (trade : NewTrade) (x : Execution) (bad : Unit → Prop) :
    StrictProg env K bad (saveTrade trade x) :=
  Strict.seq (call_strict hK _ _) fun _ => emitSocketData_strict hK _ _

theorem updateOrder_strict (symbol : String) (id : Nat) (u : OrderUpdate) (x : Execution)
    (bad : Unit → Prop) : StrictProg env K bad (updateOrder symbol id u x) :=
  Strict.seq (call_strict hK _ _) fun _ => emitSocketData_strict hK _ _

theorem matchLoop_strict (m : Matcher) (orders i : Nat) (order : OrderBook)
    (bad : Unit → Prop) : StrictProg env K bad (matchLoop m orders i order) := by
  induction i generalizing order with
  | zero => exact Strict.pure _
  | succ i ih =>
    unfold matchLoop
    apply Strict.seq (call_strict hK _ _)
    intro resting
    split
    · exact Strict.pure _
    · split
      · apply Strict.seq (call_strict hK _ _)
        intro settled_at
        apply Strict.seq (updateOrder_strict hK _ _ _ _ _)
        intro _
        apply Strict.seq (call_strict hK _ _)
        intro created_at
        apply Strict.seq (saveTrade_strict hK _ _ _)
        intro _
        apply Strict.seq (call_strict hK _ _)
        intro resting
        apply Strict.seq (call_strict hK _ _)
        intro _
        split
        · exact Strict.seq (call_strict hK _ _) fun _ => updateOrder_strict hK _ _ _ _ _
        · exact updateOrder_strict hK _ _ _ _ _
      · apply Strict.seq (call_strict hK _ _)
        intro settled_at
        apply Strict.seq (updateOrder_strict hK _ _ _ _ _)
        intro _
        apply Strict.seq (call_strict hK _ _)
        intro resting
        apply Strict.seq (call_strict hK _ _)
        intro created_at
        apply Strict.seq (saveTrade_strict hK _ _ _)
        intro _
        apply Strict.seq (call_strict hK _ _)
        intro resting
        apply Strict.seq (updateOrder_strict hK _ _ _ _ _)
        intro _
        exact ih _

theorem run_strict (m : Matcher) (order : OrderBook) :
    StrictProg env K (fun g => g.success = false) (m.run order) := by
  apply Strict.seq (call_strict hK _ _)
  intro orders
  apply Strict.seq (call_strict hK _ _)
  intro n
  refine Strict.tryCatch ?_ rfl
  split
  · exact Strict.pure _
  · apply Strict.seq (call_strict hK _ _)
    intro best
    split
    · exact Strict.seq (matchLoop_strict hK _ _ _ _ _) fun _ => Strict.pure _
    · exact Strict.pure _

/-- **A failing call is not overcome**: a request that makes it raises or answers
a failure. -/
theorem handleOrder_strict (req : Request) :
    StrictProg env K (fun resp => resp.success = false) (handleOrder req.order) := by
  have hanswer : ∀ (symbol message message' : String) (g : MatchResult),
      StrictProg env K (fun resp : Response => resp.success = false)
        (if g.success then do
          let order_list : List OrderBook ←
            OrderBookService.call (.getUserOrdersNoSide 1 symbol 20)
          Pure.pure ⟨true, message, order_list⟩
        else Pure.pure ⟨false, message', []⟩) := by
    intro symbol message message' g
    split
    · exact Strict.seq (call_strict hK _ _) fun _ => Strict.pure _
    · exact Strict.pure _
  have hbad : ∀ (symbol message message' : String) (g : MatchResult) (w : World),
      g.success = false → ∀ resp, (Proc.run (World.perform env)
        (if g.success then do
          let order_list : List OrderBook ←
            OrderBookService.call (.getUserOrdersNoSide 1 symbol 20)
          Pure.pure ⟨true, message, order_list⟩
        else Pure.pure ⟨false, message', []⟩ : Prog Response) w).1 = .ok resp →
      resp.success = false := by
    intro symbol message message' g w hg resp hr
    rw [if_neg (by simp [hg])] at hr
    cases hr
    rfl
  cases req with
  | limit dto =>
    apply Strict.seq (saveOrder_strict hK _ _)
    intro order
    rw [matchLimitOrder_eq]
    exact Strict.bind (run_strict hK _ _) (hanswer _ _ _) (hbad _ _ _)
  | market dto =>
    apply Strict.seq (saveMarketOrder_strict hK _ _)
    intro order
    rw [matchMarketOrder_eq]
    exact Strict.bind (run_strict hK _ _) (hanswer _ _ _) (hbad _ _ _)

end Strict

/-! ## What is left behind -/

variable {env : Env} {req : Request} {w : World} {k : Nat}

theorem serve_refuses (hfirst : env.FailsFirst w.calls k)
    (hmade : w.calls + k < (req.serve env w).2.calls) : succeeded (req.serve env w).1 = false := by
  have hstrict := handleOrder_strict hfirst.fails req w
  have hbad := hstrict.2 (Nat.le_add_right _ _) hmade
  cases hr : (req.serve env w).1 with
  | ok resp => exact hbad resp hr
  | error e => rfl

/-- An order that is inserted stays: the table has one row more. -/
theorem Handled.rows_length {r : Except Err Response} {w' : World} {ws done : List Write}
    (h : Handled env req w r w' ws done) :
    w'.db.tbl_order_books.rows.length = w.db.tbl_order_books.rows.length + 1 := by
  rw [h.rows, List.length_map, List.length_append, List.length_singleton]

/-- **A failed request leaves no trace** exactly when the call that fails is the
insertion of its order. -/
theorem leavesNoTrace_iff (hfirst : env.FailsFirst w.calls k)
    (hmade : w.calls + k < (req.serve env w).2.calls) : LeavesNoTrace env req w ↔ k = 0 := by
  constructor
  · intro h
    have hdb := h (serve_refuses hfirst hmade)
    rcases serve_served env req w with ⟨hf, -⟩ | ⟨ws, done, hh⟩
    · by_contra hk
      rw [hfirst.before w.calls _ (le_refl _) (by omega)] at hf
      cases hf
    · have hlen := hh.rows_length
      rw [hdb] at hlen
      omega
  · rintro rfl _
    rcases serve_served env req w with ⟨-, -, hw⟩ | ⟨ws, done, hh⟩
    · rw [hw]
      rfl
    · have hf := hfirst.fails (.saveOrderBook req.toSave)
      rw [Nat.add_zero, hh.accepted] at hf
      cases hf

/-- Call number `k` is the only one that fails. -/
def Env.failingAt (k : Nat) : Env := ⟨fun n => n, fun n _ => n = k⟩

theorem Env.failingAt_failsFirst (k : Nat) : (Env.failingAt k).FailsFirst 0 k where
  before := by
    intro n o _ hn
    have hne : n ≠ k := by omega
    simp [Env.failingAt, hne]
  fails := by
    intro o
    simp [Env.failingAt]

/-- Where the first emission of a limit order fails, its row stays. Where its insertion
fails, nothing does. -/
theorem leavesNoTrace_emission_fails :
    let req := Request.limit ⟨3, .BUY, "BTC/USDT", 10, 1⟩
    ¬ LeavesNoTrace (.failingAt 5) req (.start .traded) ∧
      LeavesNoTrace (.failingAt 0) req (.start .traded) := by
  intro req
  constructor
  · rw [leavesNoTrace_iff (Env.failingAt_failsFirst 5) (by decide +kernel)]
    decide
  · exact (leavesNoTrace_iff (Env.failingAt_failsFirst 0) (by decide +kernel)).mpr rfl

/-- The trade of a full match fails: the order is already closed, and answered
with a failure. -/
theorem order_closed_without_trade :
    let w := World.start (Tables.traded.place [.btc 1 .SELL 10 1])
    let req := Request.limit ⟨3, .BUY, "BTC/USDT", 10, 1⟩
    let w' := (req.serve (.failingAt 16) w).2
    (Env.failingAt 16).FailsFirst 0 16 ∧ 16 < w'.calls ∧
      ¬ LeavesNoTrace (.failingAt 16) req w ∧
      w'.db.tbl_trades.rows = w.db.tbl_trades.rows ∧
      w'.db.tbl_order_books.rows.map (fun r => (r.uid, r.size, r.is_filled)) =
        [(1, 1, false), (3, 0, true)] := by
  refine ⟨Env.failingAt_failsFirst 16, by decide +kernel, ?_, by decide +kernel, by decide +kernel⟩
  intro h
  have hdb := h (by decide +kernel)
  have hlen := congrArg (fun db : Tables => db.tbl_order_books.rows.length) hdb
  revert hlen
  decide +kernel

end Exchange
