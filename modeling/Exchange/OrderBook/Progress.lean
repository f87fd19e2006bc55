import Exchange.Async.Bounded
import Exchange.OrderBook.Limits

/-!
# Every request ends

A matcher walks an array that was fetched with a limit, and a write is followed by one
broadcast, so the work of a request is bounded whatever the others do to the book.
`interleave_ends`: a request that has had 1809 turns has ended. Of these calls 8 save
and announce the order, 18 belong to each of at most a hundred executions, and one
fetches the answer.
-/

namespace Exchange

open Async Proc OrderBookService Store

/-- Arrays have at most a hundred elements. -/
def Short : (o : Op) → Except Err o.Res → Prop
  | .length _, r => ∀ n : Nat, r = .ok n → n ≤ 100
  | _, _ => True

theorem World.Genuine.short {w : World} (hw : w.Genuine) (env : Env) (o : Op) :
    Short o (World.perform env o w).1 := by
  cases o with
  | length orders =>
    rintro n ⟨⟩
    unfold World.array
    cases hl : w.arrays[orders]? with
    | none => simp [hl]
    | some l =>
      obtain ⟨side, symbol, hlist⟩ := hw.arrays l (List.mem_of_getElem? hl)
      simpa [hl] using hlist.limit
  | _ => trivial

section Work

variable {α : Type}

/-- The program awaits at most `n` database calls. -/
abbrev Takes (p : Prog α) (n : Nat) : Prop := p.Within Op.awaits Short n

theorem fillOrderBook_takes (symbol : String) : Takes (fillOrderBook symbol) 2 := by
  apply Within.bind (n := 1) (m := 1) (Within.call _)
  intro buy_orders
  apply Within.bind (n := 1) (m := 0) (Within.call _)
  intro sell_orders
  exact ⟨0, rfl, fun r _ => by cases r <;> trivial⟩

theorem fillOrderBookAndReturn_takes (symbol : String) :
    Takes (fillOrderBookAndReturn symbol) 2 := by
  apply Within.bind (n := 1) (m := 1) (Within.call _)
  intro buy_orders
  apply Within.bind (n := 1) (m := 0) (Within.call _)
  intro sell_orders
  apply Within.own rfl
  intro _ _
  exact ⟨0, rfl, fun r _ => by cases r <;> trivial⟩

theorem emitSocketData_takes (symbol : String) : Takes (emitSocketData symbol) 5 := by
  apply Within.bind (n := 2) (m := 3) (fillOrderBook_takes symbol)
  intro _
  apply Within.bind (n := 1) (m := 2) (Within.call _)
  intro trades
  apply Within.bind (n := 1) (m := 1) (Within.call _)
  intro data
  apply Within.bind (n := 1) (m := 0) (Within.call _)
  intro price
  cases trades with
  | nil => trivial
  | cons last_trade trades =>
    apply Within.own rfl
    intro books _
    exact ⟨0, rfl, fun r _ => by cases r <;> trivial⟩

theorem updateOrder_takes (symbol : String) (id : Nat) (update : OrderUpdate) (x : Execution) :
    Takes (updateOrder symbol id update x) 6 :=
  Within.bind (n := 1) (m := 5) (Within.call _) fun _ => emitSocketData_takes symbol

theorem saveTrade_takes (t : NewTrade) (x : Execution) : Takes (saveTrade t x) 6 :=
  Within.bind (n := 1) (m := 5) (Within.call _) fun _ => emitSocketData_takes t.symbol

/-- Each execution is three writes, each followed by a broadcast. -/
theorem matchLoop_takes (m : Matcher) (orders i : Nat) (order : OrderBook) :
    Takes (matchLoop m orders i order) (18 * i) := by
  induction i generalizing order with
  | zero => trivial
  | succ i ih =>
    unfold matchLoop
    apply Within.own rfl
    intro resting _
    split
    · trivial
    · split
      · -- the last execution
        apply Within.mono (n := 18) _ (by omega)
        apply Within.own rfl
        intro settled_at _
        apply Within.bind (n := 6) (m := 12) (updateOrder_takes _ _ _ _)
        intro _
        apply Within.own rfl
        intro created_at _
        apply Within.bind (n := 6) (m := 6) (saveTrade_takes _ _)
        intro _
        apply Within.own rfl
        intro resting' _
        apply Within.own rfl
        intro _ _
        dsimp only
        split
        · apply Within.own rfl
          exact fun _ _ => updateOrder_takes _ _ _ _
        · exact updateOrder_takes _ _ _ _
      · -- an execution after which the loop goes on
        apply Within.mono (n := 6 + (6 + (6 + 18 * i))) _ (by omega)
        apply Within.own rfl
        intro settled_at _
        apply Within.bind (updateOrder_takes _ _ _ _)
        intro _
        apply Within.own rfl
        intro resting' _
        apply Within.own rfl
        intro created_at _
        apply Within.bind (saveTrade_takes _ _)
        intro _
        apply Within.own rfl
        intro resting'' _
        apply Within.bind (updateOrder_takes _ _ _ _)
        exact fun _ => ih _

theorem run_takes (m : Matcher) (order : OrderBook) : Takes (m.run order) 1800 := by
  unfold Matcher.run
  apply Within.own rfl
  intro orders _
  apply Within.own rfl
  intro (n : Nat) hn
  have hlength : n ≤ 100 := hn n rfl
  apply Within.tryCatch (n := 1800) (m := 0)
  · split
    · trivial
    · apply Within.own rfl
      intro best _
      split
      · have hloop := (matchLoop_takes m orders n order).mono (show 18 * n ≤ 1800 by omega)
        exact Within.bind (m := 0) hloop fun _ => trivial
      · trivial
  · exact fun _ => trivial

theorem matchLimitOrder_takes (order : OrderBook) : Takes (matchLimitOrder order) 1800 := by
  unfold matchLimitOrder
  split
  · exact run_takes _ _
  · exact run_takes _ _

theorem matchMarketOrder_takes (order : OrderBook) : Takes (matchMarketOrder order) 1800 := by
  unfold matchMarketOrder
  split
  · exact run_takes _ _
  · exact run_takes _ _

theorem saveOrder_takes (order : NewOrder) : Takes (saveOrder order) 8 := by
  apply Within.bind (n := 1) (m := 7) (Within.call _)
  intro saved
  apply Within.bind (n := 2) (m := 5) (fillOrderBook_takes _)
  intro _
  exact Within.bind (m := 0) (emitSocketData_takes _) fun _ => trivial

theorem saveMarketOrder_takes (order : NewOrder) : Takes (saveMarketOrder order) 3 := by
  apply Within.bind (n := 1) (m := 2) (Within.call _)
  intro saved
  exact Within.bind (m := 0) (fillOrderBook_takes _) fun _ => trivial

theorem answer_takes (g : MatchResult) (symbol text failure : String) :
    Takes
      (if g.success then do
        let order_list : List OrderBook ←
          OrderBookService.call (.getUserOrdersNoSide 1 symbol 20)
        Pure.pure (⟨true, text, order_list⟩ : Response)
      else Pure.pure ⟨false, failure, []⟩) 1 := by
  split
  · exact Within.bind (m := 0) (Within.call _) fun _ => trivial
  · trivial

theorem handleOrder_takes (order : NewOrder) : Takes (handleOrder order) 1809 := by
  unfold handleOrder
  dsimp only
  split
  · apply Within.mono (n := 3 + (1800 + 1)) _ (by omega)
    apply Within.bind (saveMarketOrder_takes _)
    intro saved
    exact Within.bind (matchMarketOrder_takes saved) fun g => answer_takes g _ _ _
  · apply Within.bind (n := 8) (m := 1801) (saveOrder_takes _)
    intro saved
    exact Within.bind (m := 1) (matchLimitOrder_takes saved) fun g => answer_takes g _ _ _

/-- The number of database calls that a call awaits at most. -/
def Call.work : Call → Nat
  | .order _ => 1809
  | .orderbooks => 2

theorem Call.prog_takes (call : Call) : Takes call.prog call.work := by
  cases call with
  | order req => exact Within.bind (m := 0) (handleOrder_takes req.order) fun _ => trivial
  | orderbooks => exact Within.bind (m := 0) (fillOrderBookAndReturn_takes _) fun _ => trivial

end Work

/-- The requests under way after a schedule. -/
def pending (env : Env) (db : Tables) (calls : List Call) (schedule : List Nat) :
    Pool Op Op.Res Err Unit World :=
  Pool.run (World.perform env) Op.awaits ⟨.start db, calls.map Call.prog⟩ schedule

/-- **Every request ends.** Whatever the schedule and whatever calls fail, all requests have
ended once each has had the turns for the calls that it awaits at most: 1809 for an
order, 2 for the books. -/
theorem interleave_ends (env : Env) {db : Tables} (hdb : db.PricesStored) (calls : List Call)
    {schedule : List Nat}
    (hturns : ∀ i call, calls[i]? = some call → call.work ≤ schedule.count i) :
    (pending env db calls schedule).Ended := by
  have hbudget : Pool.Budgeted Op.awaits Short ⟨World.start db, calls.map Call.prog⟩
      fun i => (calls[i]?.map Call.work).getD 0 := by
    intro i t hi
    rw [List.getElem?_map] at hi
    obtain ⟨call, hcall, rfl⟩ := Option.map_eq_some_iff.mp hi
    simpa [hcall] using call.prog_takes
  apply Pool.ended_of_turns (Advance.refl calls) (fun _ _ _ => Advance.trans)
    (fun _ _ h => h.genuine) (fun o w hw => hw.short env o) (calls_obey env hdb calls)
    (World.start_genuine hdb) hbudget
  intro i hi
  rw [List.length_map] at hi
  have hcall : calls[i]? = some calls[i] := List.getElem?_eq_getElem hi
  simpa [hcall] using hturns i _ hcall

/-- A BUY and a SELL that find each other, one after the other. -/
theorem ended_one_by_one :
    (pending .steady Tables.traded [.order (.limit ⟨1, .BUY, "BTC/USDT", 10, 1⟩),
      .order (.limit ⟨2, .SELL, "BTC/USDT", 10, 1⟩)]
      (List.replicate 1809 0 ++ List.replicate 1809 1)).Ended := by
  apply interleave_ends
  · unfold Tables.PricesStored
    decide +kernel
  · intro i call hi
    rcases i with _ | _ | i
    · cases hi
      rw [List.count_append, List.count_replicate_self, Call.work]
      omega
    · cases hi
      rw [List.count_append, List.count_replicate_self, Call.work]
      omega
    · cases hi

end Exchange
