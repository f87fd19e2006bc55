import Exchange.Binance.Deleting
import Exchange.Funds.Finality

/-!
# Which rows of `binance_trade` are deleted

The database does what is read in the text of `deleteOrder` (`CancelAnswers.Reads`).

Proved here: in every run, a row that is gone was selected by the text of a cancellation that
a request asked for and the exchange confirmed, and if its texts are faithful they
name the row's order and user (`deletions_named`). And in every state, a cancellation
deletes at once what its texts select: with a quote in the user, the rows with any value in any
column, or all that there are (`cancellation_deletes`).
-/

namespace Exchange.Funds

open Async Store Wallets Binance Text.Sql

/-! ## One call -/

section Calls

variable {a : Answers} {w : World}

theorem trades_exchange (o : Binance.Op) :
    w.binance.db.binance_trade <+: (answer a (.exchange o) w).2.binance.db.binance_trade := by
  by_cases ho : Books (.exchange o)
  · cases o with
    | newOrder order =>
      simp only [answer, Binance.World.perform]
      cases a.exchange.newOrder order <;> exact List.prefix_refl _
    | insertInBinanceTrade row =>
      simp only [answer, Binance.World.perform, Binance.Answers.reply]
      cases a.exchange.fails (.insertInBinanceTrade row) with
      | some e => exact List.prefix_refl _
      | none => exact List.prefix_append ..
    | updateWalletQuery q =>
      simp only [answer, Binance.World.perform, Binance.Tables.updateWalletQuery,
        Solvency.World.orders_wallet, Binance.Answers.reply]
      cases Binance.updateWalletQuery w.tbl_wallet q with
      | none => exact List.prefix_refl _
      | some t =>
        dsimp only [Option.map_some]
        cases a.exchange.fails (.updateWalletQuery q) <;> exact List.prefix_refl _
    | _ => exact ho.elim
  · obtain ⟨-, htrades, -, -, -⟩ := exchange_books (a := a) (w := w) ho
    rw [htrades]

/-- A row stays, or the statement of a cancellation selects it. -/
theorem trade_stays {r : BinanceTrade} (hr : r ∈ w.binance.db.binance_trade) (o : Op) :
    r ∈ (answer a o w).2.binance.db.binance_trade ∨
      ∃ orderId user_id, o = .cancelling (.deleteOrder orderId user_id) ∧
        a.cancelling.selects orderId user_id r = true := by
  cases o with
  | exchange o => exact .inl ((trades_exchange o).subset hr)
  | withdrawing o => exact .inl hr
  | settlement o => exact .inl hr
  | cancelling o =>
    cases o with
    | cancelOrder symbol orderId => exact .inl hr
    | deleteOrder orderId user_id =>
      cases hselects : a.cancelling.selects orderId user_id r with
      | true => exact .inr ⟨orderId, user_id, rfl, hselects⟩
      | false =>
        left
        simp only [answer, Binance.World.performCancel]
        cases a.cancelling.fails (.deleteOrder orderId user_id) with
        | some e => exact hr
        | none => exact List.mem_filter.mpr ⟨hr, by simp [hselects]⟩

end Calls

/-! ## Cancellations that were asked for -/

/-- A request for a cancellation that the exchange has confirmed. -/
structure Confirmed (w : World) (req : CancelOrder) : Prop where
  arrived : .cancelOrder req ∈ w.arrived
  cancelled : (req.symbol, req.orderId) ∈ w.cancelled

/-- The row is one that the text of the cancellation selects, as far as it is read. -/
def Selects (K : Collation BinanceTrade) (req : CancelOrder) (r : BinanceTrade) : Prop :=
  ∀ parts, deleted req.orderId req.user_id = some parts → K.selects parts r = true

/-- Some confirmed cancellation selects the row. -/
def Named (K : Collation BinanceTrade) (w : World) (r : BinanceTrade) : Prop :=
  ∃ req, Confirmed w req ∧ Selects K req r

/-- What is known while `seen` are rows that there were: a cancellation is at work for a
request, its rows are deleted after the exchange has confirmed it, and a row that is
gone was named. -/
structure Watched (K : Collation BinanceTrade) (seen : List BinanceTrade) (w : World)
    (phases : List Phase) : Prop where
  asked : ∀ req, .cancelling req ∈ phases → .cancelOrder req ∈ w.arrived
  confirmed : ∀ req, .cancelled req ∈ phases → Confirmed w req
  gone : ∀ r ∈ seen, r ∈ w.binance.db.binance_trade ∨ Named K w r

section Steps

variable {K : Collation BinanceTrade} {seen : List BinanceTrade} {a : Answers} {w w' : World}
  {phases : List Phase}

theorem Confirmed.mono {req : CancelOrder} (h : Confirmed w req) (harrived : w.arrived ⊆ w'.arrived)
    (hcancelled : w.cancelled ⊆ w'.cancelled) : Confirmed w' req :=
  ⟨harrived h.arrived, hcancelled h.cancelled⟩

theorem Named.mono {r : BinanceTrade} (h : Named K w r) (harrived : w.arrived ⊆ w'.arrived)
    (hcancelled : w.cancelled ⊆ w'.cancelled) : Named K w' r := by
  obtain ⟨req, hreq, hselects⟩ := h
  exact ⟨req, hreq.mono harrived hcancelled, hselects⟩

theorem Watched.happen {c : Request} {started : List Thread} (h : Watched K seen w phases)
    (hc : Arrives c w w' started) : Watched K seen w' (phases ++ [c.phase]) := by
  have harrived : w.arrived ⊆ w'.arrived := by
    rw [hc.arrived]
    exact List.subset_append_left ..
  have hcancelled : w.cancelled ⊆ w'.cancelled := by
    rw [hc.cancelled]
    exact List.Subset.refl _
  constructor
  · intro req hreq
    rcases List.mem_append.mp hreq with hreq | hnew
    · exact harrived (h.asked req hreq)
    · -- the request has just arrived
      rw [hc.arrived]
      cases c with
      | cancelOrder req' =>
        cases List.mem_singleton.mp hnew
        simp
      | _ => cases List.mem_singleton.mp hnew
  · intro req hreq
    rcases List.mem_append.mp hreq with hreq | hnew
    · exact (h.confirmed req hreq).mono harrived hcancelled
    · cases c <;> cases List.mem_singleton.mp hnew
  · intro r hr
    rw [hc.binance]
    exact (h.gone r hr).imp_right fun hnamed => hnamed.mono harrived hcancelled

variable {i : Nat} {s : Phase} {o : Op}

/-- A program asks the exchange for the cancellation of its request only. -/
theorem next_cancelling {req : CancelOrder} (r : Except Empty o.Res) (hmay : may s o)
    (hnext : next s o r = .cancelling req) : s = .cancelling req := by
  have hmove := next_move r hmay
  rw [hnext] at hmove
  cases hmove
  rfl

/-- It is confirmed when the exchange has answered. -/
theorem next_cancelled {req : CancelOrder} (hmay : may s o)
    (hnext : next s o (answer a o w).1 = .cancelled req) :
    s = .cancelled req ∨
      s = .cancelling req ∧ (req.symbol, req.orderId) ∈ (answer a o w).2.cancelled := by
  have hmove := next_move (answer a o w).1 hmay
  rw [hnext] at hmove
  cases hmove with
  | idle => exact .inl rfl
  | cancel =>
    refine .inr ⟨rfl, ?_⟩
    simp only [next, answer, Binance.World.performCancel, Phase.cancel] at hnext
    simp only [answer, World.cancels]
    cases hanswer : a.cancelling.cancelOrder req.symbol req.orderId with
    | error e =>
      rw [hanswer] at hnext
      cases hnext
    | ok data => simp

theorem Watched.answer (h : Watched K seen w phases) (ha : a.cancelling.Reads K)
    (hi : phases[i]? = some s) (hmay : may s o) :
    Watched K seen (Funds.answer a o w).2 (phases.set i (next s o (Funds.answer a o w).1)) := by
  have hs : s ∈ phases := List.mem_of_getElem? hi
  have harrived : w.arrived ⊆ (Funds.answer a o w).2.arrived := by
    rw [answer_arrived]
    exact List.Subset.refl _
  have hcancelled : w.cancelled ⊆ (Funds.answer a o w).2.cancelled :=
    (later_answer hmay).cancelled.subset
  constructor
  · intro req hreq
    rcases List.mem_or_eq_of_mem_set hreq with hreq | heq
    · exact harrived (h.asked req hreq)
    · have hasking := next_cancelling _ hmay heq.symm
      exact harrived (h.asked req (hasking ▸ hs))
  · intro req hreq
    rcases List.mem_or_eq_of_mem_set hreq with hreq | heq
    · exact (h.confirmed req hreq).mono harrived hcancelled
    · rcases next_cancelled hmay heq.symm with rfl | ⟨rfl, hconfirmed⟩
      · exact (h.confirmed req hs).mono harrived hcancelled
      · exact ⟨harrived (h.asked req hs), hconfirmed⟩
  · intro r hr
    rcases h.gone r hr with hrow | hnamed
    · rcases trade_stays (a := a) hrow o with hrow | ⟨orderId, user_id, rfl, hselects⟩
      · exact .inl hrow
      · -- the statement of a confirmed cancellation
        obtain ⟨req, rfl, rfl, rfl⟩ := hmay
        refine .inr ⟨req, (h.confirmed req hs).mono harrived hcancelled, fun parts hparts => ?_⟩
        rw [← ha _ _ _ hparts, hselects]
    · exact .inr (hnamed.mono harrived hcancelled)

end Steps

/-! ## Runs -/

/-- The database does what is read in the statements. -/
def Reads (K : Collation BinanceTrade) (turns : List Turn) : Prop :=
  ∀ t ∈ turns, ∀ i (a : Answers), t = .perform i a → a.cancelling.Reads K

/-- **Only a confirmed cancellation that names a row deletes it**, between any two states
of a run, in whatever order the calls are answered, and whichever fail. -/
theorem deletions_named (K : Collation BinanceTrade) (w₀ : Solvency.World)
    (turns turns' : List Turn) (hreads : Reads K (turns ++ turns')) :
    let w := (loop.run (State.start w₀) turns).world
    let w' := (loop.run (State.start w₀) (turns ++ turns')).world
    ∀ r ∈ w.binance.db.binance_trade, r ∉ w'.binance.db.binance_trade →
      ∃ req, Confirmed w' req ∧ Selects K req r ∧
        (faithful req.orderId.toList = true → faithful req.user_id.toList = true →
          K.column "orderId".toList r req.orderId.toList = true ∧
            K.column "user_id".toList r req.user_id.toList = true) := by
  intro w w' r hr hgone
  have hrun : loop.run (State.start w₀) (turns ++ turns') =
      loop.run (loop.run (State.start w₀) turns) turns' :=
    List.foldl_append
  obtain ⟨phases, hphases, hbefore⟩ := run_keeps (Watched K []) (s := State.start w₀) .nil
    ⟨nofun, nofun, nofun⟩ (fun c w w' started _ hc h => h.happen hc)
    (fun a o w _ i s ha h hi hmay => h.answer ha hi hmay)
    (fun t ht => hreads t (List.mem_append_left _ ht))
  obtain ⟨phases', -, hafter⟩ := run_keeps (Watched K w.binance.db.binance_trade) hphases
    ⟨hbefore.asked, hbefore.confirmed, fun _ hr => .inl hr⟩
    (fun c w w' started _ hc h => h.happen hc) (fun a o w _ i s ha h hi hmay => h.answer ha hi hmay)
    (fun t ht => hreads t (List.mem_append_right _ ht))
  rw [← hrun] at hafter
  rcases hafter.gone r hr with hrow | ⟨req, hconfirmed, hselects⟩
  · exact absurd hrow hgone
  · refine ⟨req, hconfirmed, hselects, fun ho hu => ?_⟩
    simpa using hselects _ (deleted_faithful ho hu)

/-- Texts are compared as they are, and no other columns than those of `deleteOrder`. -/
def exactly : Collation BinanceTrade where
  column name r value :=
    (name, value) ∈ [("orderId".toList, (toString r.orderId).toList),
      ("user_id".toList, (toString r.user_id).toList)]
  text value value' := value = value'
  text_refl _ := decide_eq_true rfl

/-- The answers of `buying`, with statements that are read. -/
def reading : Answers :=
  { buying with cancelling := { buying.cancelling with selects := deletes exactly } }

/-- Two orders of user 1, answered by turns. -/
def ordering : List Turn :=
  List.replicate 2 (.happen (.placeOrder (.buy "MARKET"))) ++
    (List.replicate 14 [0, 1]).flatten.map (.perform · reading)

/-- The turns of a cancellation that nothing interrupts: it arrives, the exchange answers, and
the statement is executed. -/
def cancellation (s : State) (req : CancelOrder) (a a' : Answers) : List Turn :=
  [.happen (.cancelOrder req), .perform s.threads.length a, .perform s.threads.length a']

/-- Both rows are gone, and they have been named. -/
theorem named_by_cancellation :
    let s := loop.run (State.start (.of .funded)) ordering
    let w := (loop.run (State.start (.of .funded))
      (ordering ++ cancellation s ⟨"BTCUSDT", "7", "1"⟩ reading reading)).world
    s.world.binance.db.binance_trade.length = 2 ∧
      ∀ r ∈ s.world.binance.db.binance_trade, ∃ req, Confirmed w req ∧
        Selects exactly req r ∧
        (faithful req.orderId.toList = true → faithful req.user_id.toList = true →
          exactly.column "orderId".toList r req.orderId.toList = true ∧
            exactly.column "user_id".toList r req.user_id.toList = true) := by
  refine ⟨by decide +kernel, fun r hr => ?_⟩
  apply deletions_named exactly _ _ _ ?_ r hr
  · have hnone : (loop.run (State.start (.of .funded)) (ordering ++ cancellation
        (loop.run (State.start (.of .funded)) ordering) ⟨"BTCUSDT", "7", "1"⟩ reading
        reading)).world.binance.db.binance_trade = [] := by
      decide +kernel
    rw [hnone]
    exact List.not_mem_nil
  · rintro t ht i a rfl
    have ha : a = reading := by
      simp only [ordering, cancellation, List.mem_append, List.mem_map, List.mem_cons,
        List.not_mem_nil, or_false, Loop.Turn.perform.injEq, reduceCtorEq, false_or] at ht
      rcases ht with (ht | ⟨j, -, -, hj⟩) | ⟨-, ha⟩ | ⟨-, ha⟩
      · cases List.eq_of_mem_replicate ht
      · exact hj.symm
      · exact ha
      · exact ha
    rw [ha]
    exact fun _ _ _ h => deletes_of_deleted h

theorem answer_cancelOrder {symbol orderId data : String} {a : Answers} {w : World}
    (ha : a.cancelling.cancelOrder symbol orderId = .ok data) :
    answer a (.cancelling (.cancelOrder symbol orderId)) w =
      (.ok (.ok data), { w with
        toWorld := w.withOrders w.orders
        cancelled := w.cancelled ++ [(symbol, orderId)] }) := by
  simp only [answer, Binance.World.performCancel, World.cancels, ha]

theorem answer_deleteOrder {orderId user_id : String} {a : Answers} {w : World}
    (ha : a.cancelling.fails (.deleteOrder orderId user_id) = none) :
    answer a (.cancelling (.deleteOrder orderId user_id)) w =
      (.ok (.ok ()), { w with toWorld := w.withOrders { w.orders with
        db := w.orders.db.deleteOrder (a.cancelling.selects orderId user_id) } }) := by
  simp only [answer, Binance.World.performCancel, ha]
  rfl

theorem run_cancellation (s : State) (req : CancelOrder) {a a' : Answers} {data : String}
    (ha : a.cancelling.cancelOrder req.symbol req.orderId = .ok data)
    (hup : a'.cancelling.fails (.deleteOrder req.orderId req.user_id) = none) :
    (loop.run s (cancellation s req a a')).world.binance.db.binance_trade =
      s.world.binance.db.binance_trade.filter
        fun r => !a'.cancelling.selects req.orderId req.user_id r := by
  -- it stands at the call of the exchange, and then at its statement
  obtain ⟨k, hprogram, hask⟩ : ∃ k, BinanceController.cancelOrder req =
      .op (.cancelOrder req.symbol req.orderId) k ∧ ∀ data, ∃ k',
        k (.ok data) = .op (.deleteOrder req.orderId req.user_id) k' :=
    ⟨_, rfl, fun _ => ⟨_, rfl⟩⟩
  obtain ⟨k', hdelete⟩ := hask data
  have hhappen : loop.step s (.happen (.cancelOrder req)) =
      ⟨{ s.world with arrived := s.world.arrived ++ [.cancelOrder req] },
        s.threads ++ [(Request.cancelOrder req).program]⟩ :=
    loop.step_happen rfl
  simp only [cancellation, Loop.run, List.foldl_cons, List.foldl_nil, hhappen, Request.program,
    hprogram, Proc.detach]
  rw [loop.step_perform_last rfl (congrArg some (answer_cancelOrder ha))]
  simp only [hdelete, Proc.detach]
  rw [loop.step_perform_last rfl (congrArg some (answer_deleteOrder hup))]
  rfl

/-- **What a cancellation deletes**, in every state. A quote in the text of the user makes it
delete the rows with any value in any column, or all rows. -/
theorem cancellation_deletes (K : Collation BinanceTrade) (s : State)
    (symbol orderId user_id : String) {a a' : Answers} {data : String}
    (ho : faithful orderId.toList = true)
    (ha : a.cancelling.cancelOrder symbol orderId = .ok data)
    (hup : a'.cancelling.fails (.deleteOrder orderId user_id) = none)
    (hreads : a'.cancelling.Reads K) :
    let rows := s.world.binance.db.binance_trade
    let left := (loop.run s (cancellation s ⟨symbol, orderId, user_id⟩ a a')).world.binance.db
    (faithful user_id.toList = true → left.binance_trade = rows.filter fun r =>
      !(K.column "orderId".toList r orderId.toList && K.column "user_id".toList r user_id.toList)) ∧
    (∀ x column y, user_id = orColumn x column y → faithful x.toList = true →
      column.toList ∈ tradeColumns → faithful y.toList = true →
      left.binance_trade = rows.filter fun r =>
        !(K.column "orderId".toList r orderId.toList && K.column "user_id".toList r x.toList ||
          K.column column.toList r y.toList)) ∧
    (∀ x, user_id = orAlways x → faithful x.toList = true → left.binance_trade = []) := by
  intro rows left
  have hleft : left.binance_trade = rows.filter fun r =>
      !a'.cancelling.selects orderId user_id r :=
    run_cancellation s ⟨symbol, orderId, user_id⟩ ha hup
  rw [hleft]
  refine ⟨fun hu => ?_, ?_, ?_⟩
  · simp only [hreads.faithful ho hu]
  · rintro x column y rfl hx hcolumn hy
    simp only [hreads.orColumn ho hx hcolumn hy]
  · rintro x rfl hx
    simp [hreads.orAlways ho hx]

/-- An order that nobody has placed, and a quote: all rows are gone. -/
theorem all_deleted :
    let s := loop.run (State.start (.of .funded)) ordering
    s.world.binance.db.binance_trade.length = 2 ∧
      (loop.run s (cancellation s ⟨"BTCUSDT", "9", orAlways "x"⟩ reading
        reading)).world.binance.db.binance_trade = [] := by
  refine ⟨by decide +kernel, ?_⟩
  exact (cancellation_deletes exactly _ "BTCUSDT" "9" (orAlways "x") (by decide) rfl rfl
    fun _ _ _ h => deletes_of_deleted h).2.2 "x" rfl (by decide)

end Exchange.Funds
