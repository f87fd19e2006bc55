import Exchange.Binance.Controller

/-!
# What a request to place an order does

`placeOrder` in three steps, each told by what is outside and by the tables it
starts from: the listener (`listen_spec`), the checks before the order
(`checkAdminWalletBalance_spec`) and what follows an accepted order
(`record_spec`). `placeOrder_placed` puts them together.
-/

namespace Exchange.Binance

open Async Proc Wallets Store BinanceController

/-- How a step of a request ends: it raises, it answers without an order, or
the request goes on. -/
inductive Gate where
  | raises
  | refuses
  | passes
  deriving DecidableEq

/-! ## The listener -/

/-- The listener is to be renewed. -/
def World.stale (a : Answers) (w : World) : Bool :=
  w.db.lastUpdatedTimeListener.any (fun last_time => old last_time a.now) || !w.ws

def Answers.subscribes (a : Answers) : Bool :=
  (a.fails .userDataStream).isNone && (a.fails .updateListenerTime).isNone

/-- The last time of the listener is read. -/
def World.reads (a : Answers) (w : World) : Bool :=
  (a.fails .lastUpdatedTimeListener).isNone && w.db.lastUpdatedTimeListener.isSome

/-- The listener is renewed: its time is written and there is a socket. -/
def World.renews (a : Answers) (w : World) : Bool := w.reads a && w.stale a && a.subscribes

def World.renewed (a : Answers) (w : World) : World :=
  if w.renews a then { w with db := w.db.updateListenerTime a.now, ws := true } else w

/-- How the wait for the socket ends. -/
def World.opens (a : Answers) (w : World) (success : Bool) : Gate :=
  if w.ws then
    if (a.readyState = .OPEN ∧ success = true) ∨ a.fails .waitForOpenConnection = none then .passes
    else .refuses
  else .raises

def World.listens (a : Answers) (w : World) : Gate :=
  if w.reads a then
    if w.stale a then (w.renewed a).opens a a.subscribes else .passes
  else .raises

/-! ## The checks -/

/-- How the check of the balances ends. -/
def Answers.checks (a : Answers) (req : PlaceOrder) (avgPrice : ℚ) : Gate :=
  match a.account with
  | .error _ => .raises
  | .ok balances =>
      match balances.find? fun v => v.asset = req.main_currency,
          balances.find? fun v => v.asset = req.secondary_currency with
      | some main, some secondary =>
          let short :=
            if req.side = "BUY" then
              (Number.finite secondary.free).lt
                (if req.type = "LIMIT" then req.quantity.mul req.price
                  else req.quantity.mul (.finite avgPrice))
            else (Number.finite main.free).lt req.quantity
          if short then .refuses else .passes
      | _, _ => .raises

def Answers.covers (a : Answers) (req : PlaceOrder) : Gate :=
  match a.avgPrice req.symbol with
  | .error _ => .refuses
  | .ok avgPrice =>
      match a.checks req avgPrice with
      | .passes => if req.quantity.lt (.finite 0) then .refuses else .passes
      | g => g

/-- How everything before the order ends. -/
def World.gate (a : Answers) (w : World) (req : PlaceOrder) : Gate :=
  match w.listens a with
  | .passes => a.covers req
  | g => g

/-- The order that the exchange accepts from a request. -/
def World.accepts (a : Answers) (w : World) (req : PlaceOrder) : Option OrderResponse :=
  if w.gate a req = .passes then (a.newOrder (newOrder req a.uniqid)).toOption else none

/-! ## After the order -/

def OrderResponse.filled (o : OrderResponse) : Bool :=
  o.status = .FILLED ∨ o.status = .PARTIALLY_FILLED

/-- The row that is inserted for an order. -/
def Answers.inserts (a : Answers) (userId : Nat) (o : OrderResponse) : Option BinanceTrade :=
  o.fills.head?.bind fun fill =>
    let row := insertInBinanceTrade userId a.now o fill.price
    if a.fails (.insertInBinanceTrade row) = none then some row else none

def OrderResponse.query (o : OrderResponse) (userId : Nat) : WalletQuery :=
  walletQuery o.side o.symbol o.executedQty o.cummulativeQuoteQty userId

/-- The wallets after a statement, if it is accepted. -/
def Answers.statement (a : Answers) (q : WalletQuery) (tbl_wallet : Table Wallet Wallet.id) :
    Option (Table Wallet Wallet.id) :=
  if a.fails (.updateWalletQuery q) = none then Binance.updateWalletQuery tbl_wallet q else none

/-- The wallets after the statement that settles an order, if it is run and accepted. -/
def Answers.settles (a : Answers) (userId : Nat) (o : OrderResponse)
    (tbl_wallet : Table Wallet Wallet.id) : Option (Table Wallet Wallet.id) :=
  if (a.inserts userId o).isSome ∧ o.filled = true then a.statement (o.query userId) tbl_wallet
  else none

/-- Nothing fails after the order. -/
def Answers.completes (a : Answers) (userId : Nat) (o : OrderResponse)
    (tbl_wallet : Table Wallet Wallet.id) : Bool :=
  (a.inserts userId o).isSome && (!o.filled || (a.settles userId o tbl_wallet).isSome) &&
    (a.fails (.getAllUserOrderFromTable userId)).isNone

/-! ## Specifications -/

section Request

variable {a : Answers} {w : World}

theorem renewed_tables : (w.renewed a).db.tbl_wallet = w.db.tbl_wallet ∧
    (w.renewed a).db.binance_trade = w.db.binance_trade ∧ (w.renewed a).orders = w.orders ∧
    (w.renewed a).trade_queue = w.trade_queue := by
  unfold World.renewed
  split <;> exact ⟨rfl, rfl, rfl, rfl⟩

/-- An accepted order is an answer of the exchange. -/
theorem answered_of_accepts {req : PlaceOrder} {o : OrderResponse} (h : w.accepts a req = some o) :
    ∃ n, a.newOrder n = .ok o := by
  unfold World.accepts at h
  split at h
  · cases hn : a.newOrder (newOrder req a.uniqid) with
    | error e => simp [hn, Except.toOption] at h
    | ok o' =>
      rw [hn] at h
      exact ⟨_, hn.trans (congrArg _ (Option.some.inj h))⟩
  · cases h

/-- A call that may fail. -/
theorem wp_reply {β : Type} {o : Op} {f : o.Res → Prog β} {Q : Except Err β → World → Prop}
    {r : o.Res} {w' : World} (hp : World.perform a o w = a.reply o w r w')
    (hfail : ∀ e, a.fails o = some e → Q (.error e) w)
    (hok : a.fails o = none → wp (World.perform a) (f r) Q w') :
    wp (World.perform a) (call o >>= f) Q w := by
  apply (wp_bind _ _ _).mpr
  apply (wp_call _ _).mpr
  rw [hp, Answers.reply]
  cases hf : a.fails o with
  | some e => exact hfail e hf
  | none => exact hok hf

/-- A call that is always answered. -/
theorem wp_answer {β : Type} {o : Op} {f : o.Res → Prog β} {Q : Except Err β → World → Prop}
    {r : o.Res} {w' : World} (hp : World.perform a o w = (.ok r, w'))
    (hok : wp (World.perform a) (f r) Q w') :
    wp (World.perform a) (call o >>= f) Q w := by
  apply (wp_bind _ _ _).mpr
  apply (wp_call _ _).mpr
  rw [hp]
  exact hok

theorem subscribeListener_spec :
    wp (World.perform a) subscribeListener (fun r w' => r = .ok a.subscribes ∧
      w' = if a.subscribes then { w with db := w.db.updateListenerTime a.now, ws := true } else w)
      w := by
  unfold subscribeListener
  rw [wp_tryCatch]
  apply wp_reply rfl
  · intro e he
    simp [Answers.subscribes, he]
  intro h₁
  apply wp_reply rfl
  · intro e he
    simp [Answers.subscribes, he]
  intro h₂
  apply wp_answer rfl
  simp [Answers.subscribes, h₁, h₂]

theorem handleError_success (err : Err) (msg : String) : (handleError err msg).success = false := by
  unfold handleError
  split <;> rfl

theorem wp_property_some {α β : Type} {x : α} {f : α → Prog β} {Q : Except Err β → World → Prop}
    (h : wp (World.perform a) (f x) Q w) :
    wp (World.perform a) (property (some x) >>= f) Q w :=
  h

theorem wp_property_none {α β : Type} {f : α → Prog β} {Q : Except Err β → World → Prop}
    (h : Q (.error .typeError) w) : wp (World.perform a) (property none >>= f) Q w :=
  h

/-- The end of a step that may answer. -/
def Ends (g : Gate) (r : Except Err (Option Response)) : Prop :=
  match g with
  | .raises => ∃ e, r = .error e
  | .refuses => ∃ answer, r = .ok (some answer) ∧ answer.success = false
  | .passes => r = .ok none

theorem waitForOpenConnection_spec (success : Bool) :
    wp (World.perform a) (waitForOpenConnection success)
      (fun r w' => w' = w ∧ Ends (w.opens a success) r) w := by
  unfold waitForOpenConnection
  apply wp_answer rfl
  cases hws : w.ws with
  | false =>
    apply wp_property_none
    exact ⟨rfl, by rw [World.opens, hws]; exact ⟨_, rfl⟩⟩
  | true =>
    apply wp_property_some
    by_cases hopen : a.readyState = .OPEN ∧ success = true
    · have hwait : ¬(a.readyState ≠ .OPEN ∨ success = false) := by simpa using hopen
      have hpass : w.opens a success = .passes := by simp [World.opens, hws, hopen]
      rw [if_neg hwait, hpass]
      exact ⟨rfl, rfl⟩
    · have hwait : a.readyState ≠ .OPEN ∨ success = false := by
        simpa [Classical.or_iff_not_imp_left] using hopen
      rw [if_pos hwait, wp_tryCatch]
      apply wp_reply rfl
      · intro e he
        refine ⟨rfl, ?_⟩
        simp only [World.opens, hws, hopen, he, if_true, false_or, reduceCtorEq, if_false]
        exact ⟨_, rfl, handleError_success _ _⟩
      · intro he
        exact ⟨rfl, by simp [World.opens, hws, he, Ends]⟩

theorem listen_spec :
    wp (World.perform a) BinanceController.listen
      (fun r w' => w' = w.renewed a ∧ Ends (w.listens a) r) w := by
  unfold BinanceController.listen
  apply wp_reply rfl
  · intro e he
    have hreads : w.reads a = false := by simp [World.reads, he]
    simp [World.renewed, World.renews, World.listens, hreads, Ends]
  intro hread
  cases hlast : w.db.lastUpdatedTimeListener with
  | none =>
    have hreads : w.reads a = false := by simp [World.reads, hlast]
    apply wp_property_none
    simp [World.renewed, World.renews, World.listens, hreads, Ends]
  | some last_time =>
    have hreads : w.reads a = true := by simp [World.reads, hread, hlast]
    have hstale : (old last_time a.now = true ∨ (if w.ws then some a.readyState else none) = none) ↔
        w.stale a = true := by
      simp only [World.stale, hlast]
      cases w.ws <;> simp
    apply wp_property_some
    apply wp_answer rfl
    apply wp_answer rfl
    by_cases hs : w.stale a = true
    · rw [if_pos (hstale.mpr hs)]
      apply (wp_bind _ _ _).mpr
      apply wp_mono subscribeListener_spec
      rintro r w' ⟨rfl, rfl⟩
      have hrenewed : (if a.subscribes then
          { w with db := w.db.updateListenerTime a.now, ws := true } else w) = w.renewed a := by
        simp [World.renewed, World.renews, hreads, hs]
      rw [hrenewed]
      apply wp_mono (waitForOpenConnection_spec _)
      rintro r w' ⟨rfl, hend⟩
      refine ⟨rfl, ?_⟩
      rw [World.listens, if_pos hreads, if_pos hs]
      exact hend
    · rw [if_neg fun h => hs (hstale.mp h)]
      simp [World.renewed, World.renews, World.listens, hreads, hs, Ends]

/-- The end of a check. -/
def Checked (g : Gate) (r : Except Err Response) : Prop :=
  match g with
  | .raises => ∃ e, r = .error e
  | .refuses => ∃ answer, r = .ok answer ∧ answer.success = false
  | .passes => ∃ answer, r = .ok answer ∧ answer.success = true

/-- An answer that is false when there is too little. -/
theorem wp_short (short : Bool) (message : String) :
    wp (World.perform a)
      (if short = true then Pure.pure ⟨false, message, none⟩ else Pure.pure ⟨true, "", none⟩)
      (fun r w' => w' = w ∧ Checked (if short = true then .refuses else .passes) r) w := by
  cases short with
  | true => exact ⟨rfl, _, rfl, rfl⟩
  | false => exact ⟨rfl, _, rfl, rfl⟩

theorem checkAdminWalletBalance_spec (req : PlaceOrder) (avgPrice : ℚ) :
    wp (World.perform a)
      (checkAdminWalletBalance req.main_currency req.secondary_currency req.side req.quantity
        req.price avgPrice req.type)
      (fun r w' => w' = w ∧ Checked (a.checks req avgPrice) r) w := by
  unfold checkAdminWalletBalance
  apply (wp_bind _ _ _).mpr
  apply (wp_call _ _).mpr
  cases hacc : a.account with
  | error e =>
    have hraises : a.checks req avgPrice = .raises := by simp only [Answers.checks, hacc]
    rw [hraises]
    simp only [World.perform, hacc]
    exact ⟨trivial, e, rfl⟩
  | ok balances =>
    simp only [World.perform, hacc, Answers.checks]
    cases balances.find? fun v => v.asset = req.main_currency with
    | none =>
      apply wp_property_none
      exact ⟨rfl, _, rfl⟩
    | some main =>
      apply wp_property_some
      cases balances.find? fun v => v.asset = req.secondary_currency with
      | none =>
        apply wp_property_none
        exact ⟨rfl, _, rfl⟩
      | some secondary =>
        apply wp_property_some
        by_cases hbuy : req.side = "BUY"
        · simp only [if_pos hbuy]
          exact wp_short _ _
        · simp only [if_neg hbuy]
          exact wp_short _ _

theorem currentAvgPrice_spec (symbol : String) :
    wp (World.perform a) (currentAvgPrice symbol)
      (fun r w' => w' = w ∧ r = .ok (a.avgPrice symbol)) w := by
  unfold currentAvgPrice
  rw [wp_tryCatch]
  apply (wp_bind _ _ _).mpr
  apply (wp_call _ _).mpr
  cases havg : a.avgPrice symbol with
  | error e =>
    simp only [World.perform, havg]
    exact ⟨rfl, rfl⟩
  | ok price =>
    simp only [World.perform, havg]
    exact ⟨rfl, rfl⟩

/-- What is stored for an order `o` of `userId`. -/
structure Stored (a : Answers) (userId : Nat) (o : OrderResponse) (w w' : World) : Prop where
  binance_trade : w'.db.binance_trade = w.db.binance_trade ++ (a.inserts userId o).toList
  tbl_wallet : w'.db.tbl_wallet = (a.settles userId o w.db.tbl_wallet).getD w.db.tbl_wallet
  trade_queue : w'.trade_queue = w.trade_queue

/-- The answer with the orders of the user, which ends a request. -/
theorem wp_allOrders {userId : Nat} {Q : Except Err Response → World → Prop}
    (hfail : ∀ e, a.fails (.getAllUserOrderFromTable userId) = some e → Q (.error e) w)
    (hok : a.fails (.getAllUserOrderFromTable userId) = none →
      ∀ answer, answer.success = true → Q (.ok answer) w) :
    wp (World.perform a) (do
      let allOrders : List BinanceTrade ← call (.getAllUserOrderFromTable userId)
      Pure.pure (⟨true, "Order Placed Succesfully", some allOrders⟩ : Response)) Q w := by
  apply wp_reply rfl
  · exact hfail
  · exact fun h => hok h _ rfl

theorem wp_updateWalletQuery {β : Type} {q : WalletQuery} {f : Unit → Prog β}
    {Q : Except Err β → World → Prop}
    (hfail : ∀ e, a.statement q w.db.tbl_wallet = none → Q (.error e) w)
    (hok : ∀ t, a.statement q w.db.tbl_wallet = some t →
      wp (World.perform a) (f ()) Q { w with db := { w.db with tbl_wallet := t } }) :
    wp (World.perform a) (call (.updateWalletQuery q) >>= f) Q w := by
  apply (wp_bind _ _ _).mpr
  apply (wp_call _ _).mpr
  cases hq : Binance.updateWalletQuery w.db.tbl_wallet q with
  | none =>
    have hnot : a.statement q w.db.tbl_wallet = none := by simp [Answers.statement, hq]
    simp only [World.perform, Tables.updateWalletQuery, hq, Option.map_none]
    exact hfail _ hnot
  | some t =>
    simp only [World.perform, Tables.updateWalletQuery, hq, Option.map_some, Answers.reply]
    cases hf : a.fails (.updateWalletQuery q) with
    | some e => exact hfail e (by simp [Answers.statement, hf])
    | none => exact hok t (by simp [Answers.statement, hf, hq])

theorem record_spec (userId : Nat) (o : OrderResponse) :
    wp (World.perform a) (record userId o) (fun r w' =>
      w'.orders = w.orders ∧ Stored a userId o w w' ∧
      if a.completes userId o w.db.tbl_wallet then ∃ answer, r = .ok answer ∧ answer.success = true
      else ∃ e, r = .error e) w := by
  unfold record
  apply wp_answer rfl
  cases hfill : o.fills.head? with
  | none =>
    have hnot : a.inserts userId o = none := by simp [Answers.inserts, hfill]
    apply wp_property_none
    refine ⟨rfl, ⟨by simp [hnot], by simp [Answers.settles, hnot], rfl⟩, ?_⟩
    simp [Answers.completes, hnot]
  | some fill =>
    apply wp_property_some
    apply wp_reply rfl
    · intro e he
      have hnot : a.inserts userId o = none := by simp [Answers.inserts, hfill, he]
      refine ⟨rfl, ⟨by simp [hnot], by simp [Answers.settles, hnot], rfl⟩, ?_⟩
      simp [Answers.completes, hnot]
    intro hins
    have hrow : a.inserts userId o = some (insertInBinanceTrade userId a.now o fill.price) := by
      simp [Answers.inserts, hfill, hins]
    by_cases hfilled : o.filled = true
    · have hstatus : o.status = .FILLED ∨ o.status = .PARTIALLY_FILLED := by
        simpa [OrderResponse.filled] using hfilled
      have hrun : a.settles userId o w.db.tbl_wallet =
          a.statement (o.query userId) w.db.tbl_wallet := by
        simp [Answers.settles, hrow, hfilled]
      rw [if_pos hstatus]
      apply wp_updateWalletQuery
      · intro e hnone
        have hnone : a.settles userId o w.db.tbl_wallet = none := hrun.trans hnone
        refine ⟨rfl, ⟨by rw [hrow]; rfl, by rw [hnone]; rfl, rfl⟩, ?_⟩
        simp [Answers.completes, hfilled, hnone]
      intro t ht
      have ht : a.settles userId o w.db.tbl_wallet = some t := hrun.trans ht
      apply wp_allOrders
      · intro e he
        refine ⟨rfl, ⟨by rw [hrow]; rfl, by rw [ht]; rfl, rfl⟩, ?_⟩
        simp [Answers.completes, he]
      · intro hlist answer hanswer
        refine ⟨rfl, ⟨by rw [hrow]; rfl, by rw [ht]; rfl, rfl⟩, ?_⟩
        simp [Answers.completes, hrow, ht, hlist, hanswer]
    · have hstatus : ¬(o.status = .FILLED ∨ o.status = .PARTIALLY_FILLED) := by
        simpa [OrderResponse.filled] using hfilled
      have hnone : a.settles userId o w.db.tbl_wallet = none := by simp [Answers.settles, hfilled]
      rw [if_neg hstatus]
      apply wp_allOrders
      · intro e he
        refine ⟨rfl, ⟨by rw [hrow]; rfl, by rw [hnone]; rfl, rfl⟩, ?_⟩
        simp [Answers.completes, he]
      · intro hlist answer hanswer
        refine ⟨rfl, ⟨by rw [hrow]; rfl, by rw [hnone]; rfl, rfl⟩, ?_⟩
        simp [Answers.completes, hrow, hfilled, hlist, hanswer]

theorem submit_spec (req : PlaceOrder) :
    wp (World.perform a) (submit req a.uniqid) (fun r w' =>
      match (a.newOrder (newOrder req a.uniqid)).toOption with
      | none => w' = w ∧ ∃ answer, r = .ok answer ∧ answer.success = false
      | some o => w'.orders = w.orders ++ [o] ∧ Stored a req.userId o w w' ∧
          ∃ answer, r = .ok answer ∧
            answer.success = a.completes req.userId o w.db.tbl_wallet) w := by
  unfold submit
  rw [wp_tryCatch]
  apply (wp_bind _ _ _).mpr
  apply (wp_call _ _).mpr
  cases ho : a.newOrder (newOrder req a.uniqid) with
  | error e =>
    simp only [World.perform, ho, Except.toOption]
    exact ⟨rfl, _, rfl, handleError_success _ _⟩
  | ok o =>
    simp only [World.perform, ho, Except.toOption]
    apply wp_mono (record_spec req.userId o)
    rintro r w' ⟨horders, ⟨hrow, hwallet, hqueue⟩, hend⟩
    cases hall : a.completes req.userId o w.db.tbl_wallet with
    | true =>
      obtain ⟨answer, rfl, hanswer⟩ := (if_pos hall).mp hend
      exact ⟨horders, ⟨hrow, hwallet, hqueue⟩, answer, rfl, hanswer⟩
    | false =>
      obtain ⟨e, rfl⟩ := (if_neg (Bool.eq_false_iff.mp hall)).mp hend
      exact ⟨horders, ⟨hrow, hwallet, hqueue⟩, _, rfl, handleError_success _ _⟩

/-- What a request does: nothing but renewing the listener, or an order. -/
def Placed (a : Answers) (req : PlaceOrder) (w : World) (r : Except Err Response) (w' : World) :
    Prop :=
  match w.accepts a req with
  | none => w' = w.renewed a ∧ if w.gate a req = .raises then ∃ e, r = .error e
      else ∃ answer, r = .ok answer ∧ answer.success = false
  | some o => w'.orders = w.orders ++ [o] ∧ Stored a req.userId o w w' ∧
      ∃ answer, r = .ok answer ∧ answer.success = a.completes req.userId o w.db.tbl_wallet

theorem placed_of_raises {req : PlaceOrder} {e : Err} (hgate : w.gate a req = .raises) :
    Placed a req w (.error e) (w.renewed a) := by
  have hnone : w.accepts a req = none := if_neg (by rw [hgate]; decide)
  unfold Placed
  rw [hnone, hgate]
  exact ⟨rfl, e, rfl⟩

theorem placed_of_refuses {req : PlaceOrder} {answer : Response} (hgate : w.gate a req = .refuses)
    (hanswer : answer.success = false) : Placed a req w (.ok answer) (w.renewed a) := by
  have hnone : w.accepts a req = none := if_neg (by rw [hgate]; decide)
  unfold Placed
  rw [hnone, hgate]
  exact ⟨rfl, answer, rfl, hanswer⟩

theorem placeOrder_placed (req : PlaceOrder) :
    wp (World.perform a) (placeOrder req) (Placed a req w) w := by
  unfold placeOrder
  apply (wp_bind _ _ _).mpr
  apply wp_mono listen_spec
  rintro r w' ⟨rfl, hend⟩
  cases hl : w.listens a with
  | raises =>
    rw [hl] at hend
    obtain ⟨e, rfl⟩ := hend
    exact placed_of_raises (by rw [World.gate, hl])
  | refuses =>
    rw [hl] at hend
    obtain ⟨answer, rfl, hanswer⟩ := hend
    exact placed_of_refuses (by rw [World.gate, hl]) hanswer
  | passes =>
    rw [hl] at hend
    subst hend
    have hgate : w.gate a req = a.covers req := by rw [World.gate, hl]
    apply wp_answer rfl
    apply (wp_bind _ _ _).mpr
    apply wp_mono (currentAvgPrice_spec req.symbol)
    rintro r w' ⟨rfl, rfl⟩
    cases havg : a.avgPrice req.symbol with
    | error e =>
      have hrefuses : w.gate a req = .refuses := by rw [hgate, Answers.covers, havg]
      exact placed_of_refuses hrefuses (handleError_success _ _)
    | ok avgPrice =>
      apply (wp_bind _ _ _).mpr
      apply wp_mono (checkAdminWalletBalance_spec req avgPrice)
      rintro r w' ⟨rfl, hend⟩
      cases hc : a.checks req avgPrice with
      | raises =>
        rw [hc] at hend
        obtain ⟨e, rfl⟩ := hend
        exact placed_of_raises (by simp only [hgate, Answers.covers, havg, hc])
      | refuses =>
        rw [hc] at hend
        obtain ⟨answer, rfl, hanswer⟩ := hend
        have hrefuses : w.gate a req = .refuses := by simp only [hgate, Answers.covers, havg, hc]
        simp only [hanswer]
        exact placed_of_refuses hrefuses rfl
      | passes =>
        rw [hc] at hend
        obtain ⟨answer, rfl, hanswer⟩ := hend
        simp only [hanswer]
        cases hneg : req.quantity.lt (.finite 0) with
        | true =>
          have hrefuses : w.gate a req = .refuses := by
            simp only [hgate, Answers.covers, havg, hc, hneg, if_true]
          exact placed_of_refuses hrefuses rfl
        | false =>
          have hpasses : w.gate a req = .passes := by
            simp only [hgate, Answers.covers, havg, hc, hneg]
            rfl
          have haccepts : w.accepts a req = (a.newOrder (newOrder req a.uniqid)).toOption :=
            if_pos hpasses
          obtain ⟨hwallet, htrade, horders, hqueue⟩ := renewed_tables (a := a) (w := w)
          apply wp_mono (submit_spec req)
          intro r w' hsubmit
          unfold Placed
          rw [haccepts]
          cases ho : (a.newOrder (newOrder req a.uniqid)).toOption with
          | none =>
            rw [ho] at hsubmit
            rw [hpasses]
            exact hsubmit
          | some o =>
            rw [ho] at hsubmit
            obtain ⟨hadd, ⟨hrow, hwallets, htrades⟩, answer, hr, hanswer⟩ := hsubmit
            rw [hwallet] at hwallets hanswer
            rw [htrade] at hrow
            exact ⟨horders ▸ hadd, ⟨hrow, hwallets, htrades.trans hqueue⟩, answer, hr, hanswer⟩

end Request

end Exchange.Binance
