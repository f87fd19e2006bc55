import Exchange.OrderBook.Handle

/-!
# One request handled alone

`serve_served` is `handleOrder_processed` for the order of a request, which has no
key: either the insertion of the order is refused and nothing happens, or the
order is inserted and its plan against the resting orders of the opposite side
is made, as far as `Handled.reason` does not stop it.
-/

namespace Exchange

open Async Proc OrderBookService Store

/-! ## What is inserted and what it meets -/

namespace Request

def uid : Request → Nat
  | limit dto => dto.uid
  | market dto => dto.uid

def side : Request → Side
  | limit dto => dto.side
  | market dto => dto.side

def symbol : Request → String
  | limit dto => dto.symbol
  | market dto => dto.symbol

def size : Request → ℚ
  | limit dto => dto.size
  | market dto => dto.size

def price : Request → Option ℚ
  | limit dto => some dto.price
  | market _ => none

def matcher : Request → Matcher
  | limit dto => if dto.side = .BUY then buyMatcher else sellMatcher
  | market dto => if dto.side = .BUY then marketBuyMatcher else marketSellMatcher

/-- The object handed to `saveOrderBook`. -/
def toSave (req : Request) : NewOrder :=
  { req.order with
    orgSize := req.size
    volume := match req with
      | limit dto => some (Double.mul dto.price dto.size)
      | market _ => none }

end Request

namespace Request

variable (req : Request) (env : Env) (w : World)

/-- The order as its matcher holds it. -/
def taker : OrderBook := req.toSave.saved w.db.tbl_order_books.next (env.clock w.calls)

/-- The price as the matcher holds it: the text that was read back. -/
def held : Text.Value :=
  match req.price with
  | none => .null
  | some p => .text (Text.fixed 8 (roundTo 8 p))

/-- The row inserted for the order. -/
def row : OrderBook := req.toSave.toRow w.db.tbl_order_books.next (env.clock w.calls)

/-- The tables after the insertion. -/
def inserted : Tables := w.db.write (.order req.toSave (env.clock w.calls))

/-- The resting orders the request meets. -/
def resting : List OrderBook := w.db.resting req.side.opposite req.symbol

/-- The number of calls before the matcher starts. -/
def prelude : Nat :=
  match req with
  | limit _ => 9
  | market _ => 3

variable {req env w}

@[simp] theorem toSave_uid : req.toSave.uid = req.uid := by cases req <;> rfl

@[simp] theorem toSave_side : req.toSave.side = req.side := by cases req <;> rfl

@[simp] theorem toSave_symbol : req.toSave.symbol = req.symbol := by cases req <;> rfl

@[simp] theorem toSave_size : req.toSave.size = req.size := by cases req <;> rfl

@[simp] theorem toSave_orgSize : req.toSave.orgSize = req.size := by cases req <;> rfl

@[simp] theorem toSave_price : req.toSave.price = req.price := by cases req <;> rfl

@[simp] theorem toSave_fills : req.toSave.fills = none := by cases req <;> rfl

@[simp] theorem toSave_id : req.toSave.id = none := by cases req <;> rfl

@[simp] theorem taker_id : (req.taker env w).id = w.db.tbl_order_books.next := rfl

@[simp] theorem taker_uid : (req.taker env w).uid = req.uid := toSave_uid

@[simp] theorem taker_symbol : (req.taker env w).symbol = req.symbol := toSave_symbol

@[simp] theorem taker_size : (req.taker env w).size = req.size := toSave_size

@[simp] theorem taker_price : (req.taker env w).price = req.price.map (roundTo 8) :=
  congrArg (Option.map (roundTo 8)) toSave_price

@[simp] theorem taker_held : (req.taker env w).held = req.held := by
  cases req <;> rfl

@[simp] theorem row_id : (req.row env w).id = w.db.tbl_order_books.next := rfl

@[simp] theorem row_is_filled : (req.row env w).is_filled = false := rfl

@[simp] theorem row_uid : (req.row env w).uid = req.uid := toSave_uid

@[simp] theorem row_side : (req.row env w).side = req.side := toSave_side

@[simp] theorem row_symbol : (req.row env w).symbol = req.symbol := toSave_symbol

@[simp] theorem row_price : (req.row env w).price = req.price.map (roundTo 8) :=
  congrArg (Option.map (roundTo 8)) toSave_price

@[simp] theorem row_size : (req.row env w).size = roundTo 8 req.size :=
  congrArg (roundTo 8) toSave_size

@[simp] theorem row_orgSize : (req.row env w).orgSize = roundTo 8 req.size :=
  congrArg (roundTo 8) toSave_orgSize

@[simp] theorem order_id : req.order.id = none := by cases req <;> rfl

theorem order_submitted (req : Request) : req.order.submitted = req.toSave := by
  cases req <;> rfl

theorem order_matcher (req : Request) : req.order.matcher = req.matcher := by
  cases req <;> rfl

theorem order_prelude (req : Request) : req.order.prelude = req.prelude := by
  cases req <;> rfl

theorem order_type_ne (req : Request) : req.order.type ≠ .Market ↔ req.price.isSome = true := by
  cases req <;> simp [order, price]

theorem order_symbol (req : Request) : req.order.symbol = req.symbol := by
  cases req <;> rfl

theorem order_side (req : Request) : req.order.side = req.side := by
  cases req <;> rfl

theorem order_taker : req.order.taker env w = req.taker env w := by
  rw [NewOrder.taker_of_new order_id, order_submitted]
  rfl

theorem order_resting : req.order.resting env w = req.resting w := by
  rw [NewOrder.resting_of_new order_id, order_side, order_symbol]
  rfl

theorem inserted_rows :
    (req.inserted env w).tbl_order_books.rows = w.db.tbl_order_books.rows ++ [req.row env w] := by
  have h : (req.order.inserted env w).tbl_order_books.rows =
      w.db.tbl_order_books.rows ++ [req.order.row env w] :=
    NewOrder.inserted_rows_of_new order_id
  rw [NewOrder.inserted, NewOrder.row, order_submitted] at h
  exact h

@[simp] theorem inserted_trades : (req.inserted env w).tbl_trades = w.db.tbl_trades :=
  Tables.saveOrderBook_trades ..

@[simp] theorem matcher_side : req.matcher.side = req.side := by
  rcases req with ⟨_, side, _, _, _⟩ | ⟨_, side, _, _⟩ <;> cases side <;> rfl

end Request

variable {env : Env} {req : Request} {w : World}

/-! ## Handling -/

/-- The request was inserted and makes the writes `done` of its plan `ws`. -/
structure Handled (env : Env) (req : Request) (w : World) (r : Except Err Response) (w' : World)
    (ws done : List Write) : Prop where
  accepted : env.fails w.calls (.saveOrderBook req.toSave) = false
  plan : Plan req.matcher (req.taker env w) (req.resting w) ws
  made : done <+: ws
  allowed : ∀ wr ∈ done, ∃ n, env.fails n wr.op = false
  db : w'.db = (req.inserted env w).writeAll done
  journal : w'.journal = w.journal ++
    ⟨w.db, .order req.toSave (env.clock w.calls)⟩ :: (req.inserted env w).entries done
  reason : done ≠ ws → Blame env (w.calls + 1) (w.calls + req.prelude + 7 * done.length + 1)
    ws[done.length]? (¬ w.db.HasTrade req.symbol ∧ (req.price.isSome = true ∨ done ≠ []))
  stuck : ¬ w.db.HasTrade req.symbol → done.length ≤ 1
  raised : req.price.isSome = true → ¬ w.db.HasTrade req.symbol → done = [] ∧ ∃ e, r = .error e

namespace Handled

variable {r : Except Err Response} {w' : World} {ws done : List Write}

theorem matching (h : Handled env req w r w' ws done) : ∀ wr ∈ done, wr.Matching :=
  fun wr hwr => h.plan.matching wr (h.made.subset hwr)

theorem rows (h : Handled env req w r w' ws done) : w'.db.tbl_order_books.rows =
    (w.db.tbl_order_books.rows ++ [req.row env w]).map (rowAfter done) := by
  rw [h.db, Tables.writeAll_rows h.matching, Request.inserted_rows]

/-- On a symbol without trades nothing is traded. -/
theorem updates (h : Handled env req w r w' ws done) (hn : ¬ w.db.HasTrade req.symbol) :
    ∀ wr ∈ done, ∃ id u x, wr = .update id u x := by
  have hlen := h.stuck hn
  rcases done with _ | ⟨wr, _ | ⟨_, _⟩⟩
  · simp
  · obtain ⟨post, rfl⟩ := h.made
    simpa using h.plan.head_eq
  · simp at hlen

/-- Where no read fails and the symbol has a trade, writes that cannot fail are made. -/
theorem made_of_allowed (h : Handled env req w r w' ws done) (hT : w.db.HasTrade req.symbol)
    (hread : ∀ n o, o.writes = false → env.fails n o = false) (pre post : List Write)
    (hws : ws = pre ++ post) (hpre : ∀ wr ∈ pre, ∀ n, env.fails n wr.op = false) :
    pre <+: done := by
  rcases le_or_gt pre.length done.length with hle | hlt
  · exact List.prefix_of_prefix_length_le ⟨post, hws.symm⟩ h.made hle
  · exfalso
    have hne : done ≠ ws := by
      rintro rfl
      rw [hws, List.length_append] at hlt
      omega
    rcases h.reason hne with ⟨n, o, -, -, ho, hf⟩ | ⟨n, wr, -, -, hwr, hf⟩ | ⟨hn, -⟩
    · rw [hread n o ho] at hf
      cases hf
    · rw [hws, List.getElem?_append_left hlt] at hwr
      rw [hpre wr (List.mem_of_getElem? hwr)] at hf
      cases hf
    · exact hn hT

/-- Where nothing fails and the symbol has a trade, the whole plan is made. -/
theorem complete (h : Handled env req w r w' ws done) (hT : w.db.HasTrade req.symbol)
    (hread : ∀ n o, o.writes = false → env.fails n o = false)
    (hws : ∀ wr ∈ ws, ∀ n, env.fails n wr.op = false) : done = ws :=
  h.made.eq_of_length_le
    (h.made_of_allowed hT hread ws [] (List.append_nil _).symm hws).length_le

end Handled

/-- The request is refused at its insertion, or handled. -/
def Served (env : Env) (req : Request) (w : World) (r : Except Err Response) (w' : World) : Prop :=
  env.fails w.calls (.saveOrderBook req.toSave) = true ∧ r = .error .rejected ∧ w' = w.tick ∨
    ∃ ws done, Handled env req w r w' ws done

theorem Processed.handled {r : Except Err Response} {w' : World} {ws done : List Write}
    (h : Processed env req.order w r w' ws done) : Handled env req w r w' ws done := by
  have hplan := h.plan
  have hreason := h.reason
  rw [Request.order_matcher, Request.order_taker, Request.order_resting] at hplan
  rw [Request.order_prelude, Request.order_symbol, Request.order_type_ne] at hreason
  refine ⟨?_, hplan, h.made, h.allowed, ?_, ?_, hreason, ?_, ?_⟩
  · rw [← Request.order_submitted]
    exact h.accepted
  · rw [h.db, NewOrder.inserted, Request.order_submitted]
    rfl
  · rw [h.journal, NewOrder.inserted, Request.order_submitted]
    rfl
  · rw [← Request.order_symbol]
    exact h.stuck
  · rw [← Request.order_symbol, ← Request.order_type_ne]
    exact h.raised

/-- **What a request does alone**, in every environment and from every world. -/
theorem serve_served (env : Env) (req : Request) (w : World) :
    Served env req w (req.serve env w).1 (req.serve env w).2 := by
  rcases handleOrder_processed env req.order w with h | ⟨ws, done, h⟩
  · rw [Request.order_submitted] at h
    exact .inl h
  · exact .inr ⟨ws, done, h.handled⟩

theorem Tables.HasTrade.writeAll {db : Tables} {symbol : String} (h : db.HasTrade symbol)
    (ws : List Write) : (db.writeAll ws).HasTrade symbol := by
  induction ws generalizing db with
  | nil => exact h
  | cons wr ws ih => exact ih (h.write wr)

/-- Trades are not deleted. -/
theorem serve_hasTrade {symbol : String} (h : w.db.HasTrade symbol) :
    (req.serve env w).2.db.HasTrade symbol := by
  rcases serve_served env req w with ⟨-, -, hw⟩ | ⟨ws, done, hh⟩
  · rw [hw]
    exact h
  · rw [hh.db]
    exact (h.write _).writeAll done

/-! ## Runs -/

/-- Every request of the run meets `C` when its turn comes. -/
def StepsMeet (env : Env) (C : Request → World → Prop) : List Request → World → Prop
  | [], _ => True
  | req :: reqs, w => C req w ∧ StepsMeet env C reqs (req.serve env w).2

theorem StepsMeet.and_forall {C : Request → World → Prop} {P : Request → Prop}
    {reqs : List Request} (hC : StepsMeet env C reqs w) (hP : ∀ req ∈ reqs, P req) :
    StepsMeet env (fun req w => C req w ∧ P req) reqs w := by
  induction reqs generalizing w with
  | nil => trivial
  | cons req reqs ih =>
    rw [List.forall_mem_cons] at hP
    exact ⟨⟨hC.1, hP.1⟩, ih hC.2 hP.2⟩

/-- What every step that meets `C` preserves, a run whose steps meet `C` preserves. -/
theorem serveAll_invariant (env : Env) {C : Request → World → Prop} {I : World → Prop}
    (hstep : ∀ req w, I w → C req w → I (req.serve env w).2) {reqs : List Request} (hw : I w)
    (hC : StepsMeet env C reqs w) : I (serveAll env reqs w).2 := by
  induction reqs generalizing w with
  | nil => exact hw
  | cons req reqs ih => exact ih (hstep req w hw hC.1) hC.2

end Exchange
