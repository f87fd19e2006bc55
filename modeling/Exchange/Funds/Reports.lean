import Exchange.Funds.Conduct

/-!
# What becomes of an execution report

A message of the socket is stored as an event, and the report of a trade then becomes a
job. `reports_accounted`: each event is that of another message, and each job that was
added is that of another event, whatever else runs and whichever calls fail. The queue is
not part of the service. If it starts only jobs that were added (`StartsAdded`), though
perhaps more than once, then every job that is started is of the event of a trade.
-/

namespace Exchange.Funds

open Async Async.Proc Store Wallets Binance Settlement

/-- The message that is to be handled. -/
def Request.message : Request → Option EventInfo
  | onmessage eventInfo => some eventInfo
  | _ => none

/-- The job that is started. -/
def Request.job : Request → Option Item
  | processTrade item => some item
  | _ => none

/-- A message whose event is not stored yet. -/
def Phase.unnoted : Phase → Option EventInfo
  | heard eventInfo => some eventInfo
  | _ => none

/-- An event whose job is not added yet. -/
def Phase.unqueued : Phase → Option Item
  | noted item => some item
  | _ => none

/-- The event of a message. -/
def event (eventInfo : EventInfo) : TradeEvent :=
  ⟨eventInfo.c, BinanceController.item eventInfo, eventInfo⟩

/-! ## What a call does -/

structure SameReports (w w' : World) : Prop where
  events : w'.binance.db.trade_event = w.binance.db.trade_event
  jobs : w'.binance.trade_queue = w.binance.trade_queue

/-- The calls that store events and add jobs. -/
def Reports : Op → Prop
  | .exchange (.insertEventData _) | .exchange (.addTrade _) => True
  | _ => False

section Calls

variable {a : Answers} {w : World}

theorem answer_reports {o : Op} (ho : ¬Reports o) : SameReports w (answer a o w).2 := by
  cases o with
  | exchange o =>
    have hreply : ∀ {α : Type} (o' : Binance.Op) (r : α) (b : Binance.World),
        b.db.trade_event = w.orders.db.trade_event → b.trade_queue = w.orders.trade_queue →
        SameReports w { w with toWorld := w.withOrders (a.exchange.reply o' w.orders r b).2 } := by
      intro α o' r b hevents hjobs
      unfold Binance.Answers.reply
      split
      · exact ⟨rfl, rfl⟩
      · exact ⟨hevents, hjobs⟩
    cases o with
    | insertEventData row => exact absurd trivial ho
    | addTrade item => exact absurd trivial ho
    | newOrder order =>
      simp only [answer, Binance.World.perform]
      cases a.exchange.newOrder order <;> exact ⟨rfl, rfl⟩
    | updateWalletQuery q =>
      simp only [answer, Binance.World.perform, Binance.Tables.updateWalletQuery]
      cases Binance.updateWalletQuery w.orders.db.tbl_wallet q with
      | none => exact ⟨rfl, rfl⟩
      | some t => exact hreply _ _ _ rfl rfl
    | date => exact ⟨rfl, rfl⟩
    | uniqid => exact ⟨rfl, rfl⟩
    | ws => exact ⟨rfl, rfl⟩
    | connect => exact ⟨rfl, rfl⟩
    | avgPrice symbol => exact ⟨rfl, rfl⟩
    | account => exact ⟨rfl, rfl⟩
    | updateBinanceTrade item => exact ⟨rfl, rfl⟩
    | _ => exact hreply _ _ _ rfl rfl
  | cancelling o =>
    cases o with
    | cancelOrder symbol orderId => exact ⟨rfl, rfl⟩
    | deleteOrder orderId user_id =>
      simp only [answer, Binance.World.performCancel]
      cases a.cancelling.fails (.deleteOrder orderId user_id) <;> exact ⟨rfl, rfl⟩
  | withdrawing o => exact ⟨rfl, rfl⟩
  | settlement o => exact ⟨rfl, rfl⟩

end Calls

/-! ## The accounts -/

/-- What has become of messages and events: each list with what was lost on the way. -/
structure Reporting where
  noted : List EventInfo
  unheard : List EventInfo
  queued : List Item
  dropped : List Item

/-- The accounts of a run that started with `w₀`. -/
structure Tracked (w₀ : Solvency.World) (b : Reporting) (w : World) (phases : List Phase) :
    Prop where
  messages : Accounted Phase.unnoted phases b.noted b.unheard (w.arrived.filterMap Request.message)
  reports : ∀ eventInfo ∈ b.noted, eventInfo.e = "executionReport"
  events : w.binance.db.trade_event = w₀.binance.db.trade_event ++ b.noted.map event
  trades : Accounted Phase.unqueued phases b.queued b.dropped
    ((b.noted.filter fun eventInfo => Trades eventInfo).map BinanceController.item)
  jobs : w.binance.trade_queue = w₀.binance.trade_queue ++ b.queued

section Steps

variable {w₀ : Solvency.World} {b : Reporting} {w w' : World} {phases : List Phase} {i : Nat}
  {s s' : Phase} {a : Answers} {eventInfo : EventInfo} {item : Item}

theorem Tracked.start (w₀ : Solvency.World) : Tracked w₀ ⟨[], [], [], []⟩ (.start w₀) [] where
  messages := .nil
  reports := by simp
  events := (List.append_nil _).symm
  trades := .nil
  jobs := (List.append_nil _).symm

/-- A step that changes no account: the program holds what it held. -/
theorem Tracked.same (h : Tracked w₀ b w phases) (hw : SameReports w w')
    (harrived : w'.arrived = w.arrived) (hi : phases[i]? = some s) (hs : s'.unnoted = s.unnoted)
    (hs' : s'.unqueued = s.unqueued) : Tracked w₀ b w' (phases.set i s') where
  messages := by
    rw [harrived]
    exact h.messages.same hi hs
  reports := h.reports
  events := hw.events.trans h.events
  trades := h.trades.same hi hs'
  jobs := hw.jobs.trans h.jobs

/-- The event of a message is not stored. -/
theorem Tracked.miss (h : Tracked w₀ b w phases) (hi : phases[i]? = some (.heard eventInfo))
    (hw : SameReports w w') (harrived : w'.arrived = w.arrived) :
    Tracked w₀ { b with unheard := b.unheard ++ [eventInfo] } w' (phases.set i .closed) where
  messages := by
    rw [harrived]
    exact h.messages.lose hi rfl rfl
  reports := h.reports
  events := hw.events.trans h.events
  trades := h.trades.same hi rfl
  jobs := hw.jobs.trans h.jobs

/-- The event of a message is stored. -/
theorem Tracked.note (h : Tracked w₀ b w phases) (hi : phases[i]? = some (.heard eventInfo))
    (hreport : eventInfo.e = "executionReport")
    (hevents : w'.binance.db.trade_event = w.binance.db.trade_event ++ [event eventInfo])
    (hjobs : w'.binance.trade_queue = w.binance.trade_queue) (harrived : w'.arrived = w.arrived) :
    Tracked w₀ { b with noted := b.noted ++ [eventInfo] } w'
      (phases.set i (Phase.note (event eventInfo) (.ok ()))) where
  messages := by
    rw [harrived]
    refine h.messages.pass hi rfl ?_
    show Phase.unnoted (if _ then _ else _) = none
    split <;> rfl
  reports := List.forall_mem_append.mpr ⟨h.reports, List.forall_mem_singleton.mpr hreport⟩
  events := by
    rw [hevents, h.events, List.map_append, List.append_assoc]
    rfl
  trades := by
    rw [List.filter_append, List.map_append]
    by_cases htrades : Trades eventInfo
    · -- its job is to be added
      have hphase : Phase.note (event eventInfo) (.ok ()) =
          .noted (BinanceController.item eventInfo) :=
        if_pos htrades
      have hnew : [eventInfo].filter (fun eventInfo => Trades eventInfo) = [eventInfo] := by
        simp [htrades]
      rw [hphase, hnew]
      exact h.trades.take hi rfl rfl
    · have hphase : Phase.note (event eventInfo) (.ok ()) = .closed := if_neg htrades
      have hnew : [eventInfo].filter (fun eventInfo => Trades eventInfo) = [] := by
        simp [htrades]
      rw [hphase, hnew, List.map_nil, List.append_nil]
      exact h.trades.same hi rfl
  jobs := hjobs.trans h.jobs

/-- The job of an event is not added. -/
theorem Tracked.drop (h : Tracked w₀ b w phases) (hi : phases[i]? = some (.noted item))
    (hw : SameReports w w') (harrived : w'.arrived = w.arrived) :
    Tracked w₀ { b with dropped := b.dropped ++ [item] } w' (phases.set i .closed) where
  messages := by
    rw [harrived]
    exact h.messages.same hi rfl
  reports := h.reports
  events := hw.events.trans h.events
  trades := h.trades.lose hi rfl rfl
  jobs := hw.jobs.trans h.jobs

/-- The job of an event is added. -/
theorem Tracked.queue (h : Tracked w₀ b w phases) (hi : phases[i]? = some (.noted item))
    (hevents : w'.binance.db.trade_event = w.binance.db.trade_event)
    (hjobs : w'.binance.trade_queue = w.binance.trade_queue ++ [item])
    (harrived : w'.arrived = w.arrived) :
    Tracked w₀ { b with queued := b.queued ++ [item] } w' (phases.set i .closed) where
  messages := by
    rw [harrived]
    exact h.messages.same hi rfl
  reports := h.reports
  events := hevents.trans h.events
  trades := h.trades.pass hi rfl rfl
  jobs := by
    rw [hjobs, h.jobs, List.append_assoc]

theorem Tracked.insertEventData (h : Tracked w₀ b w phases) {row : TradeEvent}
    (hi : phases[i]? = some (.heard eventInfo)) (hrow : Notes eventInfo row) (a : Answers) :
    ∃ b', Tracked w₀ b' (answer a (.exchange (.insertEventData row)) w).2
      (phases.set i (next (.heard eventInfo) (.exchange (.insertEventData row))
        (answer a (.exchange (.insertEventData row)) w).1)) := by
  obtain ⟨hreport, rfl⟩ := hrow
  simp only [answer, Binance.World.perform, Binance.Answers.reply, next]
  cases a.exchange.fails (.insertEventData _) with
  | some e => exact ⟨_, h.miss hi ⟨rfl, rfl⟩ rfl⟩
  | none => exact ⟨_, h.note hi hreport rfl rfl rfl⟩

theorem Tracked.addTrade (h : Tracked w₀ b w phases) (hi : phases[i]? = some (.noted item))
    (a : Answers) :
    ∃ b', Tracked w₀ b' (answer a (.exchange (.addTrade item)) w).2 (phases.set i .closed) := by
  simp only [answer, Binance.World.perform, Binance.Answers.reply]
  cases a.exchange.fails (.addTrade item) with
  | some e => exact ⟨_, h.drop hi ⟨rfl, rfl⟩ rfl⟩
  | none => exact ⟨_, h.queue hi rfl rfl rfl⟩

/-- The phase after a call that is none of these holds what it held. -/
theorem next_unnoted {o : Op} (r : Except Empty o.Res) (hmay : may s o) (ho : ¬Reports o) :
    (next s o r).unnoted = s.unnoted ∧ (next s o r).unqueued = s.unqueued := by
  have hmove := next_move r hmay
  generalize next s o r = s' at hmove
  cases hmove <;> first | exact ⟨rfl, rfl⟩ | exact absurd trivial ho

/-- Whatever is called and answered, the accounts stay right. -/
theorem Tracked.answer (h : Tracked w₀ b w phases) (hi : phases[i]? = some s) {o : Op}
    (hmay : may s o) (a : Answers) :
    ∃ b', Tracked w₀ b' (Funds.answer a o w).2
      (phases.set i (next s o (Funds.answer a o w).1)) := by
  by_cases ho : Reports o
  · cases o with
    | exchange o =>
      cases o with
      | insertEventData row =>
        obtain ⟨eventInfo, rfl, hrow⟩ := hmay
        exact h.insertEventData hi hrow a
      | addTrade item =>
        cases hmay
        exact h.addTrade hi a
      | _ => exact ho.elim
    | cancelling o => exact ho.elim
    | withdrawing o => exact ho.elim
    | settlement o => exact ho.elim
  · obtain ⟨hunnoted, hunqueued⟩ := next_unnoted (Funds.answer a o w).1 hmay ho
    exact ⟨b, h.same (answer_reports ho) (answer_arrived a o w) hi hunnoted hunqueued⟩

/-- A request arrives. -/
theorem Tracked.happen (h : Tracked w₀ b w phases) {c : Request} {started : List Thread}
    (hc : Arrives c w w' started) : Tracked w₀ b w' (phases ++ [c.phase]) where
  messages := by
    have hphase : [c].filterMap Request.message = c.phase.unnoted.toList := by
      cases c <;> rfl
    rw [hc.arrived, List.filterMap_append, hphase]
    exact h.messages.start c.phase
  reports := h.reports
  events := by
    rw [hc.binance]
    exact h.events
  trades := by
    have hphase : c.phase.unqueued = none := by cases c <;> rfl
    simpa [hphase] using h.trades.start c.phase
  jobs := by
    rw [hc.binance]
    exact h.jobs

end Steps

/-! ## Runs -/

/-- The queue starts a job after it was added, perhaps more than once. -/
def StartsAdded (s : State) (t : Turn) : Prop :=
  ∀ c item, t = .happen c → c.job = some item → item ∈ s.world.binance.trade_queue

/-- Every job that was started was added. -/
def World.Started (w : World) : Prop :=
  ∀ item ∈ w.arrived.filterMap Request.job, item ∈ w.binance.trade_queue

theorem answer_queue (a : Answers) (o : Op) (w : World) :
    w.binance.trade_queue <+: (answer a o w).2.binance.trade_queue := by
  by_cases ho : Reports o
  · rcases o with o | o | o | o
    · cases o with
      | insertEventData row =>
        simp only [answer, Binance.World.perform, Binance.Answers.reply]
        cases a.exchange.fails (.insertEventData row) <;> exact List.prefix_refl _
      | addTrade item =>
        simp only [answer, Binance.World.perform, Binance.Answers.reply]
        cases a.exchange.fails (.addTrade item) with
        | some e => exact List.prefix_refl _
        | none => exact List.prefix_append ..
      | _ => exact ho.elim
    all_goals exact ho.elim
  · rw [(answer_reports ho).jobs]

theorem Steps.started {s s' : State} {t : Turn} (hstep : loop.Steps s t s') (h : s.world.Started)
    (hok : StartsAdded s t) : s'.world.Started := by
  cases hstep with
  | idle => exact h
  | @happen c w started hc =>
    have harrives := happen_arrives hc
    intro item hitem
    rw [harrives.arrived, List.filterMap_append, List.mem_append] at hitem
    rw [harrives.binance]
    rcases hitem with hitem | hitem
    · exact h item hitem
    · obtain ⟨c', hc', hjob⟩ := List.mem_filterMap.mp hitem
      exact hok c item rfl (List.mem_singleton.mp hc' ▸ hjob)
  | @perform i a o k r w hi ho hanswer =>
    obtain rfl : (answer a o s.world).2 = w := congrArg Prod.snd (Option.some.inj hanswer)
    intro item hitem
    rw [answer_arrived] at hitem
    exact (answer_queue a o s.world).subset (h item hitem)
  | resume hi ho => cases ho

/-- Messages, events and jobs agree: each event is that of another report, each added job
is that of the event of another trade, and a job that is started is of a trade, or was
there before. -/
structure HandledOnce (w₀ : Solvency.World) (noted : List EventInfo) (queued : List Item)
    (w : World) : Prop where
  messages : noted.Subperm (w.arrived.filterMap Request.message)
  reports : ∀ eventInfo ∈ noted, eventInfo.e = "executionReport"
  events : w.binance.db.trade_event = w₀.binance.db.trade_event ++ noted.map event
  trades : queued.Subperm
    ((noted.filter fun eventInfo => Trades eventInfo).map BinanceController.item)
  jobs : w.binance.trade_queue = w₀.binance.trade_queue ++ queued
  started : ∀ item ∈ w.arrived.filterMap Request.job, item ∈ w₀.binance.trade_queue ∨
    ∃ eventInfo ∈ noted, Trades eventInfo ∧ BinanceController.item eventInfo = item

/-- **Execution reports are handled once**, in every state of every run, in whatever order
the calls are answered, and whichever fail, if the queue starts only jobs that were added. -/
theorem reports_accounted (w₀ : Solvency.World) (turns : List Turn)
    (hturns : loop.Meets StartsAdded (State.start w₀) turns) :
    ∃ noted queued, HandledOnce w₀ noted queued (loop.run (State.start w₀) turns).world := by
  have hrun : ∃ phases, Phased protocol Honest (loop.run (State.start w₀) turns).threads phases ∧
      ∃ b, Tracked w₀ b (loop.run (State.start w₀) turns).world phases := by
    refine run_any (fun w phases => ∃ b, Tracked w₀ b w phases) turns .nil ?_ ?_ ?_
    · exact ⟨_, .start w₀⟩
    · rintro c w w' started phases hc ⟨b, hb⟩
      exact ⟨b, hb.happen hc⟩
    · rintro a o w phases i s ⟨b, hb⟩ hi hmay
      exact hb.answer hi hmay a
  obtain ⟨phases, -, b, hb⟩ := hrun
  have hstarted : (loop.run (State.start w₀) turns).world.Started :=
    hturns.along loop Steps.started (List.forall_mem_nil _)
  refine ⟨b.noted, b.queued, hb.messages.subperm, hb.reports, hb.events, hb.trades.subperm,
    hb.jobs, fun item hitem => ?_⟩
  have hqueue := hstarted item hitem
  rw [hb.jobs, List.mem_append] at hqueue
  refine hqueue.imp id fun hqueued => ?_
  obtain ⟨eventInfo, hmem, hitem⟩ := List.mem_map.mp (hb.trades.subperm.subset hqueued)
  obtain ⟨hnoted, htrades⟩ := List.mem_filter.mp hmem
  exact ⟨eventInfo, hnoted, of_decide_eq_true htrades, hitem⟩

/-- The report of a trade is handled, and its job is started twice. -/
def startedTwice : List Turn :=
  [.happen (.onmessage (.completes 7)), .perform 0 buying, .perform 0 buying,
    .happen (.processTrade (BinanceController.item (.completes 7))),
    .happen (.processTrade (BinanceController.item (.completes 7)))]

theorem reports_started_twice : ∃ noted queued, HandledOnce (.of .funded) noted queued
    (loop.run (State.start (.of .funded)) startedTwice).world := by
  apply reports_accounted
  refine ⟨?_, ?_, ?_, ?_, ?_, trivial⟩
  · rintro c item ⟨⟩ ⟨⟩
  · rintro c item ⟨⟩
  · rintro c item ⟨⟩
  · rintro c item ⟨⟩ ⟨⟩
    decide +kernel
  · rintro c item ⟨⟩ ⟨⟩
    decide +kernel

end Exchange.Funds
