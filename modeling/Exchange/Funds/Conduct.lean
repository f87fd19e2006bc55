import Exchange.Funds.System

/-!
# The programs keep to the protocol

Along the text of each program, every call is one that `protocol` allows in the phase
that the answers have led to (`request_phased`). So an invariant of the tables need only
be kept by the calls that are allowed (`run_keeps`), and so need a relation between an
earlier and a later state (`run_relates`).
-/

namespace Exchange.Funds

open Async Async.Proc Store Wallets Binance Settlement

/-! ## Orders at the exchange -/

section Exchange

/-- A call that is neither an order nor a write that follows one or a report. -/
def Idle : Binance.Op → Prop
  | .newOrder _ | .insertInBinanceTrade _ | .updateWalletQuery _ | .updateBinanceTrade _
  | .insertEventData _ | .addTrade _ => False
  | _ => True

def exchange : Protocol Binance.Op Binance.Op.Res Binance.Err Phase where
  may s o := may s (.exchange o)
  next s o r := next s (.exchange o) (.ok r)

/-- The answers to the calls at the exchange. -/
abbrev HonestAt (o : Binance.Op) (r : Except Binance.Err o.Res) : Prop :=
  Honest (.exchange o) (.ok r)

variable {α β : Type} {s : Phase}

theorem idle_may {o : Binance.Op} (h : Idle o) : exchange.may s o := by
  cases o <;> trivial

theorem idle_next {o : Binance.Op} (r : Except Binance.Err o.Res) (h : Idle o) :
    exchange.next s o r = s := by
  cases o <;> first | rfl | exact h.elim

/-- A part of a program at the exchange that only looks. -/
theorem idle_quiet {p : Binance.Prog α} {f : α → Binance.Prog β} (hp : Calls Idle p)
    (hf : ∀ a, Keeps exchange HonestAt (f a) (fun _ _ => True) s) :
    Keeps exchange HonestAt (p >>= f) (fun _ _ => True) s :=
  Keeps.quiet hp (fun _ => idle_may) (fun _ => idle_next) (fun _ => trivial) hf

theorem idle_call {o : Binance.Op} {f : o.Res → Binance.Prog β} (ho : Idle o)
    (hf : ∀ a, Keeps exchange HonestAt (f a) (fun _ _ => True) s) :
    Keeps exchange HonestAt (Binance.call o >>= f) (fun _ _ => True) s :=
  idle_quiet (Calls.call ho) hf

theorem idle_keeps {p : Binance.Prog α} (hp : Calls Idle p) :
    Keeps exchange HonestAt p (fun _ _ => True) s :=
  Keeps.of_calls hp (fun _ => idle_may) (fun _ => idle_next) fun _ => trivial

theorem property_calls {P : Binance.Op → Prop} (v : Option α) :
    Calls P (BinanceController.property v) := by
  cases v <;> trivial

theorem listen_idle : Calls Idle BinanceController.listen := by
  unfold BinanceController.listen
  apply Calls.bind (Calls.call trivial)
  intro g
  apply Calls.bind (property_calls g)
  intro last_time
  apply Calls.bind (Calls.call trivial)
  intro now
  apply Calls.bind (Calls.call trivial)
  intro ws
  split
  · apply Calls.bind
    · apply Calls.tryCatch
      · apply Calls.bind (Calls.call trivial)
        intro _
        apply Calls.bind (Calls.call trivial)
        intro _
        exact Calls.bind (Calls.call trivial) fun _ => trivial
      · exact fun _ => trivial
    · intro success
      apply Calls.bind (Calls.call trivial)
      intro ws
      apply Calls.bind (property_calls ws)
      intro readyState
      split
      · exact Calls.tryCatch (Calls.bind (Calls.call trivial) fun _ => trivial) fun _ => trivial
      · trivial
  · trivial

theorem currentAvgPrice_idle (symbol : String) :
    Calls Idle (BinanceController.currentAvgPrice symbol) :=
  Calls.tryCatch (Calls.bind (Calls.call trivial) fun _ => trivial) fun _ => trivial

theorem checkAdminWalletBalance_idle (main_currency secondary_currency side : String)
    (qty price : Number) (avgPrice : ℚ) (type : String) :
    Calls Idle (BinanceController.checkAdminWalletBalance main_currency secondary_currency side qty
      price avgPrice type) := by
  unfold BinanceController.checkAdminWalletBalance
  apply Calls.bind (Calls.call trivial)
  intro balances
  apply Calls.bind (property_calls _)
  intro main
  apply Calls.bind (property_calls _)
  intro secondary
  split
  · split <;> split <;> trivial
  · split <;> trivial

/-- After an order: its row, and the statement that settles it. -/
theorem record_keeps (req : PlaceOrder) (o : OrderResponse) :
    Keeps exchange HonestAt (BinanceController.record req.userId o) (fun _ _ => True)
      (.ordered req o) := by
  unfold BinanceController.record
  refine idle_call trivial fun now => ?_
  cases hfill : o.fills.head? with
  | none => trivial
  | some fill =>
    apply Keeps.bind
    show Keeps exchange HonestAt (Proc.call _ >>= _) _ _
    apply Keeps.bind
    apply Keeps.call
    · exact ⟨req, o, rfl, now, fill, hfill, rfl⟩
    rintro (e | ⟨⟩) -
    · trivial
    dsimp only
    split
    · -- the row is settled
      rename_i hstatus
      apply Keeps.bind
      apply Keeps.call
      · exact ⟨_, rfl, hstatus, rfl⟩
      rintro (e | ⟨⟩) -
      · trivial
      · exact idle_keeps (Calls.bind (Calls.call trivial) fun _ => trivial)
    · exact idle_keeps (Calls.bind (Calls.call trivial) fun _ => trivial)

theorem placeOrder_keeps (req : PlaceOrder) :
    Keeps exchange HonestAt (BinanceController.placeOrder req) (fun _ _ => True)
      (.placing req) := by
  unfold BinanceController.placeOrder
  apply idle_quiet listen_idle
  rintro (_ | refusal)
  · refine idle_call trivial fun newClientOrderId => ?_
    apply idle_quiet (currentAvgPrice_idle _)
    rintro (err | avgPrice)
    · trivial
    apply idle_quiet (checkAdminWalletBalance_idle _ _ _ _ _ _ _)
    intro res
    split
    · trivial
    split
    · trivial
    apply Keeps.tryCatch
    apply Keeps.bind
    apply Keeps.call
    · exact ⟨req, rfl⟩
    rintro (e | o) -
    · trivial
    · apply (record_keeps req o).mono
      rintro (e | a) s -
      · trivial
      · trivial
  · trivial

/-- After the event of a report: the job, if it is of a trade. -/
theorem onmessage_keeps (eventInfo : EventInfo) :
    Keeps exchange HonestAt (BinanceController.onmessage eventInfo) (fun _ _ => True)
      (.heard eventInfo) := by
  unfold BinanceController.onmessage
  split
  · rename_i he
    have hnotes : Notes eventInfo
        ⟨(BinanceController.item eventInfo).clientId, BinanceController.item eventInfo,
          eventInfo⟩ :=
      ⟨he, rfl⟩
    dsimp only
    split
    · rename_i htrades
      apply Keeps.bind
      apply Keeps.call
      · exact ⟨eventInfo, rfl, hnotes⟩
      rintro (e | ⟨⟩) -
      · trivial
      · apply Keeps.call
        · exact if_pos htrades
        · exact fun _ _ => trivial
    · apply Keeps.call
      · exact ⟨eventInfo, rfl, hnotes⟩
      · exact fun _ _ => trivial
  · trivial

/-- A job ends where the update of the trade is refused. -/
theorem processTrade_keeps (row : Item) :
    Keeps exchange HonestAt (Binance.processTrade row) (fun _ _ => True) s := by
  unfold Binance.processTrade
  refine idle_call trivial ?_
  rintro (_ | order)
  · trivial
  dsimp only
  split
  · apply Keeps.bind
    apply Keeps.call trivial
    rintro r ⟨e, rfl⟩
    trivial
  · trivial

end Exchange

/-! ## Cancellations -/

section Cancelling

def cancelling : Protocol CancelOp CancelOp.Res Binance.Err Phase where
  may s o := may s (.cancelling o)
  next s o r := next s (.cancelling o) (.ok r)

/-- The rows are deleted after the exchange has cancelled. -/
theorem cancelOrder_keeps (req : CancelOrder) :
    Keeps cancelling (fun _ _ => True) (BinanceController.cancelOrder req) (fun _ _ => True)
      (.cancelling req) := by
  unfold BinanceController.cancelOrder
  apply Keeps.tryCatch
  apply Keeps.bind
  apply Keeps.call
  · exact ⟨req, rfl, rfl, rfl⟩
  rintro (e | data) -
  · trivial
  apply Keeps.bind
  apply Keeps.call
  · exact ⟨req, rfl, rfl, rfl⟩
  rintro (e | ⟨⟩) -
  · trivial
  · trivial

end Cancelling

/-! ## Withdrawals -/

section Withdrawing

/-- A call that neither transfers nor stores a withdrawal. -/
def Looks : Wallets.Op → Prop
  | .transfer _ | .saveWithdrawal _ => False
  | _ => True

def withdrawing : Protocol Wallets.Op Wallets.Op.Res Wallets.Err Phase where
  may s o := may s (.withdrawing o)
  next s o r := next s (.withdrawing o) (.ok r)

/-- Nothing is known of the answers to the calls of a withdrawal. -/
abbrev AnyAnswer (o : Wallets.Op) (_ : Except Wallets.Err o.Res) : Prop := True

variable {α β : Type} {s : Phase}

theorem looks_may {o : Wallets.Op} (h : Looks o) : withdrawing.may s o := by
  cases o <;> trivial

theorem looks_next {o : Wallets.Op} (r : Except Wallets.Err o.Res) (h : Looks o) :
    withdrawing.next s o r = s := by
  cases o <;> first | rfl | exact h.elim

theorem looks_call {o : Wallets.Op} {f : o.Res → Wallets.Prog β}
    {Q : Except Wallets.Err β → Phase → Prop} (ho : Looks o) (he : ∀ e, Q (.error e) s)
    (hf : ∀ a, Keeps withdrawing AnyAnswer (f a) Q s) :
    Keeps withdrawing AnyAnswer (WalletController.call o >>= f) Q s :=
  Keeps.quiet (Calls.call ho) (fun _ => looks_may) (fun _ => looks_next) he hf

/-- The row of a withdrawal is stored once, and then the cron is started. -/
theorem saveWithdrawal_keeps {obj : NewWithdrawal} {pay_with_admin : YesNo}
    {f : Unit → Wallets.Prog β} {Q : Except Wallets.Err β → Phase → Prop}
    (hmay : may s (.withdrawing (.saveWithdrawal obj)))
    (hf : Keeps withdrawing AnyAnswer (f ()) Q .closed) :
    Keeps withdrawing AnyAnswer
      (WalletController.detached (WalletController.saveWithdrawal obj pay_with_admin) >>= f)
      Q s := by
  apply Keeps.bind
  apply Keeps.tryCatch
  apply Keeps.bind
  apply Keeps.call hmay
  rintro (e | ⟨⟩) -
  · exact hf
  dsimp only
  split
  · apply Keeps.call trivial
    rintro (e | ⟨⟩) -
    · exact hf
    · exact hf
  · exact hf

theorem withdrawal_keeps (decimals : Decimals) (dto : WithdrawalDto) :
    Keeps withdrawing AnyAnswer (WalletController.withdrawal decimals dto) (fun _ _ => True)
      (.asking dto) := by
  have hcatch : ∀ (error : Wallets.Err) (s : Phase), Keeps withdrawing AnyAnswer
      (do
        WalletController.call (.saveError error "Withdrawal function")
        Pure.pure (⟨false, "Failed to accept withdrawal at the moment,Try after sometime",
          .undefined, .undefined⟩ : WithdrawlResponse)) (fun _ _ => True) s :=
    fun error s => looks_call trivial (fun _ => trivial) fun _ => trivial
  unfold WalletController.withdrawal
  apply Keeps.tryCatch
  refine looks_call trivial (fun e => hcatch e _) fun nw_fees => ?_
  refine looks_call trivial (fun e => hcatch e _) fun myWallet => ?_
  cases myWallet with
  | none => exact hcatch _ _
  | some myWallet =>
    show Keeps withdrawing AnyAnswer (WalletController.property nw_fees >>= _) _ _
    cases nw_fees with
    | none => exact hcatch _ _
    | some nw_fees =>
      dsimp only [WalletController.property]
      show Keeps withdrawing AnyAnswer (Proc.bind (.pure nw_fees) _) _ _
      dsimp only [Proc.bind]
      cases WalletController.refuseWithdrawal (decimals.plus dto.amount nw_fees.fees)
          (decimals.column 8 (myWallet.balance dto.coin)) with
      | some refused => trivial
      | none =>
      refine looks_call trivial (fun e => hcatch e _) fun tokenAdressRow => ?_
      cases WalletController.truthy (tokenAdressRow.map TokenAddressBalance.address) with
      | some from_address =>
        show Keeps withdrawing AnyAnswer (WalletController.property
          (WalletController.transferFor dto myWallet.privateKey nw_fees.fees) >>= _) _ _
        cases ht : WalletController.transferFor dto myWallet.privateKey nw_fees.fees with
        | none => exact hcatch _ _
        | some t =>
          show Keeps withdrawing AnyAnswer (Proc.call (.transfer t) >>= _) _ _
          apply Keeps.bind
          apply Keeps.call
          · exact ⟨dto, rfl, _, _, ht⟩
          rintro (e | result) -
          · exact hcatch e _
          dsimp only
          split
          · -- the transfer has succeeded
            rename_i hresult
            refine saveWithdrawal_keeps
              (.inr ⟨dto, t, .ok result, rfl, ⟨rfl, rfl, rfl, rfl, rfl⟩, ?_⟩) trivial
            exact ⟨⟨result, rfl, hresult.2, hresult.1, rfl⟩, rfl⟩
          · trivial
      | none =>
        exact saveWithdrawal_keeps (.inl ⟨dto, rfl, ⟨rfl, rfl, rfl, rfl, rfl⟩, ⟨rfl, rfl, rfl⟩⟩)
          trivial

end Withdrawing

/-! ## The webhook and the jobs -/

section Settling

def settling : Protocol Settlement.Op Settlement.Op.Res Wallets.Err Phase where
  may s o := may s (.settlement o)
  next s o r := next s (.settlement o) (.ok r)

theorem updateWallet_decides {v : PartialDeposit} (hv : v.amount = none) (toDo : String) :
    Calls Decides
      (updateWallet v.user_id v.amount v.to_address v.coin v.network toDo) := by
  unfold updateWallet
  rw [hv]
  split
  · exact Calls.call (.inr rfl)
  · exact Calls.call (.inr rfl)

theorem hook_decides (obj : HookObj) : Calls Decides (Settlement.hook obj) := by
  unfold Settlement.hook
  split
  · apply Calls.tryCatch
    · apply Calls.bind (Calls.call nofun)
      intro _
      split
      · apply Calls.bind (Calls.call trivial)
        rintro (_ | with_info)
        · trivial
        · -- the wallets have no such column
          exact Calls.call (.inl (by decide +kernel))
      · trivial
    · exact fun _ => trivial
  · trivial

theorem processWithdrawalRow_decides (v : PendingWithdrawal) :
    Calls Decides (processWithdrawalRow v) := by
  unfold processWithdrawalRow
  apply Calls.tryCatch
  · apply Calls.bind (Calls.call trivial)
    intro receipt
    split
    · trivial
    · trivial
    · exact Calls.call trivial
    · apply Calls.call
      show ite _ _ _ ≠ Status.Pending
      split <;> decide
  · exact fun _ => Calls.call trivial

theorem processDepositRow_decides (v : PendingDeposit) :
    Calls Decides (processDepositRow v.row) := by
  have hv : v.row.amount = none := rfl
  unfold processDepositRow
  apply Calls.tryCatch
  · apply Calls.bind (Calls.call trivial)
    intro transaction
    have hold : Calls Decides (deleteOld v.row) := by
      unfold deleteOld
      apply Calls.bind (Calls.call trivial)
      intro now
      split
      · exact Calls.call trivial
      · trivial
    split
    · exact hold
    · exact hold
    · exact Calls.call trivial
    · unfold updateDepositlWithStatus
      apply Calls.bind
      · apply Calls.call
        show ite _ _ _ ≠ Status.Pending
        split <;> decide
      intro _
      split
      · apply Calls.bind (updateWallet_decides hv "inc")
        intro _
        unfold saveTokenAddressBalance
        apply Calls.bind (Calls.call trivial)
        intro _
        split
        · exact Calls.call trivial
        · exact Calls.call trivial
      · trivial
  · exact fun _ => Calls.call trivial

end Settling

def Request.phase : Request → Phase
  | placeOrder req => .placing req
  | cancelOrder req => .cancelling req
  | onmessage eventInfo => .heard eventInfo
  | withdrawal dto => .asking dto
  | _ => .closed

/-- Every program keeps to the protocol. -/
theorem request_phased (c : Request) : Phased protocol Honest [c.program] [c.phase] := by
  refine .cons ?_ .nil
  have hexchange : ∀ {α : Type} {p : Binance.Prog α} {s : Phase},
      Keeps exchange HonestAt p (fun _ _ => True) s →
      Keeps protocol Honest (p.detach Op.exchange fun _ r => r) (fun _ _ => True) s := by
    intro α p s hp
    refine Keeps.detach ?_ ?_ ?_ hp
    · exact fun _ _ h => h
    · exact fun _ _ h => h
    · exact fun _ _ _ => rfl
  have hsettling : ∀ {α : Type} {p : Settlement.Prog α}, Calls Decides p →
      Keeps protocol Honest (p.detach Op.settlement fun _ r => r) (fun _ _ => True) .closed := by
    intro α p hp
    have hkeeps : Keeps settling (fun _ _ => True) p (fun _ _ => True) .closed :=
      Keeps.of_calls hp (fun _ h => h) (fun _ _ _ => rfl) fun _ => trivial
    refine Keeps.detach ?_ ?_ ?_ hkeeps
    · exact fun _ _ h => h
    · exact fun _ _ _ => trivial
    · exact fun _ _ _ => rfl
  cases c with
  | placeOrder req => exact hexchange (placeOrder_keeps req)
  | cancelOrder req =>
    refine Keeps.detach ?_ ?_ ?_ (cancelOrder_keeps req)
    · exact fun _ _ h => h
    · exact fun _ _ _ => trivial
    · exact fun _ _ _ => rfl
  | onmessage eventInfo => exact hexchange (onmessage_keeps eventInfo)
  | processTrade item => exact hexchange (processTrade_keeps item)
  | withdrawal dto =>
    refine Keeps.detach ?_ ?_ ?_ (withdrawal_keeps .texts dto)
    · exact fun _ _ h => h
    · exact fun _ _ _ => trivial
    · exact fun _ _ _ => rfl
  | hook obj => exact hsettling (hook_decides obj)
  | processWithdrawal v => exact hsettling (processWithdrawalRow_decides v)
  | processDeposit v => exact hsettling (processDepositRow_decides v)

/-! ## Runs -/

/-- **The induction over a run**: what every arrival and every allowed call keeps. -/
theorem run_keeps {ok : Answers → Prop} (Inv : World → List Phase → Prop) {s : State}
    {phases : List Phase} {turns : List Turn} (hs : Phased protocol Honest s.threads phases)
    (hstart : Inv s.world phases)
    (hhappen : ∀ c w w' started phases, Arrives c w w' started → Inv w phases →
      Inv w' (phases ++ [c.phase]))
    (hcall : ∀ a o w phases i s, ok a → Inv w phases → phases[i]? = some s → may s o →
      Inv (answer a o w).2 (phases.set i (next s o (answer a o w).1)))
    (hturns : ∀ t ∈ turns, ∀ i a, t = .perform i a → ok a) :
    ∃ phases', Phased protocol Honest (loop.run s turns).threads phases' ∧
      Inv (loop.run s turns).world phases' := by
  apply loop.sessions (π := protocol) (A := Honest) Inv ?_ ?_ ?_ hturns hs hstart
  · intro c w w' started phases h hInv
    have harrives := happen_arrives h
    rw [harrives.started]
    exact ⟨[c.phase], request_phased c, hhappen c w w' started phases harrives hInv⟩
  · intro a o w r w' phases i s ha h hInv hi hmay
    have hanswer : answer a o w = (r, w') := Option.some.inj h
    obtain rfl : (answer a o w).1 = r := congrArg Prod.fst hanswer
    obtain rfl : (answer a o w).2 = w' := congrArg Prod.snd hanswer
    exact ⟨answer_honest a o w, hcall a o w phases i s ha hInv hi hmay⟩
  · -- every call leaves the process
    intro o w phases i s ho
    cases ho

/-- The same, whatever is answered. -/
theorem run_any (Inv : World → List Phase → Prop) {s : State} {phases : List Phase}
    (turns : List Turn) (hs : Phased protocol Honest s.threads phases) (hstart : Inv s.world phases)
    (hhappen : ∀ c w w' started phases, Arrives c w w' started → Inv w phases →
      Inv w' (phases ++ [c.phase]))
    (hcall : ∀ a o w phases i s, Inv w phases → phases[i]? = some s → may s o →
      Inv (answer a o w).2 (phases.set i (next s o (answer a o w).1))) :
    ∃ phases', Phased protocol Honest (loop.run s turns).threads phases' ∧
      Inv (loop.run s turns).world phases' := by
  have hany : ∀ t ∈ turns, ∀ i (a : Answers), t = .perform i a → True :=
    fun _ _ _ _ _ => trivial
  exact run_keeps Inv hs hstart hhappen (fun a o w phases i s _ => hcall a o w phases i s) hany

/-- What every arrival and every allowed call does, the rest of a run does. -/
theorem run_relates {R : World → World → Prop} (refl : ∀ w, R w w)
    (trans : ∀ w w' w'', R w w' → R w' w'' → R w w'')
    (hhappen : ∀ c w w' started, Arrives c w w' started → R w w')
    (hcall : ∀ a o w s, may s o → R w (answer a o w).2) (w₀ : Solvency.World)
    (turns turns' : List Turn) :
    R (loop.run (State.start w₀) turns).world
      (loop.run (State.start w₀) (turns ++ turns')).world := by
  obtain ⟨phases, hphases, -⟩ := run_any (fun _ _ => True) (s := State.start w₀) turns .nil trivial
    (fun _ _ _ _ _ _ _ => trivial) (fun _ _ _ _ _ _ _ _ _ => trivial)
  have hrun : loop.run (State.start w₀) (turns ++ turns') =
      loop.run (loop.run (State.start w₀) turns) turns' :=
    List.foldl_append
  rw [hrun]
  generalize loop.run (State.start w₀) turns = s at hphases
  obtain ⟨-, -, hR⟩ := run_any (fun w _ => R s.world w) turns' hphases (refl _)
    (fun c w w' started _ h hw => trans _ _ _ hw (hhappen c w w' started h))
    (fun a o w _ _ s' hw _ hmay => trans _ _ _ hw (hcall a o w s' hmay))
  exact hR

end Exchange.Funds
