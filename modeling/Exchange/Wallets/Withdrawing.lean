import Exchange.Wallets.Controller

/-!
# What a withdrawal request does

`withdrawal_ended`: a request either makes the one transfer that the tables and
the database allow it (`transferOf`) and answers with its result, or it answers
without a hash. It stores at most one row, and after a transfer only
`withdrawalOf` its result. `withdrawal_logged` says the same with the calls of
transfer functions recorded.
-/

namespace Exchange.Wallets

open Async Proc Text WalletController

/-- The check refuses a request. -/
def refuses (decimals : Decimals) (dto : WithdrawalDto) (nw_fees : NetworkFee)
    (myWallet : Wallet) : Bool :=
  (refuseWithdrawal (decimals.plus dto.amount nw_fees.fees)
    (decimals.column 8 (myWallet.balance dto.coin))).isSome

theorem hash_of_refused {amount balance : Value} {refused : WithdrawlResponse}
    (h : refuseWithdrawal amount balance = some refused) : refused.hash = .undefined := by
  unfold refuseWithdrawal at h
  split at h
  · cases h
    rfl
  · cases h

/-- The transfer that a request makes, and the address it is made from: the
database answers, the check lets the request through, and there are a source
address and a transfer function. -/
def transferOf (decimals : Decimals) (a : Answers) (dto : WithdrawalDto) (w : World) :
    Option (String × Transfer) :=
  match w.db.getNetworkFees dto.network, w.db.searchAddress dto.user_id dto.network with
  | some nw_fees, some myWallet =>
      let total := decimals.plus dto.amount nw_fees.fees
      if a.fails (.getNetworkFees dto.network) ||
          a.fails (.searchAddress dto.user_id dto.network) ||
          refuses decimals dto nw_fees myWallet ||
          a.fails (.findDbWithdrawalSourceAddress dto.coin dto.network total) then none
      else
        (truthy ((w.db.findDbWithdrawalSourceAddress dto.coin dto.network total).map
          TokenAddressBalance.address)).bind fun from_address =>
        (transferFor dto myWallet.privateKey nw_fees.fees).map fun t => (from_address, t)
  | _, _ => none

/-- What a transfer is made with. -/
theorem transferOf_some {decimals : Decimals} {a : Answers} {dto : WithdrawalDto} {w : World}
    {from_address : String} {t : Transfer}
    (h : transferOf decimals a dto w = some (from_address, t)) :
    ∃ nw_fees myWallet source, w.db.getNetworkFees dto.network = some nw_fees ∧
      w.db.searchAddress dto.user_id dto.network = some myWallet ∧
      w.db.findDbWithdrawalSourceAddress dto.coin dto.network
        (decimals.plus dto.amount nw_fees.fees) = some source ∧ source.address = from_address ∧
      transferFor dto myWallet.privateKey nw_fees.fees = some t := by
  unfold transferOf at h
  split at h
  · next nw_fees myWallet hfees hwallet =>
    dsimp only at h
    split at h
    · cases h
    · obtain ⟨source, hsource, h⟩ := Option.bind_eq_some_iff.mp h
      obtain ⟨t', ht, h⟩ := Option.map_eq_some_iff.mp h
      cases h
      obtain ⟨hfind, -⟩ := Option.filter_eq_some_iff.mp hsource
      obtain ⟨row, hrow, rfl⟩ := Option.map_eq_some_iff.mp hfind
      exact ⟨nw_fees, myWallet, row, hfees, hwallet, hrow, rfl, ht⟩
  · cases h

/-- The row that is saved after a transfer. -/
def withdrawalOf (dto : WithdrawalDto) (from_address : String) (result : WithdrawlResponse) :
    NewWithdrawal where
  user_id := dto.user_id
  from_address := some from_address
  to_address := dto.to_address
  coin := dto.coin
  network := dto.network
  with_amount := dto.amount.value
  transaction_hash := Field.column result.hash
  status := if result.blockHash ≠ .undefined then .Approved else .Pending

/-- A request for which no source address is found is for the admin to pay: the database
answers, and the check lets the request through. -/
def adminPays (decimals : Decimals) (a : Answers) (dto : WithdrawalDto) (w : World) : Bool :=
  match w.db.getNetworkFees dto.network, w.db.searchAddress dto.user_id dto.network with
  | some nw_fees, some myWallet =>
      let total := decimals.plus dto.amount nw_fees.fees
      !a.fails (.getNetworkFees dto.network) &&
        !a.fails (.searchAddress dto.user_id dto.network) &&
        !refuses decimals dto nw_fees myWallet &&
        !a.fails (.findDbWithdrawalSourceAddress dto.coin dto.network total) &&
        (truthy ((w.db.findDbWithdrawalSourceAddress dto.coin dto.network total).map
          TokenAddressBalance.address)).isNone
  | _, _ => false

/-- The row that is saved for the admin to pay. -/
def adminWithdrawalOf (dto : WithdrawalDto) : NewWithdrawal where
  user_id := dto.user_id
  from_address := none
  to_address := dto.to_address
  coin := dto.coin
  network := dto.network
  with_amount := dto.amount.value
  transaction_hash := none
  status := .Pending

/-- A row is saved for the admin to pay. -/
def storesForAdmin (decimals : Decimals) (a : Answers) (dto : WithdrawalDto) (w : World) : Bool :=
  adminPays decimals a dto w && !a.fails (.saveWithdrawal (adminWithdrawalOf dto))

/-- What the admin pays is not transferred. -/
theorem transferOf_of_adminPays {decimals : Decimals} {a : Answers} {dto : WithdrawalDto}
    {w : World} (h : adminPays decimals a dto w = true) : transferOf decimals a dto w = none := by
  unfold adminPays at h
  unfold transferOf
  split at h
  · simp only [Bool.and_eq_true, Option.isNone_iff_eq_none] at h
    simp [h.2]
  · cases h

theorem transferOf_of_stores {decimals : Decimals} {a : Answers} {dto : WithdrawalDto} {w : World}
    (h : storesForAdmin decimals a dto w = true) : transferOf decimals a dto w = none :=
  transferOf_of_adminPays (Bool.and_eq_true_iff.mp h).1

/-- A request that ends before a source address is looked for. -/
structure Unsettled (decimals : Decimals) (a : Answers) (dto : WithdrawalDto) (w : World) :
    Prop where
  transfer : transferOf decimals a dto w = none
  admin : adminPays decimals a dto w = false

section Unsettled

variable {decimals : Decimals} {a : Answers} {dto : WithdrawalDto} {w : World}

/-- The database does not answer. -/
theorem unsettled_of_fails (hf : a.fails (.searchAddress dto.user_id dto.network) = true ∨
    a.fails (.getNetworkFees dto.network) = true) : Unsettled decimals a dto w := by
  constructor
  · unfold transferOf
    split
    · rcases hf with hf | hf <;> simp [hf]
    · rfl
  · unfold adminPays
    split
    · rcases hf with hf | hf <;> simp [hf]
    · rfl

/-- There is no wallet or no fee. -/
theorem unsettled_of_missing (h : w.db.searchAddress dto.user_id dto.network = none ∨
    w.db.getNetworkFees dto.network = none) : Unsettled decimals a dto w := by
  rcases h with h | h
  · exact ⟨by simp [transferOf, h], by simp [adminPays, h]⟩
  · exact ⟨by simp [transferOf, h], by simp [adminPays, h]⟩

/-- The balance does not cover the amount with the fee, or the source is not answered. -/
theorem unsettled_of_refused {myWallet : Wallet} {nw_fees : NetworkFee}
    (hwallet : w.db.searchAddress dto.user_id dto.network = some myWallet)
    (hfees : w.db.getNetworkFees dto.network = some nw_fees)
    (h : refuses decimals dto nw_fees myWallet = true ∨
      a.fails (.findDbWithdrawalSourceAddress dto.coin dto.network
        (decimals.plus dto.amount nw_fees.fees)) = true) : Unsettled decimals a dto w := by
  rcases h with h | h
  · exact ⟨by simp [transferOf, hwallet, hfees, h], by simp [adminPays, hwallet, hfees, h]⟩
  · exact ⟨by simp [transferOf, hwallet, hfees, h], by simp [adminPays, hwallet, hfees, h]⟩

end Unsettled

/-- The tables after a request that makes no transfer. -/
def unpaidTables (decimals : Decimals) (a : Answers) (dto : WithdrawalDto) (w : World) : Tables :=
  if storesForAdmin decimals a dto w then w.db.saveWithdrawal (adminWithdrawalOf dto) else w.db

/-- How a request ends. -/
inductive Ended (decimals : Decimals) (a : Answers) (dto : WithdrawalDto) (w : World) :
    Except Err WithdrawlResponse → World → Prop where
  | unpaid {r : Except Err WithdrawlResponse} {w' : World}
      (hnone : ∀ x, transferOf decimals a dto w = some x → ∃ e, a.transfer x.2 = .error e)
      (hr : ∀ result, r = .ok result → result.hash = .undefined)
      (hdb : w'.db = w.db ∨
        ∃ obj : NewWithdrawal, obj.status = .Pending ∧ w'.db = w.db.saveWithdrawal obj) :
      Ended decimals a dto w r w'
  | transferred {w' : World} (from_address : String) (t : Transfer) (result : WithdrawlResponse)
      (h : transferOf decimals a dto w = some (from_address, t)) (hr : a.transfer t = .ok result)
      (hdb : w'.db = w.db ∨ (result.hash ≠ .undefined ∧ result.success = true) ∧
        a.fails (.saveWithdrawal (withdrawalOf dto from_address result)) = false ∧
        w'.db = w.db.saveWithdrawal (withdrawalOf dto from_address result)) :
      Ended decimals a dto w (.ok result) w'

/-! ## Recording the transfers -/

/-- What is recorded of a call. -/
def Op.log {β : Type} (log : Transfer → List β) : Op → List β
  | .transfer t => log t
  | _ => []

/-- The database and the chains, with a record of the calls of transfer functions. -/
def logged {β : Type} (a : Answers) (log : Transfer → List β) :
    Handler Op Op.Res Err (World × List β) :=
  fun o x => ((World.perform a o x.1).1, ((World.perform a o x.1).2, x.2 ++ o.log log))

theorem logged_run {α β : Type} (a : Answers) (log : Transfer → List β) (p : Prog α)
    (x : World × List β) :
    p.run (World.perform a) x.1 = ((p.run (logged a log) x).1, (p.run (logged a log) x).2.1) :=
  run_map Prod.fst (fun _ _ => rfl) p x

/-- How a request ends, with the record of its one transfer, if it makes one. -/
inductive EndedLogged {β : Type} (decimals : Decimals) (a : Answers) (log : Transfer → List β)
    (dto : WithdrawalDto) (w : World) : Except Err WithdrawlResponse → World × List β → Prop where
  | unpaid {r : Except Err WithdrawlResponse} {w' : World} (h : transferOf decimals a dto w = none)
      (hr : ∀ result, r = .ok result → result.hash = .undefined)
      (hdb : w'.db = w.db ∨ ∃ obj : NewWithdrawal,
        obj.status = .Pending ∧ obj.transaction_hash = none ∧ w'.db = w.db.saveWithdrawal obj) :
      EndedLogged decimals a log dto w r (w', [])
  | raised {r : Except Err WithdrawlResponse} {w' : World} (from_address : String) (t : Transfer)
      (e : Err) (h : transferOf decimals a dto w = some (from_address, t))
      (he : a.transfer t = .error e) (hr : ∀ result, r = .ok result → result.hash = .undefined)
      (hdb : w'.db = w.db) :
      EndedLogged decimals a log dto w r (w', log t)
  | refused {w' : World} (from_address : String) (t : Transfer) (result : WithdrawlResponse)
      (h : transferOf decimals a dto w = some (from_address, t)) (hr : a.transfer t = .ok result)
      (hunpaid : ¬ (result.hash ≠ .undefined ∧ result.success = true)) (hdb : w'.db = w.db) :
      EndedLogged decimals a log dto w (.ok result) (w', log t)
  | paid {w' : World} (from_address : String) (t : Transfer) (result : WithdrawlResponse)
      (h : transferOf decimals a dto w = some (from_address, t)) (hr : a.transfer t = .ok result)
      (hpaid : result.hash ≠ .undefined ∧ result.success = true)
      (hdb : a.fails (.saveWithdrawal (withdrawalOf dto from_address result)) = true ∧
          w'.db = w.db ∨
        a.fails (.saveWithdrawal (withdrawalOf dto from_address result)) = false ∧
          w'.db = w.db.saveWithdrawal (withdrawalOf dto from_address result)) :
      EndedLogged decimals a log dto w (.ok result) (w', log t)

/-- How a request ends, with the row that is stored when no transfer is made. -/
structure EndedStored {β : Type} (decimals : Decimals) (a : Answers) (log : Transfer → List β)
    (dto : WithdrawalDto) (w : World) (r : Except Err WithdrawlResponse) (x : World × List β) :
    Prop where
  logged : EndedLogged decimals a log dto w r x
  stored : transferOf decimals a dto w = none → x.1.db = unpaidTables decimals a dto w

theorem EndedLogged.ended {β : Type} {decimals : Decimals} {a : Answers} {log : Transfer → List β}
    {dto : WithdrawalDto} {w : World} {r : Except Err WithdrawlResponse} {x : World × List β}
    (h : EndedLogged decimals a log dto w r x) : Ended decimals a dto w r x.1 := by
  cases h with
  | unpaid hnone hr hdb =>
    refine .unpaid (fun x hx => by cases hnone.symm.trans hx) hr ?_
    exact hdb.imp id fun ⟨obj, hstatus, _, hdb⟩ => ⟨obj, hstatus, hdb⟩
  | raised from_address t e h he hr hdb =>
    refine .unpaid (fun x hx => ?_) hr (.inl hdb)
    cases h.symm.trans hx
    exact ⟨e, he⟩
  | refused from_address t result h hr hunpaid hdb =>
    exact .transferred from_address t result h hr (.inl hdb)
  | paid from_address t result h hr hpaid hdb =>
    exact .transferred from_address t result h hr
      (hdb.imp (fun h => h.2) fun h => ⟨hpaid, h⟩)

section Request

variable {β : Type} {decimals : Decimals} {a : Answers} {log : Transfer → List β} {w : World}
  {l : List β}

/-- A call of the database that may fail. -/
theorem wp_reply {α : Type} {o : Op} {f : o.Res → Prog α}
    {Q : Except Err α → World × List β → Prop} {r : o.Res} {w' : World}
    (hp : World.perform a o w = a.reply o w r w') (hlog : o.log log = [])
    (hfail : a.fails o = true → Q (.error .rejected) (w, l))
    (hok : a.fails o = false → wp (logged a log) (f r) Q (w', l)) :
    wp (logged a log) (WalletController.call o >>= f) Q (w, l) := by
  have hlogged : logged a log o (w, l) =
      if a.fails o then (.error .rejected, (w, l)) else (.ok r, (w', l)) := by
    unfold logged
    rw [hp, hlog, List.append_nil]
    unfold Answers.reply
    split <;> rfl
  apply (wp_bind _ _ _).mpr
  exact wp_call_fails hlogged hfail hok

theorem wp_property_some {α γ : Type} {x : α} {f : α → Prog γ}
    {Q : Except Err γ → World × List β → Prop} (h : wp (logged a log) (f x) Q (w, l)) :
    wp (logged a log) (property (some x) >>= f) Q (w, l) :=
  h

theorem wp_property_none {α γ : Type} {f : α → Prog γ} {Q : Except Err γ → World × List β → Prop}
    (h : Q (.error .typeError) (w, l)) : wp (logged a log) (property none >>= f) Q (w, l) :=
  h

theorem saved_spec (obj : NewWithdrawal) (pay_with_admin : YesNo) :
    wp (logged a log) (detached (saveWithdrawal obj pay_with_admin))
      (fun r x => r = .ok () ∧ (a.fails (.saveWithdrawal obj) = true ∧ x.1.db = w.db ∨
        a.fails (.saveWithdrawal obj) = false ∧ x.1.db = w.db.saveWithdrawal obj) ∧ x.2 = l)
      (w, l) := by
  unfold detached saveWithdrawal
  rw [wp_tryCatch]
  apply wp_reply rfl rfl
  · exact fun hf => ⟨rfl, .inl ⟨hf, rfl⟩, rfl⟩
  · intro hf
    by_cases hnet : obj.network ≠ "Bitcoin"
    · rw [if_pos hnet]
      exact ⟨rfl, .inr ⟨hf, rfl⟩, List.append_nil l⟩
    · rw [if_neg hnet]
      exact ⟨rfl, .inr ⟨hf, rfl⟩, rfl⟩

/-- The `catch` raises again, as the error is not saved. -/
theorem caught {Q : Except Err WithdrawlResponse → World × List β → Prop}
    (h : ∀ e, Q (.error e) (w, l)) (e : Err) :
    wp (logged a log) (do
      WalletController.call (.saveError e "Withdrawal function")
      Pure.pure (⟨false, "Failed to accept withdrawal at the moment,Try after sometime",
        .undefined, .undefined⟩ : WithdrawlResponse)) Q (w, l) := by
  apply (wp_bind _ _ _).mpr
  apply (wp_call _ _).mpr
  simp only [logged, World.perform, Op.log, List.append_nil]
  exact h _

/-- One transfer, and the row that is saved for it when it succeeds. -/
theorem transfer_spec {Q : Except Err WithdrawlResponse → World × List β → Prop}
    (dto : WithdrawalDto) (from_address : String) (t : Transfer)
    (hraised : ∀ e, a.transfer t = .error e → Q (.error e) (w, l ++ log t))
    (hrefused : ∀ result, a.transfer t = .ok result →
      ¬ (result.hash ≠ .undefined ∧ result.success = true) → Q (.ok result) (w, l ++ log t))
    (hpaid : ∀ result w', a.transfer t = .ok result →
      result.hash ≠ .undefined ∧ result.success = true →
      (a.fails (.saveWithdrawal (withdrawalOf dto from_address result)) = true ∧ w'.db = w.db ∨
        a.fails (.saveWithdrawal (withdrawalOf dto from_address result)) = false ∧
          w'.db = w.db.saveWithdrawal (withdrawalOf dto from_address result)) →
      Q (.ok result) (w', l ++ log t)) :
    wp (logged a log) (do
      let result : WithdrawlResponse ← WalletController.call (.transfer t)
      if result.hash ≠ .undefined ∧ result.success = true then
        detached (saveWithdrawal (withdrawalOf dto from_address result) .NO)
      else Pure.pure ()
      Pure.pure result) Q (w, l) := by
  apply (wp_bind _ _ _).mpr
  apply (wp_call _ _).mpr
  cases hr : a.transfer t with
  | error e =>
    simp only [logged, World.perform, hr]
    exact hraised e hr
  | ok result =>
    simp only [logged, World.perform, hr]
    by_cases h : result.hash ≠ .undefined ∧ result.success = true
    · rw [if_pos h]
      apply (wp_bind _ _ _).mpr
      apply wp_mono (saved_spec (withdrawalOf dto from_address result) .NO)
      rintro r ⟨w', l'⟩ ⟨rfl, hdb, rfl⟩
      exact hpaid result w' hr h hdb
    · rw [if_neg h]
      exact hrefused result hr h

/-- Nothing is stored. -/
theorem EndedStored.unpaid {dto : WithdrawalDto} {r : Except Err WithdrawlResponse} {w' : World}
    (h : Unsettled decimals a dto w) (hr : ∀ result, r = .ok result → result.hash = .undefined)
    (hdb : w'.db = w.db) : EndedStored decimals a log dto w r (w', []) :=
  ⟨.unpaid h.transfer hr (.inl hdb), fun _ => by
    simp [unpaidTables, storesForAdmin, h.admin, hdb]⟩

/-- A transfer is made. -/
theorem EndedLogged.transferred {dto : WithdrawalDto} {r : Except Err WithdrawlResponse}
    {x : World × List β} {y : String × Transfer} (hsome : transferOf decimals a dto w = some y)
    (h : EndedLogged decimals a log dto w r x) : EndedStored decimals a log dto w r x :=
  ⟨h, fun hnone => by cases hsome.symm.trans hnone⟩

/-- A request is stored for the admin and answered without a hash. -/
theorem admin_stored {Q : Except Err WithdrawlResponse → World × List β → Prop}
    {dto : WithdrawalDto} {result : WithdrawlResponse} (hadmin : adminPays decimals a dto w = true)
    (hhash : result.hash = .undefined)
    (hQ : ∀ x, EndedStored decimals a log dto w (.ok result) x → Q (.ok result) x) :
    wp (logged a log) (detached (saveWithdrawal (adminWithdrawalOf dto) .YES) >>= fun _ =>
      Pure.pure result) Q (w, []) := by
  apply (wp_bind _ _ _).mpr
  apply wp_mono (saved_spec (adminWithdrawalOf dto) .YES)
  rintro r ⟨w', l⟩ ⟨rfl, hdb, rfl⟩
  refine hQ _ ⟨.unpaid (transferOf_of_adminPays hadmin) (fun result' h => ?_) ?_, fun _ => ?_⟩
  · cases h
    exact hhash
  · exact hdb.imp (fun h => h.2) fun h => ⟨_, rfl, rfl, h.2⟩
  · rcases hdb with ⟨hf, hdb⟩ | ⟨hf, hdb⟩
    · exact hdb.trans (by simp [unpaidTables, storesForAdmin, hadmin, hf])
    · exact hdb.trans (by simp [unpaidTables, storesForAdmin, hadmin, hf])

theorem withdrawal_stored (dto : WithdrawalDto) :
    wp (logged a log) (withdrawal decimals dto) (EndedStored decimals a log dto w) (w, []) := by
  have hcatch : Unsettled decimals a dto w → ∀ e, wp (logged a log) (do
      WalletController.call (.saveError e "Withdrawal function")
      Pure.pure (⟨false, "Failed to accept withdrawal at the moment,Try after sometime",
        .undefined, .undefined⟩ : WithdrawlResponse))
      (EndedStored decimals a log dto w) (w, []) := by
    intro h
    apply caught
    exact fun _ => .unpaid h (fun result h => by cases h) rfl
  unfold withdrawal
  rw [wp_tryCatch]
  apply wp_reply rfl rfl
  · exact fun hf => hcatch (unsettled_of_fails (.inr hf)) _
  intro hf₁
  apply wp_reply rfl rfl
  · exact fun hf => hcatch (unsettled_of_fails (.inl hf)) _
  intro hf₂
  cases hwallet : w.db.searchAddress dto.user_id dto.network with
  | none =>
    apply wp_property_none
    exact hcatch (unsettled_of_missing (.inl hwallet)) _
  | some myWallet =>
  apply wp_property_some
  cases hfees : w.db.getNetworkFees dto.network with
  | none =>
    apply wp_property_none
    exact hcatch (unsettled_of_missing (.inr hfees)) _
  | some nw_fees =>
  apply wp_property_some
  dsimp only
  cases hcheck : refuseWithdrawal (decimals.plus dto.amount nw_fees.fees)
      (decimals.column 8 (myWallet.balance dto.coin)) with
  | some refused =>
    have hrefuses : refuses decimals dto nw_fees myWallet = true := by simp [refuses, hcheck]
    refine .unpaid (unsettled_of_refused hwallet hfees (.inl hrefuses)) (fun result h => ?_) rfl
    cases h
    exact hash_of_refused hcheck
  | none =>
  have hex : refuses decimals dto nw_fees myWallet = false := by simp [refuses, hcheck]
  apply wp_reply rfl rfl
  · exact fun hf => hcatch (unsettled_of_refused hwallet hfees (.inr hf)) _
  intro hf₃
  have htransfer : transferOf decimals a dto w =
      (truthy ((w.db.findDbWithdrawalSourceAddress dto.coin dto.network
        (decimals.plus dto.amount nw_fees.fees)).map TokenAddressBalance.address)).bind
        fun from_address => (transferFor dto myWallet.privateKey nw_fees.fees).map
          fun t => (from_address, t) := by
    simp [transferOf, hwallet, hfees, hf₁, hf₂, hf₃, hex]
  have hadmin : adminPays decimals a dto w =
      (truthy ((w.db.findDbWithdrawalSourceAddress dto.coin dto.network
        (decimals.plus dto.amount nw_fees.fees)).map TokenAddressBalance.address)).isNone := by
    simp [adminPays, hwallet, hfees, hf₁, hf₂, hf₃, hex]
  cases hsource : truthy ((w.db.findDbWithdrawalSourceAddress dto.coin dto.network
      (decimals.plus dto.amount nw_fees.fees)).map TokenAddressBalance.address) with
  | none =>
    have hpays : adminPays decimals a dto w = true := by simp [hadmin, hsource]
    exact admin_stored hpays rfl fun _ h => h
  | some from_address =>
  cases ht : transferFor dto myWallet.privateKey nw_fees.fees with
  | none =>
    apply wp_property_none
    exact hcatch ⟨by simp [htransfer, ht], by simp [hadmin, hsource]⟩ _
  | some t =>
  have hsome : transferOf decimals a dto w = some (from_address, t) := by
    simp [htransfer, hsource, ht]
  apply wp_property_some
  apply transfer_spec dto from_address t
  · intro e hr
    apply caught
    exact fun _ => EndedLogged.transferred hsome
      (.raised from_address t e hsome hr (fun result h => by cases h) rfl)
  · intro result hr hunpaid
    exact EndedLogged.transferred hsome (.refused from_address t result hsome hr hunpaid rfl)
  · intro result w' hr hpaid hdb
    exact EndedLogged.transferred hsome (.paid from_address t result hsome hr hpaid hdb)

theorem withdrawal_logged (dto : WithdrawalDto) :
    wp (logged a log) (withdrawal decimals dto) (EndedLogged decimals a log dto w) (w, []) :=
  wp_mono (withdrawal_stored dto) fun _ _ h => h.logged

theorem withdrawal_ended (dto : WithdrawalDto) :
    wp (World.perform a) (withdrawal decimals dto) (Ended decimals a dto w) w := by
  have hlogged : wp (logged a fun _ => ([] : List Unit)) (withdrawal decimals dto)
      (EndedLogged decimals a (fun _ => []) dto w) (w, []) :=
    withdrawal_logged dto
  have hended := hlogged.ended
  unfold wp
  rw [logged_run a (fun _ => ([] : List Unit)) (withdrawal decimals dto) (w, [])]
  exact hended

end Request

end Exchange.Wallets
