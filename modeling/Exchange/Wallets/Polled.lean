import Exchange.Polling.Sources
import Exchange.Wallets.Broadcasts

/-!
# Which withdrawals are polled

A withdrawal without a source address is stored for the admin to pay, with neither
hash nor sender. `saveWithdrawal` leaves out `pay_with_admin`, so the row has the
default of the column, and `getPendingWithdrawal` takes it for one that was sent.

`onlyBroadcast_iff`: so only withdrawals that were sent are polled, in every state
of a run, iff whatever is stored for the admin is on the network that is not
polled at all (`admin_row_polled`).
-/

namespace Exchange.Wallets.Polled

open Store Polling

/-- The tables, the times of the withdrawals, and which ones are for the admin to pay. -/
structure State where
  world : World
  created_at : Nat → Nat
  now : Nat
  admin : List Nat

/-- Time passes, or a request is handled. -/
inductive Event where
  | elapse (time : Nat)
  | withdrawal (o : Outside) (dto : WithdrawalDto)

namespace State

/-- `tbl_withdrawal` as the poller sees it: nothing deletes a row. -/
def store (s : State) : WithdrawalStore where
  rows := s.world.db.tbl_withdrawal.rows.map fun r => ⟨r, .NO, s.created_at r.id⟩
  next := s.world.db.tbl_withdrawal.next
  now := s.now

/-- The state after a request: a new row is made now. -/
def handle (s : State) (o : Outside) (dto : WithdrawalDto) : State where
  world := (o.withdrawal dto s.world).2.1
  created_at := fun id => if id < s.world.db.tbl_withdrawal.next then s.created_at id else s.now
  now := s.now
  admin :=
    if storesForAdmin .texts o.answers dto s.world then s.admin ++ [s.world.db.tbl_withdrawal.next]
    else s.admin

def step (s : State) : Event → State
  | .elapse time => { s with now := s.now + time }
  | .withdrawal o dto => s.handle o dto

/-- Every row that is polled has a hash and a sender, and is not for the admin to pay. -/
def Broadcast (s : State) : Prop :=
  ∀ r ∈ getPendingWithdrawal s.store,
    r.transaction_hash ≠ none ∧ r.from_address ≠ none ∧ r.id ∉ s.admin

/-- What is stored for the admin is not polled. -/
def Unpolled (s : State) : Event → Prop
  | .elapse _ => True
  | .withdrawal o dto =>
      storesForAdmin .texts o.answers dto s.world = true → dto.network = "Bitcoin"

end State

/-- In every state of the run only withdrawals that were sent are polled. -/
def OnlyBroadcast : State → List Event → Prop
  | s, [] => s.Broadcast
  | s, e :: events => s.Broadcast ∧ OnlyBroadcast (s.step e) events

/-- At every step of the run, what is stored for the admin is on Bitcoin. -/
def AdminOnBitcoin : State → List Event → Prop
  | _, [] => True
  | s, e :: events => s.Unpolled e ∧ AdminOnBitcoin (s.step e) events

/-- No withdrawal was requested yet. -/
def State.start (tbl_wallet : Table Wallet Wallet.id) (nw_fees : Table NetworkFee NetworkFee.id)
    (address_balance : Table TokenAddressBalance TokenAddressBalance.id) (now : Nat) : State where
  world := ⟨⟨tbl_wallet, .empty _, nw_fees, address_balance⟩, false⟩
  created_at := fun _ => now
  now := now
  admin := []

/-- A row off Bitcoin has a hash and a sender, and no id for the admin is still unused. -/
structure State.Inv (s : State) : Prop where
  sent : ∀ r ∈ s.world.db.tbl_withdrawal.rows, r.network ≠ "Bitcoin" →
    r.transaction_hash ≠ none ∧ r.from_address ≠ none ∧ r.id ∉ s.admin
  admin : ∀ id ∈ s.admin, id < s.world.db.tbl_withdrawal.next

section Step

variable {s : State} {o : Outside} {dto : WithdrawalDto}

/-- A polled row is a row off Bitcoin. -/
theorem mem_polled {v : Settlement.PendingWithdrawal} (h : v ∈ getPendingWithdrawal s.store) :
    ∃ r ∈ s.world.db.tbl_withdrawal.rows, r.network ≠ "Bitcoin" ∧
      v.id = r.id ∧ v.transaction_hash = r.transaction_hash ∧ v.from_address = r.from_address := by
  obtain ⟨row, hrow, rfl⟩ := List.mem_map.mp h
  obtain ⟨hrow, hselects⟩ := List.mem_filter.mp hrow
  obtain ⟨r, hr, rfl⟩ := List.mem_map.mp hrow
  simp only [WithdrawalStore.selects, decide_eq_true_eq] at hselects
  exact ⟨r, hr, hselects.1, rfl, rfl, rfl⟩

theorem broadcast_of_inv (h : s.Inv) : s.Broadcast := by
  intro v hv
  obtain ⟨r, hr, hnet, hid, hhash, hfrom⟩ := mem_polled hv
  rw [hid, hhash, hfrom]
  exact h.sent r hr hnet

/-- What a request stores: a row for the admin, the row of a transfer, or nothing. -/
theorem handle_cases (s : State) (o : Outside) (dto : WithdrawalDto) :
    (storesForAdmin .texts o.answers dto s.world = true ∧
      (s.handle o dto).world.db = s.world.db.saveWithdrawal (adminWithdrawalOf dto)) ∨
    (storesForAdmin .texts o.answers dto s.world = false ∧
      ((s.handle o dto).world.db = s.world.db ∨
        ∃ from_address result hash, WithdrawlResponse.hash result = .text hash ∧
          (s.handle o dto).world.db =
            s.world.db.saveWithdrawal (withdrawalOf dto from_address result))) := by
  have hended : EndedStored .texts o.answers o.sent dto s.world (o.withdrawal dto s.world).1
      (o.withdrawal dto s.world).2 := o.withdrawal_stored dto s.world
  change _ ∧ (o.withdrawal dto s.world).2.1.db = _ ∨ _
  cases hstores : storesForAdmin .texts o.answers dto s.world with
  | true =>
    refine .inl ⟨rfl, ?_⟩
    rw [hended.stored (transferOf_of_stores hstores), unpaidTables, if_pos hstores]
  | false =>
    refine .inr ⟨rfl, ?_⟩
    cases htransfer : transferOf .texts o.answers dto s.world with
    | none =>
      have hdb := hended.stored htransfer
      rw [unpaidTables, if_neg (by simp [hstores])] at hdb
      exact .inl hdb
    | some x =>
      have hlogged := hended.logged
      change (o.withdrawal dto s.world).2.1.db = _ ∨
        ∃ _ _ _, _ ∧ (o.withdrawal dto s.world).2.1.db = _
      generalize o.withdrawal dto s.world = ending at hlogged ⊢
      obtain ⟨r, w', sent⟩ := ending
      cases hlogged with
      | unpaid hnone _ _ => cases hnone.symm.trans htransfer
      | raised _ _ _ _ _ _ hdb => exact .inl hdb
      | refused _ _ _ _ _ _ hdb => exact .inl hdb
      | paid from_address t result h hr hpaid hdb =>
        obtain ⟨b, -, -, -, hhash, -⟩ := sent_of_success hr hpaid.2
        exact hdb.imp (fun h => h.2) fun h => ⟨from_address, result, b.hash, hhash, h.2⟩

/-- A new row without a number for the admin. -/
theorem sent_saved (h : s.Inv) {obj : NewWithdrawal}
    (hnew : obj.network ≠ "Bitcoin" → obj.transaction_hash ≠ none ∧ obj.from_address ≠ none ∧
      s.world.db.tbl_withdrawal.next ∉ (s.handle o dto).admin)
    (hold : ∀ id < s.world.db.tbl_withdrawal.next, id ∉ s.admin → id ∉ (s.handle o dto).admin)
    (hdb : (s.handle o dto).world.db = s.world.db.saveWithdrawal obj) :
    ∀ r ∈ (s.handle o dto).world.db.tbl_withdrawal.rows, r.network ≠ "Bitcoin" →
      r.transaction_hash ≠ none ∧ r.from_address ≠ none ∧ r.id ∉ (s.handle o dto).admin := by
  intro r hr hnet
  rw [hdb] at hr
  rcases List.mem_append.mp hr with hr | hr
  · obtain ⟨hhash, hfrom, hadmin⟩ := h.sent r hr hnet
    exact ⟨hhash, hfrom, hold r.id (s.world.db.tbl_withdrawal.fresh r hr) hadmin⟩
  · rw [List.mem_singleton.mp hr] at hnet ⊢
    exact hnew hnet

/-- A request keeps the invariant if it stores nothing for the admin off Bitcoin. -/
theorem inv_handle (h : s.Inv) (hu : s.Unpolled (.withdrawal o dto)) : (s.handle o dto).Inv := by
  have hnext : s.world.db.tbl_withdrawal.next ∉ s.admin := fun hmem => by
    have := h.admin _ hmem
    omega
  rcases handle_cases s o dto with ⟨hstores, hdb⟩ | ⟨hstores, hdb⟩
  · have hadmin : (s.handle o dto).admin = s.admin ++ [s.world.db.tbl_withdrawal.next] :=
      if_pos hstores
    refine ⟨sent_saved h (fun hnet => absurd (hu hstores) hnet) ?_ hdb, ?_⟩
    · intro id hid hold
      simp only [hadmin, List.mem_append, List.mem_singleton, not_or]
      exact ⟨hold, by omega⟩
    · intro id hid
      rw [hadmin] at hid
      rw [hdb]
      show id < max _ (_ + 1)
      rcases List.mem_append.mp hid with hid | hid
      · have := h.admin id hid
        omega
      · rw [List.mem_singleton.mp hid]
        exact lt_max_of_lt_right (Nat.lt_succ_self _)
  · have hadmin : (s.handle o dto).admin = s.admin := if_neg (by simp [hstores])
    rcases hdb with hdb | ⟨from_address, result, hash, hhash, hdb⟩
    · constructor
      · rw [hdb, hadmin]
        exact h.sent
      · rw [hdb, hadmin]
        exact h.admin
    · refine ⟨sent_saved h (fun _ => ?_) (fun _ _ hold => hadmin ▸ hold) hdb, fun id hid => ?_⟩
      · simp [withdrawalOf, hhash, WalletController.Field.column, hadmin, hnext]
      · rw [hadmin] at hid
        rw [hdb]
        exact lt_max_of_lt_left (h.admin id hid)

theorem inv_step (h : s.Inv) {e : Event} (hu : s.Unpolled e) : (s.step e).Inv := by
  cases e with
  | elapse time => exact ⟨h.sent, h.admin⟩
  | withdrawal o dto => exact inv_handle h hu

/-- A row stored for the admin off Bitcoin is polled at once, and has no hash. -/
theorem unpolled_of_broadcast {e : Event} (h : (s.step e).Broadcast) : s.Unpolled e := by
  cases e with
  | elapse time => trivial
  | withdrawal o dto =>
    intro hstores
    by_contra hnet
    rcases handle_cases s o dto with ⟨-, hdb⟩ | ⟨hnone, -⟩
    · let row : WithdrawalRow :=
        ⟨(adminWithdrawalOf dto).toRow s.world.db.tbl_withdrawal.next, .NO, s.now⟩
      have hrow : row ∈ (s.handle o dto).store.rows := by
        refine List.mem_map.mpr ⟨row.toWithdrawal, ?_, ?_⟩
        · rw [hdb]
          exact List.mem_append_right _ (List.mem_singleton.mpr rfl)
        · simp [row, State.handle, NewWithdrawal.toRow]
      have hselects : (s.handle o dto).store.selects row = true := by
        simp [WithdrawalStore.selects, row, NewWithdrawal.toRow, adminWithdrawalOf, hnet,
          State.store, State.handle, recent]
      have hpolled : selectWithdrawal row ∈ getPendingWithdrawal (s.handle o dto).store :=
        List.mem_map_of_mem (List.mem_filter.mpr ⟨hrow, hselects⟩)
      exact (h _ hpolled).1 rfl
    · cases hnone.symm.trans hstores

end Step

/-! ## Runs -/

theorem broadcast_of_run {s : State} {events : List Event} (h : OnlyBroadcast s events) :
    s.Broadcast := by
  cases events with
  | nil => exact h
  | cons e events => exact h.1

theorem onlyBroadcast_of_inv {s : State} {events : List Event} (h : s.Inv)
    (hadmin : AdminOnBitcoin s events) : OnlyBroadcast s events := by
  induction events generalizing s with
  | nil => exact broadcast_of_inv h
  | cons e events ih => exact ⟨broadcast_of_inv h, ih (inv_step h hadmin.1) hadmin.2⟩

theorem adminOnBitcoin_of_run {s : State} {events : List Event} (h : OnlyBroadcast s events) :
    AdminOnBitcoin s events := by
  induction events generalizing s with
  | nil => trivial
  | cons e events ih => exact ⟨unpolled_of_broadcast (broadcast_of_run h.2), ih h.2⟩

/-- **Only withdrawals that were sent are polled**, along a whole run, iff all that is
stored for the admin is on Bitcoin. -/
theorem onlyBroadcast_iff (tbl_wallet : Table Wallet Wallet.id)
    (nw_fees : Table NetworkFee NetworkFee.id)
    (address_balance : Table TokenAddressBalance TokenAddressBalance.id) (now : Nat)
    (events : List Event) :
    OnlyBroadcast (.start tbl_wallet nw_fees address_balance now) events ↔
      AdminOnBitcoin (.start tbl_wallet nw_fees address_balance now) events := by
  constructor
  · exact adminOnBitcoin_of_run
  · intro h
    refine onlyBroadcast_of_inv ⟨?_, ?_⟩ h
    · intro r hr
      cases hr
    · intro id hid
      cases hid

/-- No address has the 3 USDT and the fee. -/
theorem admin_row_polled :
    ¬ OnlyBroadcast (.start World.funded.db.tbl_wallet World.funded.db.nw_fees (.empty _) 0)
      [.withdrawal (.sending true true) (.usdt 3)] := by
  rintro ⟨-, h⟩
  have hpolled : getPendingWithdrawal (State.store (State.step
      (.start World.funded.db.tbl_wallet World.funded.db.nw_fees (.empty _) 0)
      (.withdrawal (.sending true true) (.usdt 3)))) = [⟨1, 1, none, none, "0xc", .USDT⟩] := by
    decide +kernel
  refine (h ⟨1, 1, none, none, "0xc", .USDT⟩ ?_).1 rfl
  rw [hpolled]
  exact List.mem_singleton.mpr rfl

end Exchange.Wallets.Polled
