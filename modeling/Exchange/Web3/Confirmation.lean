import Exchange.Async.Pool
import Exchange.Store.Rowwise
import Exchange.Web3.Service

/-!
# Confirming withdrawals

A job starts one program for each pending row and awaits none, so the programs
are interleaved at their awaits. `getPendingWithdrawal` does not select the
network of a row, and without it every receipt is looked for on Ethereum. The
confirmations that are written with a decision are a BigInt; whether the driver of the
database writes one is a parameter.

`decidedOnOwnChain_iff`: under every schedule that lets the programs end, the
rows are decided on their own chains iff the two chains say the same of every
pending withdrawal on BEP20, or, where no BigInt is written, nothing is decided.
-/

namespace Exchange.Web3

open Async Proc Store Wallets Settlement Polling Web3Service

/-! ## The job -/

def World.update (w : World) (id : Nat) (data : WithdrawalData) : World :=
  { w with
    tbl_withdrawal := w.tbl_withdrawal.modify id
      (fun r => { r with toWithdrawal := data.write r.toWithdrawal }) fun r =>
        data.id_write r.toWithdrawal }

/-- The calls of a row's program; it makes no others. The confirmations that come with a
status are a BigInt, those that come alone were parsed to a number. -/
def answer (bigints : Bool) (c : Chains) : Handler Settlement.Op Settlement.Op.Res Err World
  | .receipt hash from_address network, w =>
      (receipt hash from_address network).run (perform c) w
  | .updateWtihdrawalById id (.confirmations count), w =>
      (.ok (), w.update id (.confirmations count))
  | .updateWtihdrawalById id (.status status count), w =>
      if bigints then (.ok (), w.update id (.status status count)) else (.error .rejected, w)
  | _, w => (.error .rejected, w)

def World.store (w : World) : WithdrawalStore :=
  ⟨w.tbl_withdrawal.rows, w.tbl_withdrawal.next, w.now⟩

/-- `processWithdrawal` on the rows that `getPendingWithdrawal` reads, every call an await. -/
def processWithdrawal (bigints : Bool) (c : Chains) (w : World) (schedule : List Nat) :
    Pool Settlement.Op Settlement.Op.Res Err Unit World :=
  Pool.run (answer bigints c) (fun _ => true)
    ⟨w, (getPendingWithdrawal w.store).map processWithdrawalRow⟩ schedule

/-- `receipt.status ? Approved : Reverted`. -/
def statusOf (status : Nat) : Status := if status ≠ 0 then .Approved else .Reverted

theorem statusOf_ne (status : Nat) : statusOf status ≠ .Pending := by
  unfold statusOf
  split <;> simp

/-- What the chain of a network says of the transaction of a row. -/
def Chains.says (c : Chains) (network : Option String) (r : WithdrawalRow) : Option Status :=
  (c.verdict network r.transaction_hash r.from_address).map statusOf

/-- What the job writes to a row, whose network it does not know. -/
def Chains.found (bigints : Bool) (c : Chains) (v : PendingWithdrawal) : Option Status :=
  if bigints then (c.verdict none v.transaction_hash v.from_address).map statusOf else none

theorem says_ne {c : Chains} {network : Option String} {r : WithdrawalRow} {status : Status}
    (h : c.says network r = some status) : status ≠ .Pending := by
  obtain ⟨n, -, rfl⟩ := Option.map_eq_some_iff.mp h
  exact statusOf_ne n

theorem found_ne {bigints : Bool} {c : Chains} {v : PendingWithdrawal} {status : Status}
    (h : c.found bigints v = some status) : status ≠ .Pending := by
  cases bigints with
  | false => cases h
  | true =>
    obtain ⟨n, -, rfl⟩ := Option.map_eq_some_iff.mp h
    exact statusOf_ne n

/-! ## One row -/

section Row

variable {bigints : Bool} {c : Chains} {pending : List PendingWithdrawal} {v : PendingWithdrawal}
  {w w' : World}

/-- A row stays, or a program of the job gives it the status that it found. -/
def Becomes (bigints : Bool) (c : Chains) (pending : List PendingWithdrawal)
    (r r' : WithdrawalRow) : Prop :=
  r' = r ∨ ∃ v ∈ pending, ∃ status count, v.id = r.id ∧ c.found bigints v = some status ∧
    r' = { r with status := status, confirmations := count }

theorem Becomes.id {r r' : WithdrawalRow} (h : Becomes bigints c pending r r') : r'.id = r.id := by
  rcases h with rfl | ⟨v, -, status, count, -, -, rfl⟩ <;> rfl

theorem Becomes.trans {r r' r'' : WithdrawalRow} (h : Becomes bigints c pending r r')
    (h' : Becomes bigints c pending r' r'') : Becomes bigints c pending r r'' := by
  have hid := h.id
  rcases h' with rfl | ⟨v, hv, status, count, hvid, hfound, rfl⟩
  · exact h
  · refine .inr ⟨v, hv, status, count, hvid.trans hid, hfound, ?_⟩
    rcases h with rfl | ⟨v', -, status', count', -, -, rfl⟩ <;> rfl

/-- What the programs of a job do to the withdrawals. -/
def Confirms (bigints : Bool) (c : Chains) (pending : List PendingWithdrawal) (w w' : World) :
    Prop :=
  List.Forall₂ (Becomes bigints c pending) w.tbl_withdrawal.rows w'.tbl_withdrawal.rows

theorem Confirms.refl (w : World) : Confirms bigints c pending w w := by
  apply List.forall₂_same.mpr
  exact fun _ _ => .inl rfl

theorem Confirms.trans {w w' w'' : World} (h : Confirms bigints c pending w w')
    (h' : Confirms bigints c pending w' w'') : Confirms bigints c pending w w'' :=
  rowwise_trans (fun _ _ _ => Becomes.trans) h h'

theorem Confirms.exists_left (h : Confirms bigints c pending w w') {r' : WithdrawalRow}
    (hr' : r' ∈ w'.tbl_withdrawal.rows) :
    ∃ r ∈ w.tbl_withdrawal.rows, Becomes bigints c pending r r' :=
  rowwise_left h hr'

theorem Confirms.exists_right (h : Confirms bigints c pending w w') {r : WithdrawalRow}
    (hr : r ∈ w.tbl_withdrawal.rows) :
    ∃ r' ∈ w'.tbl_withdrawal.rows, Becomes bigints c pending r r' :=
  rowwise_right h hr

/-- A write of the program of `v`. -/
theorem confirms_update (hv : v ∈ pending) {status : Status}
    (hfound : c.found bigints v = some status) (count : Nat) (w : World) :
    Confirms bigints c pending w (w.update v.id (.status status count)) :=
  rowwise_modify (fun r => WithdrawalData.id_write _ r.toWithdrawal) (fun _ _ => .inl rfl)
    fun _ _ hid => .inr ⟨v, hv, status, count, hid.symm, hfound, rfl⟩

theorem safe_call {o : Settlement.Op} {Q : Except Err o.Res → World → Prop}
    (h : ∀ w', Confirms bigints c pending w' (answer bigints c o w').2 ∧
      Q (answer bigints c o w').1 (answer bigints c o w').2) :
    Safe (answer bigints c) (fun _ => true) (Confirms bigints c pending) Q (Settlement.call o) w :=
  Safe.call fun w' _ => h w'

/-- The row of `v` has the status that is written, if one is. -/
def Settled (bigints : Bool) (c : Chains) (v : PendingWithdrawal) (w : World) : Prop :=
  ∀ status, c.found bigints v = some status →
    ∀ r ∈ w.tbl_withdrawal.rows, r.id = v.id → r.status = status

theorem Settled.stable (hnd : (pending.map PendingWithdrawal.id).Nodup) (hv : v ∈ pending)
    (h : Confirms bigints c pending w w') (hs : Settled bigints c v w) :
    Settled bigints c v w' := by
  intro status hfound r' hr' hid
  obtain ⟨r, hr, hbecomes⟩ := h.exists_left hr'
  have hrid := hbecomes.id
  rcases hbecomes with rfl | ⟨v', hv', status', count, hvid, hfound', rfl⟩
  · exact hs status hfound r' hr hid
  · obtain rfl : v' = v := List.inj_on_of_nodup_map hnd hv' hv (hvid.trans (hrid.symm.trans hid))
    exact Option.some.inj (hfound'.symm.trans hfound)

theorem settled_update {status : Status} (hfound : c.found bigints v = some status) (count : Nat)
    (w : World) : Settled bigints c v (w.update v.id (.status status count)) := by
  intro status' hfound' r' hr' hid
  obtain ⟨r, -, rfl⟩ := List.mem_map.mp hr'
  obtain rfl := Option.some.inj (hfound.symm.trans hfound')
  split at hid
  · next hr =>
    rw [if_pos hr]
    rfl
  · next hr => exact absurd hid hr

/-- **The program of a row** writes to this row alone what was found for it. -/
theorem processWithdrawalRow_safe (hv : v ∈ pending) (w : World) :
    Safe (answer bigints c) (fun _ => true) (Confirms bigints c pending)
      (fun _ w' => Settled bigints c v w') (processWithdrawalRow v) w := by
  have hnone : ∀ {w' : World}, c.found bigints v = none → Settled bigints c v w' := by
    intro w' h status hfound
    cases h.symm.trans hfound
  unfold processWithdrawalRow
  apply Safe.tryCatch
  apply Safe.bind
  apply safe_call
  intro w₁
  have hspec := receipt_spec (c := c) (w := w₁) v.transaction_hash v.from_address none
  unfold wp at hspec
  change Confirms bigints c pending w₁ ((receipt v.transaction_hash v.from_address none).run
    (perform c) w₁).2 ∧ _
  simp only [answer]
  generalize (receipt v.transaction_hash v.from_address none).run (perform c) w₁ = result at hspec ⊢
  obtain ⟨r, w₂⟩ := result
  obtain ⟨rfl, hr⟩ := hspec
  refine ⟨Confirms.refl w₂, ?_⟩
  cases hverdict : c.verdict none v.transaction_hash v.from_address with
  | some status =>
    rw [hverdict] at hr
    obtain ⟨count, rfl⟩ := hr
    apply safe_call
    intro w₃
    cases bigints with
    | true =>
      have hfound : c.found true v = some (statusOf status) := by simp [Chains.found, hverdict]
      exact ⟨confirms_update hv hfound count w₃, settled_update hfound count w₃⟩
    | false =>
      refine ⟨Confirms.refl w₃, ?_⟩
      apply safe_call
      exact fun w₄ => ⟨Confirms.refl w₄, hnone rfl⟩
  | none =>
    rw [hverdict] at hr
    have hfound : c.found bigints v = none := by simp [Chains.found, hverdict]
    rcases hr with rfl | ⟨e, rfl⟩
    · exact hnone hfound
    · apply safe_call
      intro w₃
      exact ⟨Confirms.refl w₃, hnone hfound⟩

end Row

/-! ## The whole job -/

section Job

variable {bigints : Bool} {c : Chains} {w : World} {schedule : List Nat}

theorem pending_nodup (w : World) :
    ((getPendingWithdrawal w.store).map PendingWithdrawal.id).Nodup := by
  unfold getPendingWithdrawal
  rw [List.map_map]
  exact w.tbl_withdrawal.nodup.sublist (List.filter_sublist.map _)

theorem processWithdrawal_each (bigints : Bool) (c : Chains) (w : World) (schedule : List Nat) :
    Confirms bigints c (getPendingWithdrawal w.store) w
        (processWithdrawal bigints c w schedule).world ∧
      (processWithdrawal bigints c w schedule).EachSafe (answer bigints c) (fun _ => true)
        (Confirms bigints c (getPendingWithdrawal w.store)) (fun i _ w' =>
          ∀ v, (getPendingWithdrawal w.store)[i]? = some v → Settled bigints c v w') := by
  unfold processWithdrawal
  apply Pool.run_each (H := answer bigints c)
    (p := ⟨w, (getPendingWithdrawal w.store).map processWithdrawalRow⟩)
    Confirms.refl (fun _ _ _ => Confirms.trans)
  · intro i _ a b hab hQ v hv
    exact (hQ v hv).stable (pending_nodup w) (List.mem_of_getElem? hv) hab
  · intro i t hi
    rw [List.getElem?_map] at hi
    obtain ⟨v, hv, rfl⟩ := Option.map_eq_some_iff.mp hi
    refine ⟨rfl, ?_⟩
    apply (processWithdrawalRow_safe (List.mem_of_getElem? hv) w).mono
    intro _ w' hs v' hv'
    obtain rfl : v = v' := Option.some.inj (hv.symm.trans hv')
    exact hs

/-- Each row that was selected ends with what was found for it. -/
theorem processWithdrawal_settled (hended : (processWithdrawal bigints c w schedule).Ended)
    {v : PendingWithdrawal} (hv : v ∈ getPendingWithdrawal w.store) :
    Settled bigints c v (processWithdrawal bigints c w schedule).world := by
  obtain ⟨i, hi, hget⟩ := List.getElem_of_mem hv
  have hlength : i < (processWithdrawal bigints c w schedule).threads.length := by
    unfold processWithdrawal
    rw [Pool.length_run, List.length_map]
    exact hi
  obtain ⟨r, hQ⟩ := (processWithdrawal_each bigints c w schedule).2.outcome hended
    (List.getElem?_eq_getElem hlength)
  exact hQ v (by rw [List.getElem?_eq_getElem hi, hget])

/-- A row changes only to what its own chain says of a transaction of its sender
with enough confirmations, and a selected row of which it says something does. -/
def DecidedOnOwnChain (c : Chains) (w w' : World) : Prop :=
  ∀ r ∈ w.tbl_withdrawal.rows, ∀ r' ∈ w'.tbl_withdrawal.rows, r'.id = r.id →
    (r'.status ≠ r.status → c.says (some r.network) r = some r'.status) ∧
      (w.store.selects r = true → ∀ status, c.says (some r.network) r = some status →
        r'.status = status)

theorem says_of_ne {r : WithdrawalRow} (h : r.network ≠ "BEP20") :
    c.says (some r.network) r = c.says none r := by
  have hbep : isBep20 (some r.network) = isBep20 none := by simp [isBep20, h]
  unfold Chains.says Chains.verdict targetCount
  rw [hbep]

theorem mem_pending {v : PendingWithdrawal} : v ∈ getPendingWithdrawal w.store ↔
    ∃ r ∈ w.tbl_withdrawal.rows, w.store.selects r = true ∧ selectWithdrawal r = v := by
  simp only [getPendingWithdrawal, List.mem_map, List.mem_filter, and_assoc]
  rfl

theorem found_select (r : WithdrawalRow) :
    c.found bigints (selectWithdrawal r) = if bigints then c.says none r else none := rfl

/-- A selected row is decided if what is written to it is what its own chain says. -/
theorem says_of_decided (hended : (processWithdrawal bigints c w schedule).Ended)
    (h : DecidedOnOwnChain c w (processWithdrawal bigints c w schedule).world) {r : WithdrawalRow}
    (hr : r ∈ w.tbl_withdrawal.rows) (hsel : w.store.selects r = true) :
    c.says (some r.network) r = c.found bigints (selectWithdrawal r) := by
  have hv : selectWithdrawal r ∈ getPendingWithdrawal w.store :=
    mem_pending.mpr ⟨r, hr, hsel, rfl⟩
  have hpending : r.status = .Pending := by
    simp only [WithdrawalStore.selects, decide_eq_true_eq] at hsel
    exact hsel.2.1
  obtain ⟨r', hr', hbecomes⟩ := (processWithdrawal_each bigints c w schedule).1.exists_right hr
  obtain ⟨honly, hall⟩ := h r hr r' hr' hbecomes.id
  cases hfound : c.found bigints (selectWithdrawal r) with
  | some status =>
    have hstatus : r'.status = status :=
      processWithdrawal_settled hended hv status hfound r' hr' hbecomes.id
    rw [← hstatus]
    apply honly
    rw [hstatus, hpending]
    exact found_ne hfound
  | none =>
    cases hown : c.says (some r.network) r with
    | none => rfl
    | some status =>
      have hstatus := hall hsel status hown
      rcases hbecomes with rfl | ⟨v', hv', status', count, hid, hfound', -⟩
      · exact absurd (hstatus.symm.trans hpending) (says_ne hown)
      · obtain rfl : v' = selectWithdrawal r :=
          List.inj_on_of_nodup_map (pending_nodup w) hv' hv hid
        cases hfound.symm.trans hfound'

theorem decided_of_says (hended : (processWithdrawal bigints c w schedule).Ended)
    (hsame : ∀ r ∈ w.tbl_withdrawal.rows, w.store.selects r = true →
      c.says (some r.network) r = c.found bigints (selectWithdrawal r)) :
    DecidedOnOwnChain c w (processWithdrawal bigints c w schedule).world := by
  intro r hr r' hr' hid
  constructor
  · intro hchanged
    obtain ⟨r₀, hr₀, hbecomes⟩ :=
      (processWithdrawal_each bigints c w schedule).1.exists_left hr'
    obtain rfl : r₀ = r := Table.eq_of_key hr₀ hr (hbecomes.id.symm.trans hid)
    rcases hbecomes with rfl | ⟨v, hv, status, count, hvid, hfound, rfl⟩
    · exact absurd rfl hchanged
    · obtain ⟨r₁, hr₁, hsel, rfl⟩ := mem_pending.mp hv
      obtain rfl : r₁ = r₀ := Table.eq_of_key hr₁ hr hvid
      exact (hsame r₁ hr hsel).trans hfound
  · intro hsel status hown
    have hv := mem_pending.mpr ⟨r, hr, hsel, rfl⟩
    rw [hsame r hr hsel] at hown
    exact processWithdrawal_settled hended hv status hown r' hr' hid

/-- **Withdrawals are decided on their own chain** iff both chains say the same of
every pending withdrawal on BEP20, if a BigInt can be written; if not, iff no pending
withdrawal is to be decided. -/
theorem decidedOnOwnChain_iff (hended : (processWithdrawal bigints c w schedule).Ended) :
    DecidedOnOwnChain c w (processWithdrawal bigints c w schedule).world ↔
      ∀ r ∈ w.tbl_withdrawal.rows, w.store.selects r = true →
        if bigints then r.network = "BEP20" → c.says (some "BEP20") r = c.says none r
        else c.says (some r.network) r = none := by
  have hiff : DecidedOnOwnChain c w (processWithdrawal bigints c w schedule).world ↔
      ∀ r ∈ w.tbl_withdrawal.rows, w.store.selects r = true →
        c.says (some r.network) r = c.found bigints (selectWithdrawal r) :=
    ⟨fun h r hr hsel => says_of_decided hended h hr hsel, decided_of_says hended⟩
  rw [hiff]
  refine forall₃_congr fun r hr hsel => ?_
  cases bigints with
  | false => rfl
  | true =>
    rw [found_select, if_pos rfl, if_pos rfl]
    constructor
    · intro h hnet
      rw [← hnet]
      exact h
    · intro h
      by_cases hnet : r.network = "BEP20"
      · rw [hnet]
        exact h hnet
      · exact says_of_ne hnet

end Job

/-! ## Runs -/

/-- A pending withdrawal of 1 USDT, sent from 0xa. -/
def sentFrom0xa (network : String) : World where
  tbl_withdrawal := (Table.empty _).insert
    { id := 1, user_id := 7, from_address := some "0xa", to_address := "0xb", with_amount := 1,
      coin := .USDT, network := network, transaction_hash := some "0x1", status := .Pending,
      pay_by_admin := .NO, confirmations := 0, deleted := .NO, created_at := 0 } rfl
  now := 0

/-- Its transaction, mined on one chain, where twelve blocks came after it. -/
def minedOn (bsc : Bool) : Chains :=
  let mined : Chain := ⟨[⟨"0x1", "0xA", 1, 100⟩], [], 112⟩
  let other : Chain := ⟨[], [], 500⟩
  if bsc then ⟨mined, other⟩ else ⟨other, mined⟩

/-- A withdrawal on Ethereum becomes approved, if a BigInt can be written. -/
theorem decidedOnOwnChain_ethereum :
    DecidedOnOwnChain (minedOn false) (sentFrom0xa "ERC20")
      (processWithdrawal true (minedOn false) (sentFrom0xa "ERC20") [0, 0]).world := by
  apply (decidedOnOwnChain_iff _).mpr
  · intro r hr _ hnet
    obtain rfl := List.mem_singleton.mp hr
    exact absurd hnet (by decide)
  · intro t ht
    obtain rfl := List.mem_singleton.mp ht
    exact .inl ⟨(), rfl⟩

/-- One on BSC does not, whatever can be written: its receipt is looked for on Ethereum. -/
theorem confirmed_on_bsc_not_seen :
    ((processWithdrawal true (minedOn true) (sentFrom0xa "BEP20") [0, 0]).Ended ∧
      ¬ DecidedOnOwnChain (minedOn true) (sentFrom0xa "BEP20")
        (processWithdrawal true (minedOn true) (sentFrom0xa "BEP20") [0, 0]).world) ∧
      (processWithdrawal false (minedOn true) (sentFrom0xa "BEP20") [0, 0]).Ended ∧
      ¬ DecidedOnOwnChain (minedOn true) (sentFrom0xa "BEP20")
        (processWithdrawal false (minedOn true) (sentFrom0xa "BEP20") [0, 0]).world := by
  have hpending {w' : World} (h : w'.tbl_withdrawal = (sentFrom0xa "BEP20").tbl_withdrawal) :
      ¬ DecidedOnOwnChain (minedOn true) (sentFrom0xa "BEP20") w' := by
    intro hdecided
    have happroved := (hdecided _ (List.mem_singleton.mpr rfl) _
      (h ▸ List.mem_singleton.mpr rfl) rfl).2 (by decide) .Approved (by decide)
    revert happroved
    decide
  refine ⟨⟨?_, hpending rfl⟩, ?_, hpending rfl⟩
  · intro t ht
    obtain rfl := List.mem_singleton.mp ht
    exact .inr ⟨_, rfl⟩
  · intro t ht
    obtain rfl := List.mem_singleton.mp ht
    exact .inr ⟨_, rfl⟩

end Exchange.Web3
