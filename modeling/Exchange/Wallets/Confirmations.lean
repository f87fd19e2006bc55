import Exchange.Async.Pool
import Exchange.Polling.Sources
import Exchange.Store.Rowwise
import Exchange.Wallets.Credits

/-!
# Confirmations of deposits

A deposit job starts one program for each of its rows. A program whose search has
found a number of confirmations writes it with `updateWtihdrawalById`, under the id
of the deposit: it goes to the withdrawal with that id, whoever made it, and
the deposit keeps the number that it had.

`onlyDeposits_iff`: so a job leaves the withdrawals as they are and each such deposit
with its number, under every schedule that lets the programs end, iff all those
numbers are there already (`withdrawal_counted`).
-/

namespace Exchange.Settlement

open Async Proc Store Wallets Polling

/-- What is outside during a job: the time, and what the search finds for each row. -/
structure Searches where
  now : Nat
  found : PartialDeposit → Except Err Found

/-- The database answers every call. -/
def Searches.answers (s : Searches) : Op → Answers
  | .findTransactionForDeposit v => ⟨s.now, .ok .nothing, s.found v, fun _ => false⟩
  | _ => ⟨s.now, .ok .nothing, .ok .nothing, fun _ => false⟩

def Searches.perform (s : Searches) : Handler Op Op.Res Err World :=
  fun o w => World.perform (s.answers o) o w

/-- A batch: pending deposits, with what `getPendingDeposits` selects of them. -/
def World.batch (w : World) (chosen : Deposit → Bool) : List PendingDeposit :=
  (w.tbl_deposit.rows.filter fun r => r.status = .Pending ∧ chosen r = true).map selectDeposit

/-- `processDeposit` on a batch, every call an await. -/
def processDeposit (s : Searches) (batch : List PendingDeposit) (w : World)
    (schedule : List Nat) : Pool Op Op.Res Err Unit World :=
  Pool.run s.perform (fun _ => true) ⟨w, batch.map fun v => processDepositRow v.row⟩ schedule

/-- No withdrawal is changed, and each row for which a number was found ends with that
number of confirmations, and pending. -/
structure OnlyDeposits (s : Searches) (batch : List PendingDeposit) (w w' : World) : Prop where
  withdrawals : w'.wallets.db.tbl_withdrawal.rows = w.wallets.db.tbl_withdrawal.rows
  counted : ∀ v ∈ batch, ∀ n, s.found v.row = .ok (.number n) →
    ∃ r ∈ w'.tbl_deposit.rows, r.id = v.id ∧ r.confirmations = n ∧ r.status = .Pending

/-- The numbers that were found are there already, in the deposits and, but for 0, in the
withdrawals that happen to have their ids. -/
def AlreadyCounted (s : Searches) (batch : List PendingDeposit) (w : World) : Prop :=
  ∀ v ∈ batch, ∀ n, s.found v.row = .ok (.number n) →
    (∀ r ∈ w.tbl_deposit.rows, r.id = v.id → r.confirmations = n) ∧
      (n ≠ 0 → ∀ x ∈ w.wallets.db.tbl_withdrawal.rows, x.id = v.id → x.confirmations = n)

/-! ## One row -/

section Row

variable {s : Searches} {batch : List PendingDeposit} {v : PendingDeposit} {w w' : World}

/-- The search for the row with this id found this number. -/
def Counts (s : Searches) (batch : List PendingDeposit) (id n : Nat) : Prop :=
  ∃ v ∈ batch, v.id = id ∧ s.found v.row = .ok (.number n)

/-- A withdrawal stays, or it has the number of the deposit with its id. -/
def CountedAs (s : Searches) (batch : List PendingDeposit) (x x' : Withdrawal) : Prop :=
  x' = x ∨ ∃ n, n ≠ 0 ∧ Counts s batch x.id n ∧ x' = { x with confirmations := n }

theorem CountedAs.id {x x' : Withdrawal} (h : CountedAs s batch x x') : x'.id = x.id := by
  rcases h with rfl | ⟨n, -, -, rfl⟩ <;> rfl

theorem CountedAs.trans {x x' x'' : Withdrawal} (h : CountedAs s batch x x')
    (h' : CountedAs s batch x' x'') : CountedAs s batch x x'' := by
  have hid := h.id
  rcases h' with rfl | ⟨n, hn, hcounts, rfl⟩
  · exact h
  · refine .inr ⟨n, hn, hid ▸ hcounts, ?_⟩
    rcases h with rfl | ⟨_, -, -, rfl⟩ <;> rfl

/-- A deposit for which a number was found keeps its confirmations and its status. -/
def Keeps (s : Searches) (batch : List PendingDeposit) (r r' : Deposit) : Prop :=
  r'.id = r.id ∧
    ∀ n, Counts s batch r.id n → r'.confirmations = r.confirmations ∧ r'.status = r.status

theorem Keeps.refl (r : Deposit) : Keeps s batch r r := ⟨rfl, fun _ _ => ⟨rfl, rfl⟩⟩

theorem Keeps.trans {r r' r'' : Deposit} (h : Keeps s batch r r') (h' : Keeps s batch r' r'') :
    Keeps s batch r r'' := by
  refine ⟨h'.1.trans h.1, fun n hn => ?_⟩
  obtain ⟨hcount, hstatus⟩ := h.2 n hn
  obtain ⟨hcount', hstatus'⟩ := h'.2 n (h.1 ▸ hn)
  exact ⟨hcount'.trans hcount, hstatus'.trans hstatus⟩

/-- What the programs of a job do. -/
structure Counting (s : Searches) (batch : List PendingDeposit) (w w' : World) : Prop where
  withdrawals : List.Forall₂ (CountedAs s batch) w.wallets.db.tbl_withdrawal.rows
    w'.wallets.db.tbl_withdrawal.rows
  deposits : List.Forall₂ (Keeps s batch) w.tbl_deposit.rows w'.tbl_deposit.rows

/-- A call that touches neither table. -/
theorem Counting.of_eq
    (hw : w'.wallets.db.tbl_withdrawal = w.wallets.db.tbl_withdrawal)
    (hd : w'.tbl_deposit = w.tbl_deposit) : Counting s batch w w' := by
  constructor
  · rw [hw]
    exact List.forall₂_same.mpr fun _ _ => .inl rfl
  · rw [hd]
    exact List.forall₂_same.mpr fun _ _ => Keeps.refl _

theorem Counting.refl (w : World) : Counting s batch w w := .of_eq rfl rfl

theorem Counting.trans {w w' w'' : World} (h : Counting s batch w w')
    (h' : Counting s batch w' w'') : Counting s batch w w'' :=
  ⟨rowwise_trans (fun _ _ _ => CountedAs.trans) h.withdrawals h'.withdrawals,
    rowwise_trans (fun _ _ _ => Keeps.trans) h.deposits h'.deposits⟩

theorem safe_op {o : Op} {Q : Except Err o.Res → World → Prop}
    (h : ∀ w', Counting s batch w' (s.perform o w').2 ∧ Q (s.perform o w').1 (s.perform o w').2) :
    Safe s.perform (fun _ => true) (Counting s batch) Q (call o) w :=
  Safe.call fun w' _ => h w'

/-- A call that touches neither table, whatever it answers. -/
theorem safe_quiet {o : Op}
    (hw : ∀ w' : World, (s.perform o w').2.wallets.db.tbl_withdrawal = w'.wallets.db.tbl_withdrawal)
    (hd : ∀ w' : World, (s.perform o w').2.tbl_deposit = w'.tbl_deposit) :
    Safe s.perform (fun _ => true) (Counting s batch) (fun _ _ => True) (call o) w :=
  safe_op fun w' => ⟨.of_eq (hw w') (hd w'), trivial⟩

/-- A write to a deposit that leaves the numbers and the status of those that were counted. -/
theorem counting_updateDeposit {id : Nat} {data : DepositData} (w : World)
    (h : ∀ n, Counts s batch id n → ∀ r : Deposit,
      (data.write r).confirmations = r.confirmations ∧ (data.write r).status = r.status) :
    Counting s batch w (s.perform (.updateDepositById id data) w).2 := by
  refine ⟨List.forall₂_same.mpr fun _ _ => .inl rfl, ?_⟩
  refine rowwise_modify data.id_write (fun r _ => Keeps.refl r) fun r _ hid => ?_
  exact ⟨data.id_write r, fun n hn => h n (hid ▸ hn) r⟩

theorem batch_nodup (w : World) (chosen : Deposit → Bool) :
    ((w.batch chosen).map PendingDeposit.id).Nodup := by
  unfold World.batch
  rw [List.map_map]
  exact w.tbl_deposit.nodup.sublist (List.filter_sublist.map _)

/-- One search is made for a row. -/
theorem counts_iff (hnd : (batch.map PendingDeposit.id).Nodup) (hv : v ∈ batch) (n : Nat) :
    Counts s batch v.id n ↔ s.found v.row = .ok (.number n) := by
  constructor
  · rintro ⟨v', hv', hid, hfound⟩
    obtain rfl : v' = v := List.inj_on_of_nodup_map hnd hv' hv hid
    exact hfound
  · exact fun hfound => ⟨v, hv, rfl, hfound⟩

/-- The withdrawal with the id of a row has the number that was found for the row. -/
def Told (s : Searches) (v : PendingDeposit) (w : World) : Prop :=
  ∀ n, n ≠ 0 → s.found v.row = .ok (.number n) →
    ∀ x ∈ w.wallets.db.tbl_withdrawal.rows, x.id = v.id → x.confirmations = n

theorem Told.stable (hnd : (batch.map PendingDeposit.id).Nodup) (hv : v ∈ batch)
    (h : Counting s batch w w') (hs : Told s v w) : Told s v w' := by
  intro n hn hfound x' hx' hid
  obtain ⟨x, hx, hcounted⟩ := rowwise_left h.withdrawals hx'
  have hxid : x.id = v.id := hcounted.id.symm.trans hid
  rcases hcounted with rfl | ⟨n', -, hcounts, rfl⟩
  · exact hs n hn hfound x' hx hid
  · rw [hxid, counts_iff hnd hv, hfound] at hcounts
    cases hcounts
    rfl

/-- The number that was found goes to the withdrawal with the id of the deposit. -/
theorem counted_spec (hv : v ∈ batch) {n : Nat} (hn : n ≠ 0)
    (hfound : s.found v.row = .ok (.number n)) (w : World) :
    Counting s batch w (s.perform (.updateWtihdrawalById v.id (.confirmations n)) w).2 ∧
      Told s v (s.perform (.updateWtihdrawalById v.id (.confirmations n)) w).2 := by
  refine ⟨⟨?_, List.forall₂_same.mpr fun _ _ => Keeps.refl _⟩, ?_⟩
  · refine rowwise_modify (WithdrawalData.id_write _) (fun _ _ => .inl rfl) fun x _ hid => ?_
    exact .inr ⟨n, hn, ⟨v, hv, hid.symm, hfound⟩, rfl⟩
  · intro n' hn' hfound' x' hx' hid
    rw [hfound] at hfound'
    cases hfound'
    obtain ⟨x, -, rfl⟩ := List.mem_map.mp hx'
    split at hid
    · next hx =>
      rw [if_pos hx]
      rfl
    · next hx => exact absurd hid hx

theorem deleteOld_safe (v : PendingDeposit) (w : World) :
    Safe s.perform (fun _ => true) (Counting s batch) (fun _ _ => True) (deleteOld v.row) w := by
  unfold deleteOld
  apply Safe.seq_any
  · exact safe_quiet (fun _ => rfl) fun _ => rfl
  · intro now w' _
    split
    · apply safe_op
      exact fun w'' => ⟨counting_updateDeposit w'' fun _ _ _ => ⟨rfl, rfl⟩, trivial⟩
    · trivial

/-- The job does not know the amount, so the wallet is refused and the program raises. -/
theorem updateDepositlWithStatus_safe (hnd : (batch.map PendingDeposit.id).Nodup) (hv : v ∈ batch)
    {t : Transaction} (hfound : s.found v.row = .ok (.transaction t)) (status : Status)
    (reason : String) (confirmations : Nat) (from_address transaction_hash : String) (w : World) :
    Safe s.perform (fun _ => true) (Counting s batch) (fun _ _ => True)
      (updateDepositlWithStatus v.row status reason confirmations from_address transaction_hash)
      w := by
  unfold updateDepositlWithStatus
  apply Safe.seq_any
  · apply safe_op (Q := fun _ _ => True)
    refine fun w' => ⟨counting_updateDeposit w' fun n hn => ?_, trivial⟩
    have hnumber := (counts_iff hnd hv n).mp hn
    rw [hfound] at hnumber
    cases hnumber
  · intro _ w' _
    split
    · have hdecrement : updateWallet v.row.user_id v.row.amount v.row.to_address v.row.coin
          v.row.network "inc" = call (.decrementWallet
            ⟨v.row.user_id, v.row.network, some v.row.to_address⟩ (mainColumn v.row.coin.name)
            none) := by
        unfold updateWallet
        rw [if_neg (by decide)]
        rfl
      rw [hdecrement]
      have hrefused : ∀ w'', s.perform (.decrementWallet
          ⟨v.row.user_id, v.row.network, some v.row.to_address⟩ (mainColumn v.row.coin.name)
          none) w'' = (.error .rejected, w'') := fun w'' => perform_decrementWallet _ _
      have hcall : Safe s.perform (fun _ => true) (Counting s batch)
          (fun r _ => r = .error .rejected) (call (.decrementWallet
            ⟨v.row.user_id, v.row.network, some v.row.to_address⟩ (mainColumn v.row.coin.name)
            none)) w' := by
        apply safe_op
        intro w''
        rw [hrefused]
        exact ⟨Counting.refl _, rfl⟩
      apply Safe.seq hcall
      · exact fun _ _ _ => trivial
      · intro _ _ h
        cases h
    · trivial

/-- The search answers what there is to find. -/
theorem search_safe (v : PendingDeposit) (w : World) :
    Safe s.perform (fun _ => true) (Counting s batch) (fun r _ => r = s.found v.row)
      (call (.findTransactionForDeposit v.row)) w :=
  safe_op fun w' => ⟨Counting.refl w', rfl⟩

/-- The program of a row changes no number of a deposit, whatever is found. -/
theorem processDepositRow_any (hnd : (batch.map PendingDeposit.id).Nodup) (hv : v ∈ batch)
    (w : World) :
    Safe s.perform (fun _ => true) (Counting s batch) (fun _ _ => True)
      (processDepositRow v.row) w := by
  unfold processDepositRow
  apply Safe.tryCatch_any
  · apply Safe.seq_any (search_safe v w)
    intro found w' hfound
    cases found with
    | nothing => exact deleteOld_safe v w'
    | number n =>
      cases n with
      | zero => exact deleteOld_safe v w'
      | succ n =>
        apply safe_op
        exact fun w'' => ⟨(counted_spec hv (Nat.succ_ne_zero n) hfound.symm w'').1, trivial⟩
    | transaction t => exact updateDepositlWithStatus_safe hnd hv hfound.symm _ _ _ _ _ w'
  · exact fun e w' => safe_quiet (fun _ => rfl) fun _ => rfl

/-- A number that is found is told. -/
theorem processDepositRow_told (hv : v ∈ batch) {n : Nat} (hn : n ≠ 0)
    (hfound : s.found v.row = .ok (.number n)) (w : World) :
    Safe s.perform (fun _ => true) (Counting s batch) (fun _ w' => Told s v w')
      (processDepositRow v.row) w := by
  unfold processDepositRow
  apply Safe.tryCatch
  apply Safe.bind
  apply (search_safe v w).mono
  rintro _ w' rfl
  rw [hfound]
  cases n with
  | zero => exact absurd rfl hn
  | succ n =>
    apply safe_op
    exact fun w'' => counted_spec hv hn hfound w''

/-- **The program of a row** changes no number of a deposit, and gives the one it found to
the withdrawal with the id of the row. -/
theorem processDepositRow_safe (hnd : (batch.map PendingDeposit.id).Nodup) (hv : v ∈ batch)
    (w : World) :
    Safe s.perform (fun _ => true) (Counting s batch) (fun _ w' => Told s v w')
      (processDepositRow v.row) w := by
  by_cases hnumber : ∃ n, n ≠ 0 ∧ s.found v.row = .ok (.number n)
  · obtain ⟨n, hn, hfound⟩ := hnumber
    exact processDepositRow_told hv hn hfound w
  · apply (processDepositRow_any hnd hv w).mono
    exact fun _ w' _ n hn hfound => absurd ⟨n, hn, hfound⟩ hnumber

end Row

/-! ## The whole job -/

section Job

variable {s : Searches} {w : World} {chosen : Deposit → Bool} {schedule : List Nat}

theorem mem_batch {v : PendingDeposit} : v ∈ w.batch chosen ↔
    ∃ r ∈ w.tbl_deposit.rows, r.status = .Pending ∧ chosen r = true ∧ selectDeposit r = v := by
  simp only [World.batch, List.mem_map, List.mem_filter, decide_eq_true_eq, and_assoc]

theorem processDeposit_each (s : Searches) (w : World) (chosen : Deposit → Bool)
    (schedule : List Nat) :
    Counting s (w.batch chosen) w (processDeposit s (w.batch chosen) w schedule).world ∧
      (processDeposit s (w.batch chosen) w schedule).EachSafe s.perform (fun _ => true)
        (Counting s (w.batch chosen)) (fun i _ w' =>
          ∀ v, (w.batch chosen)[i]? = some v → Told s v w') := by
  have hnd := batch_nodup w chosen
  unfold processDeposit
  apply Pool.run_each (H := s.perform)
    (p := ⟨w, (w.batch chosen).map fun v => processDepositRow v.row⟩)
    Counting.refl (fun _ _ _ => Counting.trans)
  · intro i _ a b hab hQ v hv
    exact (hQ v hv).stable hnd (List.mem_of_getElem? hv) hab
  · intro i t hi
    rw [List.getElem?_map] at hi
    obtain ⟨v, hv, rfl⟩ := Option.map_eq_some_iff.mp hi
    refine ⟨rfl, ?_⟩
    apply (processDepositRow_safe hnd (List.mem_of_getElem? hv) w).mono
    intro _ w' htold v' hv'
    obtain rfl : v = v' := Option.some.inj (hv.symm.trans hv')
    exact htold

/-- Each row of the batch has told its number when the job has ended. -/
theorem processDeposit_told
    (hended : (processDeposit s (w.batch chosen) w schedule).Ended) {v : PendingDeposit}
    (hv : v ∈ w.batch chosen) :
    Told s v (processDeposit s (w.batch chosen) w schedule).world := by
  obtain ⟨i, hi, hget⟩ := List.getElem_of_mem hv
  have hlength : i < (processDeposit s (w.batch chosen) w schedule).threads.length := by
    unfold processDeposit
    rw [Pool.length_run, List.length_map]
    exact hi
  obtain ⟨r, hQ⟩ := (processDeposit_each s w chosen schedule).2.outcome hended
    (List.getElem?_eq_getElem hlength)
  exact hQ v (by rw [List.getElem?_eq_getElem hi, hget])

/-- **A job over deposits touches only deposits**, and counts them, iff there is nothing to
count any more. -/
theorem onlyDeposits_iff (hended : (processDeposit s (w.batch chosen) w schedule).Ended) :
    OnlyDeposits s (w.batch chosen) w (processDeposit s (w.batch chosen) w schedule).world ↔
      AlreadyCounted s (w.batch chosen) w := by
  have hnd := batch_nodup w chosen
  have hcounting := (processDeposit_each s w chosen schedule).1
  constructor
  · intro h v hv n hfound
    refine ⟨fun r hr hid => ?_, fun hn x hx hid => ?_⟩
    · -- the deposit kept its number
      obtain ⟨r', hr', hid', hcount, -⟩ := h.counted v hv n hfound
      obtain ⟨r₀, hr₀, hkeeps⟩ := rowwise_left hcounting.deposits hr'
      obtain rfl : r₀ = r := Table.eq_of_key hr₀ hr (hkeeps.1.symm.trans (hid'.trans hid.symm))
      rw [← (hkeeps.2 n (hid ▸ (counts_iff hnd hv n).mpr hfound)).1]
      exact hcount
    · have htold := processDeposit_told hended hv n hn hfound
      rw [h.withdrawals] at htold
      exact htold x hx hid
  · intro h
    constructor
    · refine rowwise_eq hcounting.withdrawals fun x hx x' hcounted => ?_
      rcases hcounted with rfl | ⟨n, hn, ⟨v, hv, hid, hfound⟩, rfl⟩
      · rfl
      · rw [← (h v hv n hfound).2 hn x hx hid.symm]
    · intro v hv n hfound
      obtain ⟨r, hr, hpending, -, rfl⟩ := mem_batch.mp hv
      obtain ⟨r', hr', hkeeps⟩ := rowwise_right hcounting.deposits hr
      obtain ⟨hcount, hstatus⟩ := hkeeps.2 n ((counts_iff hnd hv n).mpr hfound)
      exact ⟨r', hr', hkeeps.1, hcount.trans ((h _ hv n hfound).1 r hr rfl),
        hstatus.trans hpending⟩

end Job

/-! ## Five confirmations -/

/-- Five confirmations are found for every deposit. -/
def Searches.five : Searches := ⟨0, fun _ => .ok (.number 5)⟩

/-- A deposit of user 1, with this number of confirmations. -/
def World.counting (confirmations : Nat) : World :=
  { World.deposited 5 with
    tbl_deposit := (Table.empty Deposit.id).insert
      { Deposit.usdt 5 with confirmations := confirmations } rfl }

/-- There is also withdrawal 1, of another user. -/
def World.both : World :=
  (World.counting 0).withDb
    ((World.counting 0).wallets.db.saveWithdrawal
      ⟨8, some "0xb", "0xc", .USDT, "BEP20", 3, some "0x9", .Pending⟩)

/-- A deposit that has its number already. -/
theorem onlyDeposits_counted :
    OnlyDeposits .five ((World.counting 5).batch fun _ => true) (.counting 5)
      (processDeposit .five ((World.counting 5).batch fun _ => true) (.counting 5)
        [0, 0]).world := by
  apply (onlyDeposits_iff _).mpr
  · intro v hv n hfound
    cases hfound
    refine ⟨fun r hr _ => ?_, fun _ x hx => ?_⟩
    · rw [List.mem_singleton.mp hr]
    · cases hx
  · intro t ht
    obtain rfl := List.mem_singleton.mp ht
    exact .inl ⟨(), rfl⟩

/-- The five confirmations of the deposit go to the withdrawal of user 8. -/
theorem withdrawal_counted :
    (processDeposit .five (World.both.batch fun _ => true) .both [0, 0]).Ended ∧
      ¬ OnlyDeposits .five (World.both.batch fun _ => true) .both
        (processDeposit .five (World.both.batch fun _ => true) .both [0, 0]).world := by
  constructor
  · intro t ht
    obtain rfl := List.mem_singleton.mp ht
    exact .inl ⟨(), rfl⟩
  · intro h
    have hrows := congrArg (List.map Withdrawal.confirmations) h.withdrawals
    revert hrows
    decide +kernel

end Exchange.Settlement
