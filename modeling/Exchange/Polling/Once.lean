import Exchange.Polling.Deposits
import Exchange.Wallets.Credits

/-!
# Deposits settle once

No row leaves `Pending` twice, whatever overlaps: nothing makes a row pending
again. No wallet is credited at all, since the jobs do not know the amount. But
two rows that are pending for one address are both settled with the one
transaction that is found there (`two_rows_one_transaction`).

The program of a row settles it with what was found for that row (`Allowed`), so
it is enough that no transaction is found for two rows.
-/

namespace Exchange.Polling

open Async Proc Store Wallets Settlement

/-! ## What the programs call -/

/-- What a program may call that runs after `found` was found. -/
def DepositOp.Allowed (found : List (Nat × String)) : DepositOp → Prop
  | .settle (.updateDepositById id (.status status _ _ _ hash)) =>
      (id, hash) ∈ found ∧ status ≠ .Pending
  | .settle (.incrementWallet _ _ amount) | .settle (.decrementWallet _ _ amount)
  | .settle (.incrementAddress _ amount) | .settle (.decrementAddress _ amount) => amount = none
  | .settle (.findTransactionForDeposit _) => False
  | _ => True

def Allowed (found : List (Nat × String)) : Op deposits → Prop
  | .other x => x.Allowed found
  | _ => True

/-- What a request calls. -/
def DepositOp.OfRequest : DepositOp → Prop
  | .settle _ => False
  | _ => True

def OfRequest : Op deposits → Prop
  | .save _ | .startCron => True
  | .other x => DepositOp.OfRequest x
  | _ => False

theorem calls_saveDeposit (obj : NewDeposit) : Calls OfRequest (saveDeposit obj) := by
  refine Calls.bind (Calls.call trivial) fun _ => ?_
  unfold saved
  split
  · exact Calls.call trivial
  · trivial

theorem calls_currentBlock (network : String) : Calls OfRequest (currentBlock network) := by
  apply Calls.tryCatch
  · exact Calls.bind (Calls.call trivial) fun _ => trivial
  · intro error
    refine Calls.bind (Calls.call trivial) fun _ => ?_
    exact Calls.bind (Calls.call trivial) fun _ => trivial

theorem calls_request (dto : DepositDto) : Calls OfRequest (request dto) := by
  refine Calls.bind (Calls.tryCatch ?_ fun error => ?_) fun _ => trivial
  · refine Calls.bind (Calls.call trivial) fun alreadyExist => ?_
    split
    · trivial
    · refine Calls.bind (calls_currentBlock _) fun current_block => ?_
      split
      · exact Calls.bind (Calls.call trivial) fun _ => trivial
      · exact Calls.bind (Calls.call trivial) fun _ => trivial
      · refine Calls.tryCatch (Calls.bind (calls_saveDeposit _) fun _ => trivial) fun error => ?_
        exact Calls.bind (Calls.call trivial) fun _ => trivial
  · exact Calls.bind (Calls.call trivial) fun _ => trivial

/-- A call on the queue that neither reads rows nor adds them. -/
def OfQueue : Op deposits → Prop
  | .getPending | .add _ | .save _ | .other _ => False
  | _ => True

/-- With the rows that were read, a poll only adds them. -/
theorem calls_polled {P : Op deposits → Prop} (hqueue : ∀ o, OfQueue o → P o)
    {rows : List PendingDeposit} (hadd : P (.add rows)) :
    Calls P (polled rows : Prog deposits Unit) := by
  unfold polled
  split
  · refine Calls.bind (Calls.call (hqueue _ trivial)) fun job => ?_
    cases job with
    | none =>
      refine Calls.bind (Calls.call hadd) fun job => ?_
      refine Calls.bind (Calls.call (hqueue _ trivial)) fun _ => ?_
      exact Calls.call (hqueue _ trivial)
    | some job => trivial
  · refine Calls.bind (Calls.call (hqueue _ trivial)) fun _ => ?_
    exact Calls.call (hqueue _ trivial)

theorem calls_watcher {P : Op deposits → Prop} (hqueue : ∀ o, OfQueue o → P o) (job : Nat) :
    Calls P (watcher job : Prog deposits Unit) := by
  refine Calls.bind (Calls.call (hqueue _ trivial)) fun _ => ?_
  refine Calls.bind (Calls.call (hqueue _ trivial)) fun job => ?_
  cases job with
  | none => trivial
  | some job => exact Calls.call (hqueue _ trivial)

section Calls

variable {found found' : List (Nat × String)}

theorem allowed_mono (h : found ⊆ found') (o : Op deposits) (ho : Allowed found o) :
    Allowed found' o := by
  rcases o with _ | _ | _ | _ | _ | _ | _ | _ | _ | x
  case other =>
    rcases (x : DepositOp) with o | _ | _ | _ | _
    case settle =>
      cases o with
      | updateDepositById id data =>
        cases data with
        | status status reason count sender hash => exact ⟨h ho.1, ho.2⟩
        | deleted => trivial
      | _ => exact ho
    all_goals trivial
  all_goals trivial

theorem allowed_of_queue (o : Op deposits) (ho : OfQueue o) : Allowed found o := by
  cases o with
  | other x => exact ho.elim
  | _ => trivial

theorem allowed_initiateJob : Calls (Allowed found) (initiateJob : Prog deposits Unit) :=
  Calls.bind (Calls.call trivial) fun _ => calls_polled allowed_of_queue trivial

theorem allowed_of_request (o : Op deposits) (ho : OfRequest o) : Allowed found o := by
  rcases o with _ | _ | _ | _ | _ | _ | _ | _ | _ | x
  case other =>
    rcases (x : DepositOp) with o | _ | _ | _ | _
    case settle => exact ho.elim
    all_goals trivial
  all_goals trivial

/-- What the look-up of row `v` adds to what was found. -/
def foundAfter (found : List (Nat × String)) (v : PartialDeposit) :
    Except Err Found → List (Nat × String)
  | .ok (.transaction t) => found ++ [(v.id, t.hash)]
  | _ => found

theorem allowed_deleteOld (v : PartialDeposit) :
    Calls (fun o => DepositOp.Allowed found (.settle o)) (deleteOld v) := by
  refine Calls.bind (Calls.call trivial) fun now => ?_
  split
  · exact Calls.call trivial
  · trivial

theorem allowed_update {v : PartialDeposit} (hv : v.amount = none) {status : Status}
    (reason : String) (confirmations : Nat) (from_address : String) {hash : String}
    (hfound : (v.id, hash) ∈ found) (hstatus : status ≠ .Pending) :
    Calls (fun o => DepositOp.Allowed found (.settle o))
      (updateDepositlWithStatus v status reason confirmations from_address hash) := by
  refine Calls.bind (Calls.call ⟨hfound, hstatus⟩) fun _ => ?_
  split
  · refine Calls.bind ?_ fun _ => ?_
    · unfold updateWallet
      split <;> exact Calls.call hv
    · refine Calls.bind (Calls.call trivial) fun _ => ?_
      split <;> exact Calls.call hv
  · trivial

/-- A row is looked for once, and settled with what was found. -/
theorem rowProgram_calls (v : PendingDeposit) :
    ∃ k, rowProgram v = .op (.other (.settle (.findTransactionForDeposit v.row))) k ∧
      ∀ found r, Calls (Allowed (foundAfter found v.row r)) (k r) := by
  refine ⟨_, rfl, fun found r => ?_⟩
  have hsettle : ∀ o : Settlement.Op, DepositOp.Allowed (foundAfter found v.row r) (.settle o) →
      Allowed (foundAfter found v.row r) (.other (.settle o)) := fun o ho => ho
  refine Calls.embed hsettle ?_
  refine Calls.tryCatch ?_ fun error => Calls.call trivial
  cases r with
  | error e => trivial
  | ok transaction =>
    cases transaction with
    | nothing => exact allowed_deleteOld v.row
    | number count =>
      cases count with
      | zero => exact allowed_deleteOld v.row
      | succ count => exact Calls.call trivial
    | transaction t =>
      refine allowed_update rfl _ _ t.from_address (List.mem_append_right _ ?_) ?_
      · exact List.mem_singleton.mpr rfl
      · split <;> nofun

/-- Only watchers are started within the process. -/
theorem allowed_effect (o : Op deposits) (w : World deposits) :
    ∀ p ∈ (effect o w).2.2, Calls (Allowed found) p := by
  intro p hp
  cases o with
  | watch job =>
    rw [List.mem_singleton.mp hp]
    exact calls_watcher allowed_of_queue job
  | _ => cases hp

end Calls

/-! ## What a call does to the store -/

/-- What has been settled was found for that row, nothing was found for two rows,
and a row that has left `Pending` did so once and is not pending. -/
structure DepositStore.Sound (s : DepositStore) : Prop where
  settled : s.journal.settled ⊆ s.journal.found
  once : ∀ hash i j, (i, hash) ∈ s.journal.found → (j, hash) ∈ s.journal.found → i = j
  left : s.journal.left.Nodup
  gone : ∀ id ∈ s.journal.left, id < s.settlement.tbl_deposit.next ∧ s.isPending id = false

/-- A call that finds nothing and credits nothing. -/
structure DepositStore.Follows (s s' : DepositStore) : Prop where
  sound : s.Sound → s'.Sound
  found : s'.journal.found = s.journal.found
  tbl_wallet : s'.settlement.wallets.db.tbl_wallet = s.settlement.wallets.db.tbl_wallet
  address_balance :
    s'.settlement.wallets.db.address_balance = s.settlement.wallets.db.address_balance

section Store

variable {s s' : DepositStore}

theorem DepositStore.Follows.refl (s : DepositStore) : s.Follows s := ⟨id, rfl, rfl, rfl⟩

/-- Neither deposits nor wallets are written, nor the journal. -/
theorem DepositStore.Follows.of_eq
    (hdeposits : s'.settlement.tbl_deposit = s.settlement.tbl_deposit)
    (hjournal : s'.journal = s.journal)
    (hwallet : s'.settlement.wallets.db.tbl_wallet = s.settlement.wallets.db.tbl_wallet)
    (haddress :
      s'.settlement.wallets.db.address_balance = s.settlement.wallets.db.address_balance) :
    s.Follows s' where
  sound := by
    intro h
    obtain ⟨hsettled, honce, hleft, hgone⟩ := h
    constructor <;> simp only [isPending, hdeposits, hjournal]
    · exact hsettled
    · exact honce
    · exact hleft
    · exact hgone
  found := by rw [hjournal]
  tbl_wallet := hwallet
  address_balance := haddress

theorem DepositStore.isPending_iff {id : Nat} : s.isPending id = true ↔
    ∃ r ∈ s.settlement.tbl_deposit.rows, r.id = id ∧ r.status = .Pending := by
  simp [isPending]

/-- A new row is pending, and its id is new. -/
theorem DepositStore.follows_insert (obj : NewDeposit) (s : DepositStore) :
    s.Follows (insertDeposit obj s) where
  sound := by
    intro h
    refine ⟨h.settled, h.once, h.left, fun id hid => ?_⟩
    obtain ⟨hlt, hgone⟩ := h.gone id hid
    refine ⟨lt_of_lt_of_le hlt (Nat.le_max_left _ _), ?_⟩
    rw [Bool.eq_false_iff] at hgone ⊢
    intro hpending
    obtain ⟨r, hr, hrid, hstatus⟩ := isPending_iff.mp hpending
    rcases List.mem_append.mp hr with hr | hr
    · exact hgone (isPending_iff.mpr ⟨r, hr, hrid, hstatus⟩)
    · rw [List.mem_singleton.mp hr] at hrid
      exact absurd hrid (Nat.ne_of_gt hlt)
  found := rfl
  tbl_wallet := rfl
  address_balance := rfl

theorem DepositStore.isPending_modify {id i : Nat} {data : DepositData}
    (hdata : ∀ r, (data.write r).status = .Pending → r.status = .Pending)
    (h : (s.modify id data).isPending i = true) : s.isPending i = true := by
  obtain ⟨r, hr, hid, hstatus⟩ := isPending_iff.mp h
  obtain ⟨r₀, hr₀, rfl⟩ := mem_modify.mp hr
  refine isPending_iff.mpr ⟨r₀, hr₀, ?_⟩
  split at hid
  · rename_i hrow
    rw [if_pos hrow] at hstatus
    exact ⟨data.id_write r₀ ▸ hid, hdata r₀ hstatus⟩
  · rename_i hrow
    rw [if_neg hrow] at hstatus
    exact ⟨hid, hstatus⟩

theorem DepositStore.not_isPending_modify {id : Nat} {status : Status}
    {reason sender hash : String} {count : Nat} (hstatus : status ≠ .Pending) :
    (s.modify id (.status status reason count sender hash)).isPending id = false := by
  rw [Bool.eq_false_iff]
  intro h
  obtain ⟨r, hr, hid, hpending⟩ := isPending_iff.mp h
  obtain ⟨r₀, hr₀, rfl⟩ := mem_modify.mp hr
  split at hid
  · rename_i hrow
    rw [if_pos hrow] at hpending
    exact hstatus hpending
  · contradiction

/-- A row is deleted. -/
theorem DepositStore.follows_deleted (s : DepositStore) (id : Nat) :
    s.Follows (s.modify id .deleted) where
  sound := by
    intro h
    have hdata : ∀ r, (DepositData.deleted.write r).status = .Pending →
        r.status = .Pending := fun _ h => h
    refine ⟨h.settled, h.once, h.left, fun i hi => ⟨(h.gone i hi).1, ?_⟩⟩
    rw [Bool.eq_false_iff]
    intro hpending
    exact Bool.eq_false_iff.mp (h.gone i hi).2 (isPending_modify hdata hpending)
  found := rfl
  tbl_wallet := rfl
  address_balance := rfl

/-- A row is settled with what was found for it. -/
theorem DepositStore.follows_status (s : DepositStore) {id : Nat} {status : Status}
    {reason sender hash : String} {count : Nat} (hfound : (id, hash) ∈ s.journal.found)
    (hstatus : status ≠ .Pending) :
    s.Follows { s.modify id (.status status reason count sender hash) with
      journal := { s.journal with
        left := if s.isPending id = true ∧ status ≠ .Pending then s.journal.left ++ [id]
          else s.journal.left
        settled := if s.has id then s.journal.settled ++ [(id, hash)]
          else s.journal.settled } } where
  sound := by
    intro h
    have hkeeps : ∀ i, s.isPending i = false →
        (s.modify id (.status status reason count sender hash)).isPending i = false := by
      have hdata : ∀ r, ((DepositData.status status reason count sender hash).write r).status =
          .Pending → r.status = .Pending := fun _ h => absurd h hstatus
      intro i hi
      rw [Bool.eq_false_iff] at hi ⊢
      exact fun hpending => hi (isPending_modify hdata hpending)
    have hgone : ∀ i ∈ s.journal.left, i < s.settlement.tbl_deposit.next ∧
        (s.modify id (.status status reason count sender hash)).isPending i = false :=
      fun i hi => ⟨(h.gone i hi).1, hkeeps i (h.gone i hi).2⟩
    constructor
    · dsimp only
      split
      · refine List.append_subset.mpr ⟨h.settled, fun x hx => ?_⟩
        exact List.mem_singleton.mp hx ▸ hfound
      · exact h.settled
    · exact h.once
    · dsimp only
      split
      · rename_i hleaves
        refine List.nodup_append.mpr ⟨h.left, List.nodup_singleton id, ?_⟩
        rintro i hi j hj rfl
        have hnot := (h.gone i hi).2
        rw [List.mem_singleton.mp hj, hleaves.1] at hnot
        cases hnot
      · exact h.left
    · dsimp only
      split
      · rename_i hleaves
        intro i hi
        rcases List.mem_append.mp hi with hi | hi
        · exact hgone i hi
        · obtain ⟨r, hr, hid, -⟩ := isPending_iff.mp hleaves.1
          have hlt : id < s.settlement.tbl_deposit.next :=
            hid ▸ s.settlement.tbl_deposit.fresh r hr
          rw [List.mem_singleton.mp hi]
          exact ⟨hlt, not_isPending_modify hstatus⟩
      · exact hgone
  found := rfl
  tbl_wallet := rfl
  address_balance := rfl

/-- A statement that fails or writes neither deposits nor wallets. -/
theorem reply_frame {a : Settlement.Answers} {o : Settlement.Op} {w w' : Settlement.World}
    {A : Type} {r : A} (hdeposits : w'.tbl_deposit = w.tbl_deposit)
    (hwallet : w'.wallets.db.tbl_wallet = w.wallets.db.tbl_wallet)
    (haddress : w'.wallets.db.address_balance = w.wallets.db.address_balance) :
    (w.reply a o r w').2.tbl_deposit = w.tbl_deposit ∧
      (w.reply a o r w').2.wallets.db.tbl_wallet = w.wallets.db.tbl_wallet ∧
      (w.reply a o r w').2.wallets.db.address_balance = w.wallets.db.address_balance := by
  unfold Settlement.World.reply
  split
  · exact ⟨rfl, rfl, rfl⟩
  · exact ⟨hdeposits, hwallet, haddress⟩

/-- A statement that leaves the deposits, whether it is refused or not. -/
theorem statement_deposits {a : Settlement.Answers} {o : Settlement.Op} {w : Settlement.World}
    {r : Option Settlement.World} (hr : ∀ w', r = some w' → w'.tbl_deposit = w.tbl_deposit) :
    (w.statement a o r).2.tbl_deposit = w.tbl_deposit := by
  rcases Settlement.World.statement_cases o r with h | h
  · rw [h]
  · exact hr _ h

/-- Deposits are written by `updateDepositById` alone. -/
theorem perform_deposits (a : Settlement.Answers) (o : Settlement.Op) (w : Settlement.World)
    (hupdate : ∀ id data, o ≠ .updateDepositById id data) :
    (Settlement.World.perform a o w).2.tbl_deposit = w.tbl_deposit := by
  cases o with
  | updateDepositById id data => exact absurd rfl (hupdate id data)
  | receipt | findTransactionForDeposit | date | saveError => rfl
  | updateWithdrawals | findWithdrawal | updateWtihdrawalById | findTokenAddressBalance =>
    simp only [Settlement.World.perform, Settlement.World.reply]
    split <;> rfl
  | incrementWallet | decrementWallet | incrementAddress | decrementAddress =>
    apply statement_deposits
    intro w' h
    obtain ⟨t, -, rfl⟩ := Option.map_eq_some_iff.mp h
    rfl

/-- The calls of a row's program other than its writes to deposits. -/
theorem perform_frame (a : Settlement.Answers) {found : List (Nat × String)} {o : Settlement.Op}
    (w : Settlement.World) (ho : DepositOp.Allowed found (.settle o))
    (hupdate : ∀ id data, o ≠ .updateDepositById id data) :
    (Settlement.World.perform a o w).2.tbl_deposit = w.tbl_deposit ∧
      (Settlement.World.perform a o w).2.wallets.db.tbl_wallet = w.wallets.db.tbl_wallet ∧
      (Settlement.World.perform a o w).2.wallets.db.address_balance =
        w.wallets.db.address_balance := by
  cases o with
  | receipt | date | saveError => exact ⟨rfl, rfl, rfl⟩
  | findTransactionForDeposit v => cases ho
  | updateWithdrawals | findWithdrawal | findTokenAddressBalance => exact reply_frame rfl rfl rfl
  | updateWtihdrawalById id data => cases data <;> exact reply_frame rfl rfl rfl
  | updateDepositById id data => exact absurd rfl (hupdate id data)
  | incrementWallet c column amount =>
    obtain rfl : amount = none := ho
    simp only [Settlement.World.perform, incrementWallet_none]
    exact ⟨rfl, rfl, rfl⟩
  | decrementWallet c column amount =>
    obtain rfl : amount = none := ho
    rw [perform_decrementWallet]
    exact ⟨rfl, rfl, rfl⟩
  | incrementAddress c amount =>
    obtain rfl : amount = none := ho
    exact ⟨rfl, rfl, rfl⟩
  | decrementAddress c amount =>
    obtain rfl : amount = none := ho
    exact ⟨rfl, rfl, rfl⟩

theorem DepositStore.note_of_ne {j : Journal} {o : Settlement.Op} {r : Except Err o.Res}
    (hfind : ∀ v, o ≠ .findTransactionForDeposit v)
    (hupdate : ∀ id data, o ≠ .updateDepositById id data) : s.note j o r = j := by
  cases o with
  | findTransactionForDeposit v => exact absurd rfl (hfind v)
  | updateDepositById id data => exact absurd rfl (hupdate id data)
  | _ => rfl

/-- An allowed call of a row's program. -/
theorem DepositStore.follows_settle (e : DepositReply) (o : Settlement.Op) (s : DepositStore)
    (ho : DepositOp.Allowed s.journal.found (.settle o)) :
    s.Follows (DepositStore.perform e (.settle o) s).2 := by
  by_cases hupdate : ∀ id data, o ≠ .updateDepositById id data
  · have hfind : ∀ v, o ≠ .findTransactionForDeposit v := by
      rintro v rfl
      exact ho
    obtain ⟨hdeposits, hwallet, haddress⟩ := perform_frame e.answers s.settlement ho hupdate
    exact .of_eq hdeposits (note_of_ne hfind hupdate) hwallet haddress
  · obtain ⟨id, data, rfl⟩ : ∃ id data, o = .updateDepositById id data := by
      simpa only [not_forall, not_not] using hupdate
    simp only [perform, Settlement.World.perform, Settlement.World.reply]
    split
    · exact .of_eq rfl (by cases data <;> rfl) rfl rfl
    · cases data with
      | status status reason count sender hash => exact s.follows_status ho.1 ho.2
      | deleted => exact s.follows_deleted id

theorem DepositStore.follows_perform (e : DepositReply) (x : DepositOp) (s : DepositStore)
    (hx : x.Allowed s.journal.found) : s.Follows (DepositStore.perform e x s).2 := by
  cases x with
  | settle o => exact s.follows_settle e o hx
  | checkForPendingDeposit =>
    simp only [perform]
    split <;> exact .refl s
  | _ => exact .refl s

/-- A look-up, when it finds a transaction that was found for no other row. -/
theorem DepositStore.sound_find (e : DepositReply) (v : PartialDeposit) (s : DepositStore)
    (h : s.Sound) (hfresh : ∀ t, e.answers.found = .ok (.transaction t) →
      ∀ id, (id, t.hash) ∈ s.journal.found → id = v.id) :
    let s' := (DepositStore.perform e (.settle (.findTransactionForDeposit v)) s).2
    s'.Sound ∧ s'.journal.found = foundAfter s.journal.found v e.answers.found ∧
      s'.settlement = s.settlement := by
  cases hfound : e.answers.found with
  | error error =>
    simp only [perform, Settlement.World.perform, hfound]
    exact ⟨h, rfl, trivial⟩
  | ok found =>
    cases found with
    | transaction t =>
      simp only [perform, Settlement.World.perform, hfound]
      refine ⟨⟨fun x hx => List.mem_append_left _ (h.settled hx), ?_, h.left, h.gone⟩, rfl, trivial⟩
      have hnew := hfresh t hfound
      intro hash i j hi hj
      simp only [note, List.mem_append, List.mem_singleton, Prod.mk.injEq] at hi hj
      rcases hi with hi | ⟨rfl, rfl⟩
      · rcases hj with hj | ⟨rfl, rfl⟩
        · exact h.once hash i j hi hj
        · exact hnew i hi
      · rcases hj with hj | ⟨rfl, -⟩
        · exact (hnew j hj).symm
        · rfl
    | _ =>
      simp only [perform, Settlement.World.perform, hfound]
      exact ⟨h, rfl, trivial⟩

end Store

/-! ## Runs -/

/-- A row that is still to be looked for, or a program that settles what was found. -/
def Placed (found : List (Nat × String)) (p : Prog deposits Unit) : Prop :=
  (∃ v, p = rowProgram v) ∨ Calls (Allowed found) p

theorem Placed.mono {found found' : List (Nat × String)} {p : Prog deposits Unit}
    (h : found ⊆ found') (hp : Placed found p) : Placed found' p :=
  hp.imp id (Calls.mono (allowed_mono h))

/-- No look-up finds a transaction that was found for another row. -/
def FreshFind (s : State deposits) (t : DepositTurn) : Prop :=
  ∀ i e p v, t = .perform i (.reply e) → s.threads[i]? = some p →
    p.next = some (.other (.settle (.findTransactionForDeposit v))) →
    ∀ transaction, e.answers.found = .ok (.transaction transaction) →
    ∀ id, (id, transaction.hash) ∈ s.world.store.journal.found → id = v.id

/-- The invariant of a run from `start`. -/
structure Settling (start : World deposits) (s : State deposits) : Prop where
  sound : s.world.store.Sound
  placed : ∀ p ∈ s.threads, Placed s.world.store.journal.found p
  tbl_wallet : s.world.store.settlement.wallets.db.tbl_wallet =
    start.store.settlement.wallets.db.tbl_wallet
  address_balance : s.world.store.settlement.wallets.db.address_balance =
    start.store.settlement.wallets.db.address_balance

section Run

variable {start w w' : World deposits} {s s' : State deposits} {t : DepositTurn}

/-- A turn after which every program is placed. -/
theorem Settling.follows (h : Settling start s) (hworld : s.world.store.Follows w.store)
    {threads : List (Prog deposits Unit)}
    (hplaced : ∀ p ∈ threads, Placed s.world.store.journal.found p) :
    Settling start ⟨w, threads⟩ where
  sound := hworld.sound h.sound
  placed := fun p hp => hworld.found.symm ▸ hplaced p hp
  tbl_wallet := hworld.tbl_wallet.trans h.tbl_wallet
  address_balance := hworld.address_balance.trans h.address_balance

theorem happen_follows {c : DepositEvent} {started : List (Prog deposits Unit)}
    (h : c.happen w = some (w', started)) (found : List (Nat × String)) :
    w.store.Follows w'.store ∧ ∀ p ∈ started, Placed found p := by
  cases c with
  | tick =>
    simp only [DepositEvent.happen, happen] at h
    split at h
    · cases h
      exact ⟨.refl _, List.forall_mem_singleton.mpr (.inr allowed_initiateJob)⟩
    · cases h
  | deposit dto =>
    cases h
    refine ⟨.refl _, List.forall_mem_singleton.mpr (.inr ?_)⟩
    exact (calls_request dto).mono allowed_of_request
  | work job =>
    obtain ⟨j, -, hj⟩ := Option.map_eq_some_iff.mp h
    cases hj
    refine ⟨.refl _, fun p hp => .inl ?_⟩
    obtain ⟨v, -, rfl⟩ := List.mem_map.mp hp
    exact ⟨v, rfl⟩
  | finish job =>
    simp only [DepositEvent.happen, happen] at h
    split at h
    · cases h
      exact ⟨.refl _, fun p hp => by cases hp⟩
    · cases h
  | fail job =>
    simp only [DepositEvent.happen, happen] at h
    split at h
    · cases h
      exact ⟨.refl _, fun p hp => by cases hp⟩
    · cases h
  | elapse time =>
    cases h
    exact ⟨.of_eq rfl rfl rfl rfl, fun p hp => by cases hp⟩

theorem answer_follows {e : Answer deposits} {o : Op deposits} {r : Except Err o.Res}
    (h : answer e o w = some (r, w')) (ho : Allowed w.store.journal.found o) :
    w.store.Follows w'.store := by
  cases o with
  | getPending =>
    simp only [answer, Option.some.injEq] at h
    split at h <;> cases h <;> exact .refl _
  | add rows =>
    simp only [answer, Option.some.injEq] at h
    split at h <;> cases h <;> exact .refl _
  | finished job =>
    simp only [answer] at h
    split at h
    · cases h
      exact .refl _
    · split at h <;> cases h
      exact .refl _
  | save obj =>
    simp only [answer, Option.some.injEq] at h
    split at h <;> cases h
    · exact .refl _
    · exact DepositStore.follows_insert obj w.store
  | other x =>
    cases e with
    | reply e =>
      cases h
      exact w.store.follows_perform e x ho
    | fails | ok =>
      cases h
      exact .refl _
  | _ => cases h

/-- A call within the process does not write the tables. -/
theorem effect_store (o : Op deposits) (w : World deposits) : (effect o w).2.1.store = w.store := by
  cases o <;> rfl

/-- The look-up of a row. -/
theorem Settling.find (h : Settling start s) {i : Nat} {e : Answer deposits} {v : PartialDeposit}
    {k : Except Err Found → Prog deposits Unit} {r : Except Err Found}
    (hi : s.threads[i]? = some (.op (.other (.settle (.findTransactionForDeposit v))) k))
    (hk : ∀ found r, Calls (Allowed (foundAfter found v r)) (k r))
    (hanswer : answer e (.other (.settle (.findTransactionForDeposit v)) : Op deposits) s.world =
      some (r, w)) (hok : FreshFind s (.perform i e)) :
    Settling start ⟨w, s.threads.set i (k r)⟩ := by
  have hplaced : ∀ found' : List (Nat × String), s.world.store.journal.found ⊆ found' →
      Placed found' (k r) → ∀ p ∈ s.threads.set i (k r), Placed found' p :=
    fun found' hsub hp => forall_mem_set (fun p hmem => (h.placed p hmem).mono hsub) hp
  cases e with
  | reply e =>
    cases hanswer
    obtain ⟨hsound, hfound, hsettlement⟩ := s.world.store.sound_find e v h.sound
      fun t ht => hok i e _ v rfl hi rfl t ht
    have hsub : s.world.store.journal.found ⊆
        foundAfter s.world.store.journal.found v e.answers.found := by
      unfold foundAfter
      split
      · exact List.subset_append_left _ _
      · exact fun _ hx => hx
    refine ⟨hsound, fun p hp => ?_, ?_, ?_⟩
    · have hp' := hplaced _ hsub (.inr (hk _ _)) p hp
      exact (congrArg (fun found => Placed found p) hfound).mpr hp'
    · rw [← h.tbl_wallet]
      exact congrArg (fun w => w.wallets.db.tbl_wallet) hsettlement
    · rw [← h.address_balance]
      exact congrArg (fun w => w.wallets.db.address_balance) hsettlement
  | fails | ok =>
    cases hanswer
    exact h.follows (.refl _) (hplaced _ (fun _ hx => hx) (.inr (hk _ (.error .rejected))))

theorem Steps.settling (hstep : depositLoop.Steps s t s') (h : Settling start s)
    (hok : FreshFind s t) : Settling start s' := by
  cases hstep with
  | idle => exact h
  | happen hc =>
    obtain ⟨hworld, hstarted⟩ := happen_follows hc s.world.store.journal.found
    exact h.follows hworld (List.forall_mem_append.mpr ⟨h.placed, hstarted⟩)
  | @perform i e o k r w hi ho hanswer =>
    rcases h.placed _ (List.mem_of_getElem? hi) with ⟨v, hv⟩ | hcalls
    · obtain ⟨k', hk', hcalls⟩ := rowProgram_calls v
      cases hv.trans hk'
      exact h.find hi hcalls hanswer hok
    · exact h.follows (answer_follows hanswer hcalls.1)
        (forall_mem_set h.placed (.inr (hcalls.2 r)))
  | @resume i o k hi ho =>
    rcases h.placed _ (List.mem_of_getElem? hi) with ⟨v, hv⟩ | hcalls
    · obtain ⟨k', hk', -⟩ := rowProgram_calls v
      cases hv.trans hk'
      cases ho
    · obtain ⟨hburst, hstarted⟩ := depositLoop.burst_calls
        (fun o w _ => allowed_effect o w) s.world hcalls
      have hstore : (depositLoop.burst (.op o k) s.world).2.1.store = s.world.store :=
        depositLoop.burst_frame effect_store _ _
      have hset := forall_mem_set (i := i) h.placed (.inr hburst)
      exact h.follows (hstore ▸ .refl _)
        (List.forall_mem_append.mpr ⟨hset, fun p hp => .inr (hstarted p hp)⟩)

end Run

/-- Each row leaves `Pending` at most once, no wallet is adjusted (so none twice),
and no transaction settles two rows. -/
structure SettledOnce (start w : World deposits) : Prop where
  left : w.store.journal.left.Nodup
  tbl_wallet : w.store.settlement.wallets.db.tbl_wallet =
    start.store.settlement.wallets.db.tbl_wallet
  address_balance : w.store.settlement.wallets.db.address_balance =
    start.store.settlement.wallets.db.address_balance
  hashes : ∀ hash i j, (i, hash) ∈ w.store.journal.settled → (j, hash) ∈ w.store.journal.settled →
    i = j

/-- **Deposits settle once** in a run in which no transaction is found for two rows. -/
theorem settledOnce_of_freshFind (start : World deposits) (turns : List DepositTurn)
    (hstart : start.store.journal = ⟨[], [], []⟩)
    (hturns : depositLoop.Meets FreshFind (State.start start) turns) :
    SettledOnce start (depositLoop.run (State.start start) turns).world := by
  have hinit : Settling start (State.start start) := by
    refine ⟨?_, nofun, rfl, rfl⟩
    have hjournal : (State.start start).world.store.journal = ⟨[], [], []⟩ := hstart
    constructor <;> rw [hjournal]
    · exact List.nil_subset _
    · nofun
    · exact List.nodup_nil
    · nofun
  have h := hturns.along depositLoop Steps.settling hinit
  refine ⟨h.sound.left, h.tbl_wallet, h.address_balance, fun hash i j hi hj => ?_⟩
  exact h.sound.once hash i j (h.sound.settled hi) (h.sound.settled hj)

/-! ## Two rows for one transaction -/

/-- No deposit was made yet. -/
def World.noDeposits : World deposits := .opened ⟨Settlement.World.funded, 0, ⟨[], [], []⟩⟩

/-- A call that is answered: the provider knows block 7, the chain finds `hash`. -/
def finding (hash : String) : Answer deposits :=
  .reply ⟨⟨0, .ok .nothing, .ok (.transaction ⟨hash, "0xa", "1", 12⟩), fun _ => false⟩, false,
    some 7⟩

/-- A row of the table, pending since time 0. -/
def usdtRow : NewDeposit := ⟨1, "addr", .USDT, "BEP20", some 7⟩

/-- Two deposits are pending for one address. -/
def World.twoDeposits : World deposits :=
  { World.noDeposits with store := insertDeposit usdtRow (insertDeposit usdtRow noDeposits.store) }

/-- A tick adds a job, and the job starts its rows. -/
def working : List DepositTurn :=
  [.happen .tick, .perform 0 .ok, .resume 0, .perform 0 .ok, .resume 0, .happen (.work 1)]

/-- `0x1` is found for both rows before either is settled. -/
def foundTwice : List DepositTurn :=
  working ++ [.perform 2 (finding "0x1"), .perform 3 (finding "0x1"), .perform 2 (finding "0x1"),
    .perform 3 (finding "0x1")]

theorem two_rows_one_transaction :
    ¬ SettledOnce .twoDeposits (depositLoop.run (State.start .twoDeposits) foundTwice).world := by
  intro h
  have hsettled :
      (depositLoop.run (State.start .twoDeposits) foundTwice).world.store.journal.settled =
        [(1, "0x1"), (2, "0x1")] := by decide +kernel
  have hsame := h.hashes "0x1" 1 2 (by rw [hsettled]; simp) (by rw [hsettled]; simp)
  cases hsame

/-- One deposit is pending, and a job has its row. -/
def World.oneDeposit : World deposits :=
  let store := insertDeposit usdtRow World.noDeposits.store
  { World.noDeposits with store := store, unfinished := [(1, getPendingDeposits store)] }

theorem freshFind_of_nil {s : State deposits} (h : s.world.store.journal.found = [])
    (t : DepositTurn) : FreshFind s t := by
  intro i e p v _ _ _ transaction _ id hid
  rw [h] at hid
  cases hid

theorem settled_one_deposit :
    SettledOnce .oneDeposit (depositLoop.run (State.start .oneDeposit)
      [.happen (.work 1), .perform 0 (finding "0x1"), .perform 0 (finding "0x1")]).world := by
  apply settledOnce_of_freshFind _ _ rfl
  refine ⟨freshFind_of_nil rfl _, freshFind_of_nil rfl _, ?_, trivial⟩
  rintro i e p v ⟨⟩ hi hp
  cases hi
  cases hp

end Exchange.Polling
