import Exchange.Async.Given
import Exchange.Polling.Once

/-!
# Which rows stop a deposit request

`checkForPendingDeposit` asks for rows that are not deleted, and never for their
status or age. A row is live while it is polled: pending, not deleted, not on
Bitcoin and younger than six hours. `gated_of_keepsLive`: requests are refused
because of live rows only, as long as no row is settled, deleted or waited for while
it is the only live one of its key. A settled row stops every later request
(`settled_row_blocks`). No request stores a row (`given_request`), since before a row is
saved an error has to be, so only the rows that were there count.
-/

namespace Exchange.Polling

open Async Proc Store Wallets Settlement

/-! ## What a request answers -/

def alreadyPending : DepositResponse :=
  ⟨.no, "There is already a pending transaction at this addresss,Please wait"⟩

section Answer

variable {W : Type} {H : Handler (Op deposits) Op.Res Err W} {dto : DepositDto}

/-- After its first call a request does not answer that a row is pending. -/
theorem failed_spec {error : SavedError} {source : String} {response : DepositResponse}
    (h : response ≠ alreadyPending) (w : W) :
    wp H (do
      ask (.saveError error source)
      Pure.pure (some response)) (fun r _ => r ≠ .ok (some alreadyPending)) w := by
  apply wp_bind_any
  · exact fun _ _ => nofun
  · intro _ w' hr
    cases hr
    exact h rfl

/-- A request that found no row. -/
theorem accepted_spec (w : W) :
    wp H (do
      let current_block : Option Nat ← currentBlock dto.network
      match current_block with
      | none | some 0 =>
        ask (.saveError (.text ("No current block for " ++ dto.text))
          "No current block found in deposit function ")
        Pure.pure (some (⟨.no, "Failed to accept deposit currently,Please wait"⟩ : DepositResponse))
      | some block =>
        Proc.tryCatch
          (do
            saveDeposit ⟨dto.user_id, dto.to_address, dto.coin, dto.network, some block⟩
            Pure.pure none)
          fun error => do
            ask (.saveError (.raised error)
              ("while saving deposit in  deposit function walet comtrller " ++ dto.text))
            Pure.pure (some ⟨.error error, "Failed to accept deposit currently,Please wait"⟩))
      (fun r _ => r ≠ .ok (some alreadyPending)) w := by
  apply wp_bind_any
  · exact fun _ _ => nofun
  intro current_block w
  split
  · exact failed_spec (by simp [alreadyPending]) w
  · exact failed_spec (by simp [alreadyPending]) w
  · rw [wp_tryCatch]
    apply wp_bind_any
    · exact fun e w => failed_spec (by simp [alreadyPending]) w
    · intro _ _
      nofun

/-- **A request is refused** iff the check finds a row. -/
theorem deposit_refused_iff (w : W) : ((deposit dto).run H w).1 = .ok (some alreadyPending) ↔
    (H (.other (.checkForPendingDeposit dto.user_id dto.coin dto.network dto.to_address)) w).1 =
      .ok true := by
  have hcatch : ∀ (e : Err) (w : W), wp H (do
      ask (.saveError (.raised e) ("Error  deposit function walet comtrller " ++ dto.text))
      Pure.pure (some (⟨.no, "Failed to accept deposit currently,Please wait"⟩ : DepositResponse)))
      (fun r _ => r ≠ .ok (some alreadyPending)) w :=
    fun e w => failed_spec (by simp [alreadyPending]) w
  have hwalk : wp H (deposit dto) (fun r _ => r = .ok (some alreadyPending) ↔
      (H (.other (.checkForPendingDeposit dto.user_id dto.coin dto.network dto.to_address)) w).1 =
        .ok true) w := by
    unfold deposit
    rw [wp_tryCatch]
    apply (wp_bind _ _ _).mpr
    apply (wp_call _ _).mpr
    cases hcheck : (H (.other
      (.checkForPendingDeposit dto.user_id dto.coin dto.network dto.to_address)) w).1 with
    | error e =>
      apply wp_mono (hcatch e _)
      intro r _ hr
      exact iff_of_false hr nofun
    | ok alreadyExist =>
      cases alreadyExist with
      | true => exact iff_of_true rfl rfl
      | false =>
        apply wp_mono (accepted_spec _)
        rintro (e | response) w' hr
        · apply wp_mono (hcatch e w')
          intro r _ hr
          exact iff_of_false hr nofun
        · exact iff_of_false hr nofun
  exact hwalk

end Answer

/-! ## Live rows -/

/-- The row has the user, coin, network and address of the request. -/
def DepositDto.isFor (dto : DepositDto) (r : Deposit) : Prop :=
  r.user_id = dto.user_id ∧ r.coin = dto.coin ∧ r.network = dto.network ∧
    r.to_address = dto.to_address

/-- A row of the same user, coin, network and address. -/
def SameKey (r r' : Deposit) : Prop :=
  r'.user_id = r.user_id ∧ r'.coin = r.coin ∧ r'.network = r.network ∧ r'.to_address = r.to_address

/-- The row is in the table, and polled. -/
def DepositStore.Live (s : DepositStore) (r : Deposit) : Prop :=
  r ∈ s.settlement.tbl_deposit.rows ∧ s.selects r = true

/-- The calls of a request, each with what is outside. -/
def respond (e : Op deposits → Answer deposits) :
    Handler (Op deposits) Op.Res Err (World deposits) :=
  fun o w =>
    if o.awaits then (answer (e o) o w).getD (.error .rejected, w)
    else ((effect o w).1, (effect o w).2.1)

/-- A request of which the check is answered is refused iff there is a live row
for it, whatever is outside. -/
def GatedByLive (w : World deposits) : Prop :=
  ∀ (dto : DepositDto) (e : Op deposits → Answer deposits) (reply : DepositReply),
    e (.other (.checkForPendingDeposit dto.user_id dto.coin dto.network dto.to_address)) =
      .reply reply → reply.rejects = false →
    (((deposit dto).run (respond e) w).1 = .ok (some alreadyPending) ↔
      ∃ r, w.store.Live r ∧ dto.isFor r)

/-- Every row that is not deleted has a live row of its key. -/
def DepositStore.Covered (s : DepositStore) : Prop :=
  ∀ r ∈ s.settlement.tbl_deposit.rows, r.deleted = .NO → ∃ r', s.Live r' ∧ SameKey r r'

section Live

variable {s s' : DepositStore} {w : World deposits}

theorem DepositStore.Live.deleted {r : Deposit} (h : s.Live r) : r.deleted = .NO := by
  have hsel := h.2
  simp only [selects, decide_eq_true_eq] at hsel
  exact hsel.2.2.1

/-- What the check of a request is answered. -/
theorem respond_check {dto : DepositDto} {e : Op deposits → Answer deposits} {reply : DepositReply}
    (he : e (.other (.checkForPendingDeposit dto.user_id dto.coin dto.network dto.to_address)) =
      .reply reply) (hreply : reply.rejects = false) :
    (respond e (.other (.checkForPendingDeposit dto.user_id dto.coin dto.network
      dto.to_address)) w).1 = .ok true ↔
    ∃ r ∈ w.store.settlement.tbl_deposit.rows, dto.isFor r ∧ r.deleted = .NO := by
  let exist : Bool := w.store.settlement.tbl_deposit.rows.any fun r =>
    r.user_id = dto.user_id ∧ r.coin = dto.coin ∧ r.network = dto.network ∧
      r.deleted = .NO ∧ r.to_address = dto.to_address
  have hanswer : (respond e (.other (.checkForPendingDeposit dto.user_id dto.coin dto.network
      dto.to_address)) w).1 = .ok exist := by
    unfold respond
    rw [he]
    change (DepositStore.perform reply (.checkForPendingDeposit ..) w.store).1 = _
    unfold DepositStore.perform
    rw [hreply]
    rfl
  rw [hanswer]
  change (Except.ok exist : Except Err Bool) = .ok true ↔ _
  simp only [Except.ok.injEq, exist, List.any_eq_true, decide_eq_true_eq, DepositDto.isFor]
  constructor
  · rintro ⟨r, hr, huser, hcoin, hnetwork, hdeleted, haddress⟩
    exact ⟨r, hr, ⟨huser, hcoin, hnetwork, haddress⟩, hdeleted⟩
  · rintro ⟨r, hr, ⟨huser, hcoin, hnetwork, haddress⟩, hdeleted⟩
    exact ⟨r, hr, huser, hcoin, hnetwork, hdeleted, haddress⟩

theorem gatedByLive_iff : GatedByLive w ↔ w.store.Covered := by
  constructor
  · intro h r hr hdeleted
    let reply : DepositReply := ⟨⟨0, .ok .nothing, .ok .nothing, fun _ => false⟩, false, none⟩
    let dto : DepositDto := ⟨r.user_id, r.coin, r.network, r.to_address⟩
    have hgate := h dto (fun _ => .reply reply) reply rfl rfl
    rw [deposit_refused_iff, respond_check rfl rfl] at hgate
    exact hgate.mp ⟨r, hr, ⟨rfl, rfl, rfl, rfl⟩, hdeleted⟩
  · intro h dto e reply he hreply
    rw [deposit_refused_iff, respond_check he hreply]
    constructor
    · rintro ⟨r, hr, ⟨huser, hcoin, hnetwork, haddress⟩, hdeleted⟩
      obtain ⟨r', hlive, hu, hc, hn, ha⟩ := h r hr hdeleted
      exact ⟨r', hlive, hu.trans huser, hc.trans hcoin, hn.trans hnetwork, ha.trans haddress⟩
    · rintro ⟨r, hlive, hfor⟩
      exact ⟨r, hlive.1, hfor, hlive.deleted⟩

end Live

/-! ## Nothing is saved -/

/-- How calls are answered here: no error is ever saved. -/
def Unsaved : (o : Op deposits) → Except Err o.Res → Prop
  | .other (.saveError ..), r => r = .error .rejected
  | _, _ => True

/-- No row is saved. -/
def SavesNothing (o : Op deposits) : Prop := ∀ obj, o ≠ .save obj

section Saves

variable {w w' : World deposits}

theorem savesNothing_of_queue (o : Op deposits) (ho : OfQueue o) : SavesNothing o := by
  rintro obj rfl
  exact ho

theorem savesNothing_other (x : DepositOp) : SavesNothing (.other x) := by
  rintro obj ⟨⟩

theorem savesNothing_getPending : SavesNothing .getPending := by
  rintro obj ⟨⟩

theorem savesNothing_add (rows : List PendingDeposit) : SavesNothing (.add rows) := by
  rintro obj ⟨⟩

/-- After an error that is not saved, nothing is done. -/
theorem given_saveError {α : Type} (error : SavedError) (source : String)
    (f : Unit → Prog deposits α) :
    Given Unsaved SavesNothing (ask (.saveError error source) >>= f) :=
  Given.answered (savesNothing_other _) fun _ hr => nomatch hr

/-- Either no block is known, or an error had to be saved. -/
theorem keeps_currentBlock (network : String) :
    (currentBlock network).Keeps ⟨fun _ => SavesNothing, fun _ _ _ => ()⟩ Unsaved
      (fun r _ => ∀ block, r ≠ .ok (some block)) () := by
  apply Keeps.tryCatch
  apply Keeps.bind
  refine Keeps.call (savesNothing_other _) ?_
  rintro (e | block) -
  · apply Keeps.bind
    refine Keeps.call (savesNothing_other _) ?_
    rintro (e | a) hr
    · nofun
    · cases hr
  · nofun

/-- A request saves no row. -/
theorem given_request (dto : DepositDto) : Given Unsaved SavesNothing (request dto) := by
  refine Given.bind ?_ fun _ => trivial
  apply Keeps.tryCatch
  apply Keeps.bind
  refine Keeps.call (savesNothing_other _) ?_
  have hcatch : ∀ (e : Err), Given Unsaved SavesNothing (do
      ask (.saveError (.raised e) ("Error  deposit function walet comtrller " ++ dto.text))
      Pure.pure (some (⟨.no, "Failed to accept deposit currently,Please wait"⟩ :
        DepositResponse))) := fun e => given_saveError _ _ _
  rintro (e | alreadyExist) -
  · exact hcatch e
  · cases alreadyExist with
    | true => trivial
    | false =>
      apply Keeps.bind
      apply Keeps.mono (keeps_currentBlock dto.network)
      rintro (e | current_block) s hblock
      · exact hcatch e
      · cases current_block with
        | some block => exact absurd rfl (hblock block)
        | none =>
          apply Keeps.bind
          refine Keeps.call (savesNothing_other _) ?_
          rintro (e | a) hr
          · exact hcatch e
          · cases hr

theorem given_rowProgram (v : PendingDeposit) : Given Unsaved SavesNothing (rowProgram v) :=
  Given.of_calls (Calls.embed (fun o _ => savesNothing_other (.settle o)) (Calls.any _))

theorem happen_given {c : DepositEvent} {started : List (Prog deposits Unit)}
    (h : c.happen w = some (w', started)) : ∀ p ∈ started, Given Unsaved SavesNothing p := by
  cases c with
  | tick =>
    simp only [DepositEvent.happen, happen] at h
    split at h
    · cases h
      refine List.forall_mem_singleton.mpr (Given.of_calls ?_)
      refine Calls.bind (Calls.call savesNothing_getPending) fun rows => ?_
      exact calls_polled savesNothing_of_queue (savesNothing_add rows)
    · cases h
  | finish job | fail job =>
    simp only [DepositEvent.happen, happen] at h
    split at h
    · cases h
      exact List.forall_mem_nil _
    · cases h
  | deposit dto =>
    cases h
    exact List.forall_mem_singleton.mpr (given_request dto)
  | work job =>
    obtain ⟨j, -, hj⟩ := Option.map_eq_some_iff.mp h
    cases hj
    exact List.forall_mem_map.mpr fun v _ => given_rowProgram v
  | elapse time =>
    cases h
    exact List.forall_mem_nil _

theorem ownGiven : depositLoop.OwnGiven Unsaved SavesNothing := by
  intro o w ho _
  cases o with
  | watch job =>
    refine ⟨trivial, List.forall_mem_singleton.mpr (Given.of_calls ?_)⟩
    exact calls_watcher savesNothing_of_queue job
  | job | setJob | startCron | stopCron => exact ⟨trivial, List.forall_mem_nil _⟩
  | _ => cases ho

theorem answer_unsaved {e : Answer deposits} {o : Op deposits} {r : Except Err o.Res}
    (h : answer e o w = some (r, w')) : Unsaved o r := by
  rcases o with _ | _ | _ | _ | _ | _ | _ | _ | _ | x
  case other =>
    rcases (x : DepositOp) with _ | _ | _ | _ | ⟨error, source⟩
    case saveError =>
      cases e with
      | reply e | fails | ok =>
        cases h
        rfl
    all_goals trivial
  all_goals trivial

end Saves

/-! ## Turns -/

/-- A call of a row's program is answered with success. -/
def Succeeds (s : State deposits) (t : DepositTurn) (o : Settlement.Op) : Prop :=
  ∃ i p e, t = .perform i (.reply e) ∧ s.threads[i]? = some p ∧
    p.next = some (.other (.settle o)) ∧ e.answers.fails o = false

/-- There is a live row of the key of `r`, other than row `id`. -/
def DepositStore.OtherLive (s : DepositStore) (r : Deposit) (id : Nat) : Prop :=
  ∃ r', s.Live r' ∧ SameKey r r' ∧ r'.id ≠ id

/-- What is settled, deleted or waited for in a turn, in the table before it. -/
structure KeepsLive (s : State deposits) (t : DepositTurn) : Prop where
  /-- A row is settled when no row of its key is left undeleted, or another one is live. -/
  settled : ∀ id status reason count sender hash,
    Succeeds s t (.updateDepositById id (.status status reason count sender hash)) →
    ∀ r ∈ s.world.store.settlement.tbl_deposit.rows, r.id = id →
    ∀ r₁ ∈ s.world.store.settlement.tbl_deposit.rows, SameKey r r₁ → r₁.deleted = .NO →
      s.world.store.OtherLive r id
  /-- A row is deleted when no other row of its key is left undeleted, or another one is live. -/
  deleted : ∀ id, Succeeds s t (.updateDepositById id .deleted) →
    ∀ r ∈ s.world.store.settlement.tbl_deposit.rows, r.id = id →
    ∀ r₁ ∈ s.world.store.settlement.tbl_deposit.rows, SameKey r r₁ → r₁.deleted = .NO →
      r₁.id ≠ id → s.world.store.OtherLive r id
  /-- Time passes while every row that is not deleted has a live one of its key that will
  still be younger than six hours. -/
  elapsed : ∀ time, t = .happen (.elapse time) →
    ∀ r ∈ s.world.store.settlement.tbl_deposit.rows, r.deleted = .NO →
    ∃ r', s.world.store.Live r' ∧ SameKey r r' ∧
      recent (s.world.store.now + time) r'.created_at = true

section Turns

variable {s s' : State deposits} {t : DepositTurn} {w w' : World deposits} {d d' : DepositStore}

theorem SameKey.symm {r r' : Deposit} (h : SameKey r r') : SameKey r' r :=
  ⟨h.1.symm, h.2.1.symm, h.2.2.1.symm, h.2.2.2.symm⟩

theorem SameKey.trans {r r' r'' : Deposit} (h : SameKey r r') (h' : SameKey r' r'') :
    SameKey r r'' :=
  ⟨h'.1.trans h.1, h'.2.1.trans h.2.1, h'.2.2.1.trans h.2.2.1, h'.2.2.2.trans h.2.2.2⟩

theorem sameKey_write (data : DepositData) (r : Deposit) : SameKey r (data.write r) := by
  cases data <;> exact ⟨rfl, rfl, rfl, rfl⟩

theorem DepositStore.covered_of_eq (htable : d'.settlement.tbl_deposit = d.settlement.tbl_deposit)
    (hnow : d'.now = d.now) (h : d.Covered) : d'.Covered := by
  unfold Covered Live selects at h ⊢
  rw [htable, hnow]
  exact h

/-- A row that is saved for another network than Bitcoin is live. -/
theorem DepositStore.covered_insert {obj : NewDeposit} (hobj : obj.network ≠ "Bitcoin")
    (h : d.Covered) : (insertDeposit obj d).Covered := by
  have hlive : ∀ r, d.Live r → (insertDeposit obj d).Live r :=
    fun r hr => ⟨List.mem_append_left _ hr.1, hr.2⟩
  intro r hr hdeleted
  rcases List.mem_append.mp hr with hr | hr
  · obtain ⟨r', hr', hkey⟩ := h r hr hdeleted
    exact ⟨r', hlive r' hr', hkey⟩
  · refine ⟨r, ⟨List.mem_append_right _ hr, ?_⟩, rfl, rfl, rfl, rfl⟩
    obtain rfl := List.mem_singleton.mp hr
    have hrecent : recent d.now d.now = true := by simp [recent]
    simpa [selects, NewDeposit.toRow, insertDeposit, hobj] using hrecent

/-- A row is updated. -/
theorem DepositStore.covered_modify {id : Nat} {data : DepositData} (h : d.Covered)
    (hother : ∀ r ∈ d.settlement.tbl_deposit.rows, r.id = id →
      ∀ r₁ ∈ (d.modify id data).settlement.tbl_deposit.rows, SameKey r r₁ → r₁.deleted = .NO →
        d.OtherLive r id) : (d.modify id data).Covered := by
  have hlive : ∀ r, d.Live r → r.id ≠ id → (d.modify id data).Live r := by
    intro r hr hne
    have hmem : r ∈ (d.settlement.tbl_deposit.modify id data.write data.id_write).rows :=
      Table.mem_modify_of_ne hr.1 hne
    exact ⟨hmem, hr.2⟩
  intro r₁ hr₁ hdeleted
  obtain ⟨r, hr, hwrite⟩ := mem_modify.mp hr₁
  by_cases hid : r.id = id
  · rw [if_pos hid] at hwrite
    have hkey : SameKey r r₁ := hwrite ▸ sameKey_write data r
    obtain ⟨r', hr', hkey', hne⟩ := hother r hr hid r₁ hr₁ hkey hdeleted
    exact ⟨r', hlive r' hr' hne, hkey.symm.trans hkey'⟩
  · rw [if_neg hid] at hwrite
    obtain rfl := hwrite
    obtain ⟨r', hr', hkey⟩ := h r₁ hr hdeleted
    by_cases hid' : r'.id = id
    · obtain ⟨r'', hr'', hkey', hne⟩ := hother r' hr'.1 hid' r₁ hr₁ hkey.symm hdeleted
      exact ⟨r'', hlive r'' hr'' hne, hkey.trans hkey'⟩
    · exact ⟨r', hlive r' hr' hid', hkey⟩

/-- A row is settled: it keeps its key, and is not deleted by that. -/
theorem DepositStore.covered_status {id : Nat} {status : Status} {reason sender hash : String}
    {count : Nat} (h : d.Covered)
    (hother : ∀ r ∈ d.settlement.tbl_deposit.rows, r.id = id →
      ∀ r₁ ∈ d.settlement.tbl_deposit.rows, SameKey r r₁ → r₁.deleted = .NO → d.OtherLive r id) :
    (d.modify id (.status status reason count sender hash)).Covered := by
  refine covered_modify h fun r hr hid r₁ hr₁ hkey hdeleted => ?_
  obtain ⟨r₀, hr₀, rfl⟩ := mem_modify.mp hr₁
  split at hkey
  · rw [if_pos ‹_›] at hdeleted
    exact hother r hr hid r₀ hr₀ hkey hdeleted
  · rw [if_neg ‹_›] at hdeleted
    exact hother r hr hid r₀ hr₀ hkey hdeleted

/-- A row is deleted: the others stay as they are. -/
theorem DepositStore.covered_deleted {id : Nat} (h : d.Covered)
    (hother : ∀ r ∈ d.settlement.tbl_deposit.rows, r.id = id →
      ∀ r₁ ∈ d.settlement.tbl_deposit.rows, SameKey r r₁ → r₁.deleted = .NO → r₁.id ≠ id →
        d.OtherLive r id) : (d.modify id .deleted).Covered := by
  refine covered_modify h fun r hr hid r₁ hr₁ hkey hdeleted => ?_
  obtain ⟨r₀, hr₀, rfl⟩ := mem_modify.mp hr₁
  split at hkey
  · rw [if_pos ‹_›] at hdeleted
    cases hdeleted
  · rename_i hne
    rw [if_neg hne] at hdeleted
    exact hother r hr hid r₀ hr₀ hkey hdeleted hne

/-- Time passes. -/
theorem DepositStore.covered_elapse {time : Nat}
    (h : ∀ r ∈ d.settlement.tbl_deposit.rows, r.deleted = .NO → ∃ r', d.Live r' ∧ SameKey r r' ∧
      recent (d.now + time) r'.created_at = true) :
    (DepositChange.apply (.elapse time) d).Covered := by
  intro r hr hdeleted
  obtain ⟨r', hlive, hkey, hrecent⟩ := h r hr hdeleted
  refine ⟨r', ⟨hlive.1, ?_⟩, hkey⟩
  have hsel := hlive.2
  simp only [selects, decide_eq_true_eq] at hsel ⊢
  exact ⟨hsel.1, hsel.2.1, hsel.2.2.1, hrecent⟩

theorem happen_store {c : DepositEvent} {started : List (Prog deposits Unit)}
    (h : c.happen w = some (w', started)) : w'.store = w.store ∨
      ∃ time, c = .elapse time ∧ w'.store = DepositChange.apply (.elapse time) w.store := by
  cases c with
  | tick | finish job | fail job =>
    simp only [DepositEvent.happen, happen] at h
    split at h
    · cases h
      exact .inl rfl
    · cases h
  | deposit dto =>
    cases h
    exact .inl rfl
  | work job =>
    obtain ⟨j, -, hj⟩ := Option.map_eq_some_iff.mp h
    cases hj
    exact .inl rfl
  | elapse time =>
    cases h
    exact .inr ⟨time, rfl, rfl⟩

/-- A call of a request or of a row's program. -/
theorem perform_covered {i : Nat} (e : DepositReply) (x : DepositOp)
    {k : Except Err x.Res → Prog deposits Unit} (hi : s.threads[i]? = some (.op (.other x) k))
    (h : s.world.store.Covered) (hok : KeepsLive s (.perform i (.reply e))) :
    (DepositStore.perform e x s.world.store).2.Covered := by
  cases x with
  | settle o =>
    by_cases hupdate : ∀ id data, o ≠ .updateDepositById id data
    · exact DepositStore.covered_of_eq (perform_deposits _ _ _ hupdate) rfl h
    · obtain ⟨id, data, rfl⟩ : ∃ id data, o = .updateDepositById id data := by
        simpa only [not_forall, not_not] using hupdate
      simp only [DepositStore.perform, Settlement.World.perform, Settlement.World.reply]
      split
      · exact h
      · next hf =>
        have hsucceeds : Succeeds s (.perform i (.reply e)) (.updateDepositById id data) :=
          ⟨i, _, e, rfl, hi, rfl, Bool.eq_false_iff.mpr hf⟩
        cases data with
        | status status reason count sender hash =>
          exact DepositStore.covered_status h (hok.settled _ _ _ _ _ _ hsucceeds)
        | deleted => exact DepositStore.covered_deleted h (hok.deleted _ hsucceeds)
  | checkForPendingDeposit =>
    simp only [DepositStore.perform]
    split <;> exact h
  | _ => exact h

/-- A call is answered. -/
theorem answer_covered {i : Nat} {e : Answer deposits} {o : Op deposits}
    {k : Except Err o.Res → Prog deposits Unit} {r : Except Err o.Res}
    (hi : s.threads[i]? = some (.op o k)) (hanswer : answer e o s.world = some (r, w))
    (h : s.world.store.Covered) (ho : SavesNothing o) (hok : KeepsLive s (.perform i e)) :
    w.store.Covered := by
  cases o with
  | getPending =>
    simp only [answer, Option.some.injEq] at hanswer
    split at hanswer <;> cases hanswer <;> exact h
  | add rows =>
    simp only [answer, Option.some.injEq] at hanswer
    split at hanswer <;> cases hanswer <;> exact h
  | finished job =>
    simp only [answer] at hanswer
    split at hanswer
    · cases hanswer
      exact h
    · split at hanswer <;> cases hanswer
      exact h
  | save obj => exact absurd rfl (ho obj)
  | other x =>
    cases e with
    | fails | ok =>
      cases hanswer
      exact h
    | reply e =>
      cases hanswer
      exact perform_covered e x hi h hok
  | _ => cases hanswer

/-- The invariant of a run: the rows are covered, and no program saves one. -/
structure Gated (s : State deposits) : Prop where
  covered : s.world.store.Covered
  given : ∀ p ∈ s.threads, Given Unsaved SavesNothing p

theorem Steps.gated (hstep : depositLoop.Steps s t s') (h : Gated s) (hok : KeepsLive s t) :
    Gated s' where
  given := depositLoop.given_step ownGiven (fun _ _ _ _ _ => answer_unsaved)
    (fun _ _ _ _ => happen_given) hstep h.given
  covered := by
    cases hstep with
    | idle => exact h.covered
    | happen hc =>
      rcases happen_store hc with hstore | ⟨time, rfl, hstore⟩
      · exact hstore ▸ h.covered
      · rw [hstore]
        exact DepositStore.covered_elapse (hok.elapsed time rfl)
    | perform hi ho hanswer =>
      have hsaves := (h.given _ (List.mem_of_getElem? hi)).1
      exact answer_covered hi hanswer h.covered hsaves hok
    | @resume i o k hi ho =>
      have hstore : (depositLoop.burst (.op o k) s.world).2.1.store = s.world.store :=
        depositLoop.burst_frame effect_store _ _
      exact hstore.symm ▸ h.covered

end Turns

theorem covered_oneDeposit : World.oneDeposit.store.Covered := by
  have hempty : World.noDeposits.store.Covered := by
    intro r hr
    cases hr
  exact DepositStore.covered_insert (by decide) hempty

/-- The transaction of a deposit is found, and it is settled. -/
def settleOne : List DepositTurn :=
  [.happen (.work 1), .perform 0 (finding "0x1"), .perform 0 (finding "0x1")]

end Exchange.Polling
