import Exchange.Polling.Once
import Mathlib.Data.Rat.Floor
import Mathlib.Tactic.Linarith

/-!
# When deposits are given up

A row for which nothing is found is to be deleted after six hours. The consumer
rounds the age to whole hours and takes its absolute value before it compares,
so a row is given up from five and a half hours on, and also when the clock is more
than five and a half hours behind its creation (`sixHours_iff`). The result 0 of a look-up
counts as nothing, too.

`expiresLate_of_onTime`: along every run in which no clock is read at such a time
before six hours are over, a row is deleted only after a program found nothing for it
at six hours or later, and a younger pending row is still polled
(`deleted_half_an_hour_early`).
-/

namespace Exchange.Polling

open Async Proc Store Wallets Settlement

/-! ## The clock -/

/-- Six hours, in milliseconds. -/
def expiry : Nat := 6 * 60 * 60 * 1000

/-- At this time the consumer gives up a row of this age: five and a half hours. -/
def givesUp (now created_at : Nat) : Bool :=
  created_at + 11 * 30 * 60 * 1000 ≤ now ∨ now + 11 * 30 * 60 * 1000 < created_at

/-- It gives it up too early. -/
def early (now created_at : Nat) : Bool :=
  now < created_at + expiry ∧ givesUp now created_at = true

/-- Six whole hours after rounding, in either direction. -/
theorem six_le_abs_round_iff (hours : ℚ) :
    (6 : ℤ) ≤ |⌊hours + 1 / 2⌋| ↔ 11 / 2 ≤ hours ∨ hours < -(11 / 2) := by
  have hlow : (6 : ℤ) ≤ ⌊hours + 1 / 2⌋ ↔ 11 / 2 ≤ hours := by
    rw [Int.le_floor]
    push_cast
    constructor <;> intro h <;> linarith
  have hhigh : ⌊hours + 1 / 2⌋ ≤ -6 ↔ hours < -(11 / 2) := by
    rw [← Int.lt_add_one_iff, Int.floor_lt]
    push_cast
    constructor <;> intro h <;> linarith
  rw [le_abs, le_neg, hlow, hhigh]

/-- A difference of two times, in hours. -/
theorem hours_le_iff (a b : Nat) :
    11 / 2 ≤ ((a : ℚ) - b) / (1000 * 60 * 60) ↔ b + 11 * 30 * 60 * 1000 ≤ a := by
  rw [le_div_iff₀ (by norm_num), ← Nat.cast_le (α := ℚ)]
  push_cast
  constructor <;> intro h <;> linarith

theorem hours_lt_iff (a b : Nat) :
    ((a : ℚ) - b) / (1000 * 60 * 60) < -(11 / 2) ↔ a + 11 * 30 * 60 * 1000 < b := by
  rw [div_lt_iff₀ (by norm_num), ← Nat.cast_lt (α := ℚ)]
  push_cast
  constructor <;> intro h <;> linarith

theorem sixHours_iff (now created_at : Nat) :
    sixHours now created_at = true ↔ givesUp now created_at = true := by
  unfold sixHours givesUp
  rw [decide_eq_true_iff, decide_eq_true_iff, six_le_abs_round_iff, hours_le_iff, hours_lt_iff]

/-! ## What is remembered of a run -/

/-- For the statements alone: what the look-up of each program found, and the times at which
a program that had found nothing for a row read the clock. -/
structure History where
  found : Nat → Option (PartialDeposit × Except Err Found)
  missed : List (Nat × Nat)

def DepositOp.settles : DepositOp → Option Settlement.Op
  | .settle o => some o
  | _ => none

def Op.settles : Op deposits → Option Settlement.Op
  | .other x => DepositOp.settles x
  | _ => none

/-- The call of a row's program at which program `i` stands. -/
def standsAt (s : State deposits) (i : Nat) : Option Settlement.Op :=
  ((s.threads[i]?).bind Proc.next).bind Op.settles

def History.after (h : History) (s : State deposits) : DepositTurn → History
  | .perform i (.reply e) =>
      match standsAt s i with
      | some (.findTransactionForDeposit v) =>
          { h with found := fun j => if j = i then some (v, e.answers.found) else h.found j }
      | some .date =>
          match h.found i with
          | some (v, .ok .nothing) => { h with missed := h.missed ++ [(v.id, e.answers.now)] }
          | _ => h
      | _ => h
  | _ => h

/-- A run, with what is remembered of it. -/
def remember : State deposits → History → List DepositTurn → State deposits × History
  | s, h, [] => (s, h)
  | s, h, t :: turns => remember (depositLoop.step s t) (h.after s t) turns

/-- A program found nothing for the row when six hours were over. -/
def History.Expired (h : History) (id created_at : Nat) : Prop :=
  ∃ now, (id, now) ∈ h.missed ∧ created_at + expiry ≤ now

/-- A row is deleted only when nothing was found for it after six hours, and a younger
pending row is polled. -/
structure ExpiresLate (s : DepositStore) (h : History) : Prop where
  deleted : ∀ r ∈ s.settlement.tbl_deposit.rows, r.deleted = .YES → h.Expired r.id r.created_at
  polled : ∀ r ∈ s.settlement.tbl_deposit.rows, r.deleted = .NO → r.status = .Pending →
    r.network ≠ "Bitcoin" → s.now < r.created_at + expiry →
    selectDeposit r ∈ getPendingDeposits s

/-- Where a program reads the clock, it had found nothing and the time is not early, or it had
found 0 and the time is not one at which it gives up. -/
def onTime (s : State deposits) (h : History) : DepositTurn → Bool
  | .perform i (.reply e) =>
      match standsAt s i, h.found i with
      | some .date, some (v, .ok .nothing) => !early e.answers.now v.created_at
      | some .date, some (v, .ok (.number 0)) => !givesUp e.answers.now v.created_at
      | _, _ => true
  | _ => true

/-- Every turn of the run is on time. -/
def allOnTime : State deposits → History → List DepositTurn → Bool
  | _, _, [] => true
  | s, h, t :: turns => onTime s h t && allOnTime (depositLoop.step s t) (h.after s t) turns

/-- What is remembered of clocks is not forgotten. -/
theorem missed_after (h : History) (s : State deposits) (t : DepositTurn) :
    h.missed ⊆ (h.after s t).missed := by
  unfold History.after
  split
  · split
    · exact List.Subset.refl _
    · split
      · exact List.subset_append_left _ _
      · exact List.Subset.refl _
    · exact List.Subset.refl _
  · exact List.Subset.refl _

/-- Only a look-up is remembered as one. -/
theorem found_after (h : History) (s : State deposits) (t : DepositTurn) {i : Nat}
    (hi : ∀ v, standsAt s i ≠ some (.findTransactionForDeposit v)) :
    (h.after s t).found i = h.found i := by
  unfold History.after
  split
  · next j e =>
    split
    · next v hv =>
      have hne : i ≠ j := by
        rintro rfl
        exact hi v hv
      simp [hne]
    · split <;> rfl
    · rfl
  · rfl

theorem expired_after {h : History} {s : State deposits} {t : DepositTurn} {id created_at : Nat}
    (he : h.Expired id created_at) : (h.after s t).Expired id created_at := by
  obtain ⟨now, hmissed, hnow⟩ := he
  exact ⟨now, missed_after h s t hmissed, hnow⟩

/-! ## The rows -/

section Store

variable {s s' : DepositStore} {h h' : History}

/-- The row with this id was made at this time. -/
def Known (s : DepositStore) (id created_at : Nat) : Prop :=
  id < s.settlement.tbl_deposit.next ∧
    ∀ r ∈ s.settlement.tbl_deposit.rows, r.id = id → r.created_at = created_at

/-- The row with this id has expired. -/
def Expires (s : DepositStore) (h : History) (id : Nat) : Prop :=
  ∃ created_at, Known s id created_at ∧ h.Expired id created_at

/-- Rows are added, and rows of which `expires` holds are deleted. -/
structure DepositStore.Grows (s s' : DepositStore) (expires : Nat → Prop) : Prop where
  known : ∀ {id created_at}, Known s id created_at → Known s' id created_at
  deleted : ∀ r' ∈ s'.settlement.tbl_deposit.rows, r'.deleted = .YES → expires r'.id ∨
    ∃ r ∈ s.settlement.tbl_deposit.rows, r.deleted = .YES ∧ r.id = r'.id ∧
      r.created_at = r'.created_at

theorem DepositStore.Grows.of_eq {expires : Nat → Prop}
    (heq : s'.settlement.tbl_deposit = s.settlement.tbl_deposit) : s.Grows s' expires where
  known := by
    intro id created_at hknown
    unfold Known
    rw [heq]
    exact hknown
  deleted := by
    intro r' hr' hdeleted
    rw [heq] at hr'
    exact .inr ⟨r', hr', hdeleted, rfl, rfl⟩

theorem DepositStore.grows_insert (obj : NewDeposit) (s : DepositStore) (expires : Nat → Prop) :
    s.Grows (insertDeposit obj s) expires where
  known := by
    rintro id created_at ⟨hlt, hrows⟩
    refine ⟨lt_of_lt_of_le hlt (Nat.le_max_left _ _), fun r hr hid => ?_⟩
    rcases List.mem_append.mp hr with hr | hr
    · exact hrows r hr hid
    · rw [List.mem_singleton.mp hr] at hid
      exact absurd hid (Nat.ne_of_gt hlt)
  deleted := by
    intro r' hr' hdeleted
    rcases List.mem_append.mp hr' with hr' | hr'
    · exact .inr ⟨r', hr', hdeleted, rfl, rfl⟩
    · rw [List.mem_singleton.mp hr'] at hdeleted
      cases hdeleted

/-- No write changes when a row was made. -/
theorem created_at_write (data : DepositData) (r : Deposit) :
    (data.write r).created_at = r.created_at := by
  cases data <;> rfl

theorem DepositStore.grows_modify {id : Nat} {data : DepositData} {expires : Nat → Prop}
    (s : DepositStore) (h : data = .deleted → expires id) :
    s.Grows (s.modify id data) expires where
  known := by
    rintro i created_at ⟨hlt, hrows⟩
    refine ⟨hlt, fun r hr hid => ?_⟩
    obtain ⟨r₀, hr₀, rfl⟩ := List.mem_map.mp hr
    split at hid
    · next hrow =>
      rw [if_pos hrow, created_at_write]
      exact hrows r₀ hr₀ (data.id_write r₀ ▸ hid)
    · next hrow =>
      rw [if_neg hrow]
      exact hrows r₀ hr₀ hid
  deleted := by
    intro r' hr' hdeleted
    obtain ⟨r₀, hr₀, rfl⟩ := List.mem_map.mp hr'
    split at hdeleted
    · next hrow =>
      rw [if_pos hrow, created_at_write, data.id_write, hrow]
      cases data with
      | status => exact .inr ⟨r₀, hr₀, hdeleted, hrow, rfl⟩
      | deleted => exact .inl (h rfl)
    · next hrow =>
      rw [if_neg hrow]
      exact .inr ⟨r₀, hr₀, hdeleted, rfl, rfl⟩

/-- A row that is read is known. -/
theorem known_of_pending {v : PendingDeposit} (hv : v ∈ getPendingDeposits s) :
    Known s v.id v.created_at := by
  obtain ⟨r, hr, rfl⟩ := List.mem_map.mp hv
  obtain ⟨hr, -⟩ := List.mem_filter.mp hr
  refine ⟨s.settlement.tbl_deposit.fresh r hr, fun r' hr' hid => ?_⟩
  rw [Table.eq_of_key hr' hr hid]
  rfl

end Store

/-! ## What the programs call -/

/-- What a program may call between its readings of the clock: a row is deleted only when it
has expired. -/
def DepositOp.MayCall (s : DepositStore) (h : History) : DepositOp → Prop
  | .settle (.updateDepositById id .deleted) => Expires s h id
  | .settle (.findTransactionForDeposit _) | .settle .date => False
  | _ => True

def MayCall (s : DepositStore) (h : History) : Op deposits → Prop
  | .getPending => False
  | .add rows => ∀ v ∈ rows, Known s (PendingDeposit.id v) (PendingDeposit.created_at v)
  | .other x => DepositOp.MayCall s h x
  | _ => True

/-- The program of a row for which nothing was found. -/
def expiring (v : PendingDeposit) : Prog deposits Unit :=
  (Proc.tryCatch (deleteOld v.row) fun error =>
    Settlement.call (.saveError error "Looping throug despit in deposit consumer file")).embed
      (fun o => .other (.settle o)) fun _ r => r

section Calls

variable {s s' : DepositStore} {h h' : History}

theorem mayCall_mono (hknown : ∀ {id created_at}, Known s id created_at → Known s' id created_at)
    (hmissed : h.missed ⊆ h'.missed) (o : Op deposits) (ho : MayCall s h o) :
    MayCall s' h' o := by
  rcases o with _ | _ | _ | _ | _ | _ | _ | _ | _ | x
  case add rows => exact fun v hv => hknown (ho v hv)
  case other =>
    rcases (x : DepositOp) with o | _ | _ | _ | _
    case settle =>
      cases o with
      | updateDepositById id data =>
        cases data with
        | status => trivial
        | deleted =>
          obtain ⟨created_at, hid, now, hnow, hlate⟩ := ho
          exact ⟨created_at, hknown hid, now, hmissed hnow, hlate⟩
      | _ => exact ho
    all_goals trivial
  all_goals exact ho

theorem mayCall_of_queue (o : Op deposits) (ho : OfQueue o) : MayCall s h o := by
  cases o with
  | getPending | add | other => exact ho.elim
  | _ => trivial

/-- A request calls nothing of a row's program. -/
theorem mayCall_of_request (o : Op deposits) (ho : OfRequest o) : MayCall s h o := by
  rcases o with _ | _ | _ | _ | _ | _ | _ | _ | _ | x
  case other =>
    rcases (x : DepositOp) with o | _ | _ | _ | _
    case settle => exact ho.elim
    all_goals trivial
  case getPending | add => exact ho.elim
  all_goals trivial

theorem mayCall_update (v : PartialDeposit) (status : Status) (reason : String)
    (confirmations : Nat) (from_address hash : String) :
    Calls (fun o => DepositOp.MayCall s h (.settle o))
      (updateDepositlWithStatus v status reason confirmations from_address hash) := by
  refine Calls.bind (Calls.call trivial) fun _ => ?_
  split
  · refine Calls.bind ?_ fun _ => ?_
    · unfold updateWallet
      split <;> exact Calls.call trivial
    · refine Calls.bind (Calls.call trivial) fun _ => ?_
      split <;> exact Calls.call trivial
  · trivial

/-- The calls of a row's program, among the others. -/
theorem settles (o : Settlement.Op) (ho : DepositOp.MayCall s h (.settle o)) :
    MayCall s h (.other (.settle o)) := ho

/-- A row is looked for, and only if nothing is found it is read how old it is. -/
theorem rowProgram_found (v : PendingDeposit) :
    ∃ k, rowProgram v = .op (.other (.settle (.findTransactionForDeposit v.row))) k ∧
      ∀ r, (r = .ok .nothing ∨ r = .ok (.number 0)) ∧ k r = expiring v ∨
        Calls (MayCall s h) (k r) := by
  refine ⟨_, rfl, fun r => ?_⟩
  cases r with
  | error e => exact .inr ⟨trivial, fun r => by cases r <;> trivial⟩
  | ok transaction =>
    cases transaction with
    | nothing => exact .inl ⟨.inl rfl, rfl⟩
    | number count =>
      cases count with
      | zero => exact .inl ⟨.inr rfl, rfl⟩
      | succ count =>
        refine .inr (Calls.embed settles (Calls.tryCatch (Calls.call trivial) fun error => ?_))
        exact Calls.call trivial
    | transaction t =>
      refine .inr (Calls.embed settles (Calls.tryCatch ?_ fun error => Calls.call trivial))
      exact mayCall_update v.row _ _ _ _ _

/-- The clock is read, and at some times the row is deleted. -/
theorem expiring_date (v : PendingDeposit) :
    ∃ k, expiring v = .op (.other (.settle .date)) k ∧
      (∀ e, Calls (MayCall s h) (k (.error e))) ∧
      ∀ now : Nat, (givesUp now v.created_at = true → Expires s h v.id) →
        Calls (MayCall s h) (k (.ok now)) := by
  refine ⟨_, rfl, fun e => ?_, fun now hold => ?_⟩
  · exact Calls.embed settles (Calls.call trivial)
  · have hdelete : Calls (fun o => DepositOp.MayCall s h (.settle o))
        (if sixHours now v.created_at = true then
          Settlement.call (.updateDepositById v.id .deleted)
        else (Pure.pure () : Settlement.Prog Unit)) := by
      split
      · next hsix => exact Calls.call (hold ((sixHours_iff _ _).mp hsix))
      · trivial
    exact Calls.embed settles (Calls.tryCatch hdelete fun error => Calls.call trivial)

end Calls

/-! ## What a call does to the rows -/

section Perform

variable {s : DepositStore} {h : History}

theorem DepositStore.grows_perform (e : DepositReply) (x : DepositOp)
    (hx : ∀ id, x = .settle (.updateDepositById id .deleted) → Expires s h id) :
    s.Grows (DepositStore.perform e x s).2 (Expires s h) := by
  cases x with
  | settle o =>
    by_cases hupdate : ∀ id data, o ≠ .updateDepositById id data
    · exact .of_eq (perform_deposits e.answers o s.settlement hupdate)
    · obtain ⟨id, data, rfl⟩ : ∃ id data, o = .updateDepositById id data := by
        simpa only [not_forall, not_not] using hupdate
      simp only [perform, Settlement.World.perform, Settlement.World.reply]
      split
      · exact .of_eq rfl
      · have hmodify : s.Grows (s.modify id data) (Expires s h) :=
          s.grows_modify fun hdata => hx id (by rw [hdata])
        exact ⟨hmodify.known, hmodify.deleted⟩
  | checkForPendingDeposit =>
    simp only [perform]
    split <;> exact .of_eq rfl
  | _ => exact .of_eq rfl

end Perform

/-! ## Runs -/

/-- Where program `i` stands: before it reads the rows, before it looks for one, before it
reads the clock, or after that. -/
inductive Standing (s : DepositStore) (h : History) (i : Nat) : Prog deposits Unit → Prop where
  | poll : Standing s h i initiateJob
  | row (v : PendingDeposit) (hv : Known s v.id v.created_at) : Standing s h i (rowProgram v)
  | expiring (v : PendingDeposit) (found : Except Err Found) (hv : Known s v.id v.created_at)
      (hfound : h.found i = some (v.row, found))
      (hnothing : found = .ok .nothing ∨ found = .ok (.number 0)) : Standing s h i (expiring v)
  | calls {p : Prog deposits Unit} (hp : Calls (MayCall s h) p) : Standing s h i p

theorem Standing.mono {s s' : DepositStore} {h h' : History} {i : Nat} {p : Prog deposits Unit}
    (hknown : ∀ {id created_at}, Known s id created_at → Known s' id created_at)
    (hmissed : h.missed ⊆ h'.missed)
    (hfound : ∀ v, p = Polling.expiring v → h'.found i = h.found i) (hp : Standing s h i p) :
    Standing s' h' i p := by
  cases hp with
  | poll => exact .poll
  | row v hv => exact .row v (hknown hv)
  | expiring v found hv hlooked hnothing =>
    exact .expiring v found (hknown hv) ((hfound v rfl).trans hlooked) hnothing
  | calls hp => exact .calls (hp.mono (mayCall_mono hknown hmissed))

/-- The invariant of a run. -/
structure Expiring (s : State deposits) (h : History) : Prop where
  deleted : ∀ r ∈ s.world.store.settlement.tbl_deposit.rows, r.deleted = .YES →
    h.Expired r.id r.created_at
  standing : ∀ i p, s.threads[i]? = some p → Standing s.world.store h i p
  jobs : ∀ j ∈ s.world.unfinished, ∀ v ∈ j.2, Known s.world.store v.id v.created_at

section Run

variable {s s' : State deposits} {h : History} {t : DepositTurn} {w : World deposits}

/-- The programs, when the turn is remembered. -/
theorem Expiring.standing_after (hs : Expiring s h) (t : DepositTurn)
    (hknown : ∀ {id created_at}, Known s.world.store id created_at →
      Known w.store id created_at) :
    ∀ i p, s.threads[i]? = some p → Standing w.store (h.after s t) i p := by
  intro i p hi
  refine (hs.standing i p hi).mono hknown (missed_after h s t) ?_
  rintro v rfl
  apply found_after
  intro v' hv'
  obtain ⟨k, hk, -⟩ := expiring_date (s := s.world.store) (h := h) v
  simp only [standsAt, hi, hk] at hv'
  cases hv'

/-- A turn after which the programs stand where they may. -/
theorem Expiring.grows (hs : Expiring s h) (t : DepositTurn)
    (hgrows : s.world.store.Grows w.store (Expires s.world.store h))
    {threads : List (Prog deposits Unit)}
    (hthreads : ∀ i p, threads[i]? = some p → Standing w.store (h.after s t) i p)
    (hjobs : ∀ j ∈ w.unfinished, j ∈ s.world.unfinished ∨
      ∀ v ∈ j.2, Known s.world.store v.id v.created_at) :
    Expiring ⟨w, threads⟩ (h.after s t) where
  deleted := by
    intro r' hr' hdeleted
    rcases hgrows.deleted r' hr' hdeleted with ⟨created_at, hknown, hexpired⟩ | hold
    · rw [(hgrows.known hknown).2 r' hr' rfl]
      exact expired_after hexpired
    · obtain ⟨r, hr, hdeleted, hid, hcreated⟩ := hold
      rw [← hid, ← hcreated]
      exact expired_after (hs.deleted r hr hdeleted)
  standing := hthreads
  jobs := by
    intro j hj v hv
    rcases hjobs j hj with hj | hj
    · exact hgrows.known (hs.jobs j hj v hv)
    · exact hgrows.known (hj v hv)

/-- One program has moved on. -/
theorem standing_set {store : DepositStore} {threads : List (Prog deposits Unit)} {i : Nat}
    {h' : History} {q : Prog deposits Unit}
    (h : ∀ j p, threads[j]? = some p → Standing store h' j p)
    (hq : Standing store h' i q) :
    ∀ j p, (threads.set i q)[j]? = some p → Standing store h' j p := by
  intro j p hj
  by_cases hij : i = j
  · subst hij
    rw [List.getElem?_set_self'] at hj
    obtain ⟨_, -, rfl⟩ := Option.map_eq_some_iff.mp hj
    exact hq
  · rw [List.getElem?_set_ne hij] at hj
    exact h j p hj

/-- Programs were started. -/
theorem standing_append {store : DepositStore} {h' : History}
    {threads started : List (Prog deposits Unit)}
    (h : ∀ j p, threads[j]? = some p → Standing store h' j p)
    (hstarted : ∀ p ∈ started, ∀ j, Standing store h' j p) :
    ∀ j p, (threads ++ started)[j]? = some p → Standing store h' j p := by
  intro j p hj
  rcases Nat.lt_or_ge j threads.length with hlt | hge
  · exact h j p ((List.getElem?_append_left hlt).symm.trans hj)
  · rw [List.getElem?_append_right hge] at hj
    exact hstarted p (List.mem_of_getElem? hj) j

theorem Expiring.happen (hs : Expiring s h) {c : DepositEvent} {started : List (Prog deposits Unit)}
    (hc : c.happen s.world = some (w, started)) :
    Expiring ⟨w, s.threads ++ started⟩ (h.after s (.happen c)) := by
  have hsame : ∀ w' : World deposits, w'.store.settlement.tbl_deposit =
      s.world.store.settlement.tbl_deposit → (∀ j ∈ w'.unfinished, j ∈ s.world.unfinished) →
      ∀ started : List (Prog deposits Unit), (∀ p ∈ started, ∀ i, Standing s.world.store h i p) →
      Expiring ⟨w', s.threads ++ started⟩ h := by
    intro w' hdeposits hunfinished started hstarted
    have hgrows : s.world.store.Grows w'.store (Expires s.world.store h) := .of_eq hdeposits
    refine hs.grows (.happen c) hgrows (standing_append ?_ fun p hp i => ?_)
      fun j hj => .inl (hunfinished j hj)
    · exact hs.standing_after (.happen c) hgrows.known
    · exact (hstarted p hp i).mono hgrows.known (List.Subset.refl _) fun _ _ => rfl
  cases c with
  | tick =>
    simp only [DepositEvent.happen, Polling.happen] at hc
    split at hc
    · cases hc
      exact hsame _ rfl (fun j hj => hj) _ (List.forall_mem_singleton.mpr fun _ => .poll)
    · cases hc
  | deposit dto =>
    cases hc
    refine hsame _ rfl (fun j hj => hj) _ (List.forall_mem_singleton.mpr fun _ => .calls ?_)
    exact (calls_request dto).mono mayCall_of_request
  | work job =>
    obtain ⟨j, hj, hwork⟩ := Option.map_eq_some_iff.mp hc
    cases hwork
    refine hsame _ rfl (fun j hj => hj) _ fun p hp i => ?_
    obtain ⟨v, hv, rfl⟩ := List.mem_map.mp hp
    exact .row v (hs.jobs j (List.mem_of_find?_eq_some hj) v hv)
  | finish job | fail job =>
    simp only [DepositEvent.happen, Polling.happen] at hc
    split at hc
    · cases hc
      refine hsame _ ?_ ?_ [] fun p hp => by cases hp
      · rfl
      · exact fun j hj => (List.mem_filter.mp hj).1
    · cases hc
  | elapse time =>
    cases hc
    refine hsame _ ?_ ?_ [] fun p hp => by cases hp
    · rfl
    · exact fun j hj => hj

/-- A call that a program may make between its readings of the clock. -/
theorem answer_grows {e : Answer deposits} {o : Op deposits} {r : Except Err o.Res}
    (ho : MayCall s.world.store h o) (hanswer : answer e o s.world = some (r, w)) :
    s.world.store.Grows w.store (Expires s.world.store h) ∧
      ∀ j ∈ w.unfinished, j ∈ s.world.unfinished ∨
        ∀ v ∈ j.2, Known s.world.store v.id v.created_at := by
  cases o with
  | getPending => exact ho.elim
  | add rows =>
    simp only [answer, Option.some.injEq] at hanswer
    split at hanswer <;> cases hanswer
    · exact ⟨.of_eq rfl, fun j hj => .inl hj⟩
    · refine ⟨.of_eq rfl, fun j hj => ?_⟩
      rcases List.mem_append.mp hj with hj | hj
      · exact .inl hj
      · rw [List.mem_singleton.mp hj]
        exact .inr ho
  | finished job =>
    simp only [answer] at hanswer
    split at hanswer
    · cases hanswer
      exact ⟨.of_eq rfl, fun j hj => .inl hj⟩
    · split at hanswer <;> cases hanswer
      exact ⟨.of_eq rfl, fun j hj => .inl hj⟩
  | save obj =>
    simp only [answer, Option.some.injEq] at hanswer
    split at hanswer <;> cases hanswer
    · exact ⟨.of_eq rfl, fun j hj => .inl hj⟩
    · exact ⟨DepositStore.grows_insert obj s.world.store _, fun j hj => .inl hj⟩
  | other x =>
    cases e with
    | reply e =>
      cases hanswer
      refine ⟨DepositStore.grows_perform e x ?_, fun j hj => .inl hj⟩
      rintro id rfl
      exact ho
    | fails | ok =>
      cases hanswer
      exact ⟨.of_eq rfl, fun j hj => .inl hj⟩
  | _ => cases hanswer

/-- The look-up of a row. -/
theorem Expiring.look (hs : Expiring s h) {i : Nat} {v : PendingDeposit} {e : Answer deposits}
    {k : Except Err Found → Prog deposits Unit} {r : Except Err Found}
    (hi : s.threads[i]? = some (rowProgram v)) (hv : Known s.world.store v.id v.created_at)
    (hk : rowProgram v = .op (.other (.settle (.findTransactionForDeposit v.row))) k)
    (hanswer : answer e (.other (.settle (.findTransactionForDeposit v.row)) : Op deposits)
      s.world = some (r, w)) :
    Expiring ⟨w, s.threads.set i (k r)⟩ (h.after s (.perform i e)) := by
  obtain ⟨k', hk', hfound⟩ := rowProgram_found (s := s.world.store) (h := h) v
  obtain rfl : k = k' := by
    cases hk.symm.trans hk'
    rfl
  have hdeposits : w.store.settlement.tbl_deposit = s.world.store.settlement.tbl_deposit ∧
      w.unfinished = s.world.unfinished := by
    cases e <;> cases hanswer <;> exact ⟨rfl, rfl⟩
  have hgrows : s.world.store.Grows w.store (Expires s.world.store h) := .of_eq hdeposits.1
  refine hs.grows _ hgrows (standing_set (hs.standing_after _ hgrows.known) ?_)
    fun j hj => .inl (hdeposits.2 ▸ hj)
  rcases hfound r with ⟨hnothing, hexpiring⟩ | hcalls
  · rw [hexpiring]
    refine .expiring v r (hgrows.known hv) ?_ hnothing
    have hstands : standsAt s i = some (.findTransactionForDeposit v.row) := by
      simp only [standsAt, hi, hk]
      rfl
    cases e with
    | reply e =>
      cases hanswer
      simp only [History.after, hstands, if_pos]
      rfl
    | fails | ok =>
      cases hanswer
      rcases hnothing with hnothing | hnothing <;> cases hnothing
  · exact .calls (hcalls.mono (mayCall_mono hgrows.known (missed_after h s _)))

/-- The reading of a clock, on time. -/
theorem Expiring.read (hs : Expiring s h) {i : Nat} {v : PendingDeposit} {e : Answer deposits}
    {found : Except Err Found} {k : Except Err Nat → Prog deposits Unit} {r : Except Err Nat}
    (hi : s.threads[i]? = some (expiring v)) (hv : Known s.world.store v.id v.created_at)
    (hfound : h.found i = some (v.row, found))
    (hnothing : found = .ok .nothing ∨ found = .ok (.number 0))
    (hk : expiring v = .op (.other (.settle .date)) k)
    (hanswer : answer e (.other (.settle .date) : Op deposits) s.world = some (r, w))
    (hok : onTime s h (.perform i e) = true) :
    Expiring ⟨w, s.threads.set i (k r)⟩ (h.after s (.perform i e)) := by
  have hdeposits : w.store.settlement.tbl_deposit = s.world.store.settlement.tbl_deposit ∧
      w.unfinished = s.world.unfinished := by
    cases e <;> cases hanswer <;> exact ⟨rfl, rfl⟩
  have hgrows : s.world.store.Grows w.store (Expires s.world.store h) := .of_eq hdeposits.1
  obtain ⟨k', hk', herror, hdate⟩ :=
    expiring_date (s := w.store) (h := h.after s (.perform i e)) v
  obtain rfl : k = k' := by
    cases hk.symm.trans hk'
    rfl
  refine hs.grows _ hgrows (standing_set (hs.standing_after _ hgrows.known) (.calls ?_))
    fun j hj => .inl (hdeposits.2 ▸ hj)
  cases e with
  | fails | ok =>
    cases hanswer
    exact herror _
  | reply e =>
    cases hanswer
    have hstands : standsAt s i = some .date := by
      simp only [standsAt, hi, hk]
      rfl
    refine hdate e.answers.now fun hgives => ⟨v.created_at, hgrows.known hv, e.answers.now, ?_⟩
    rcases hnothing with rfl | rfl
    · have hearly : early e.answers.now v.created_at = false := by
        change early e.answers.now v.row.created_at = false
        simpa [onTime, hstands, hfound] using hok
      constructor
      · simp only [History.after, hstands, hfound]
        exact List.mem_append_right _ (List.mem_singleton.mpr rfl)
      · simpa [early, hgives] using hearly
    · have hzero : givesUp e.answers.now v.created_at = false := by
        change givesUp e.answers.now v.row.created_at = false
        simpa [onTime, hstands, hfound] using hok
      cases hzero.symm.trans hgives

/-- The reading of the pending rows. -/
theorem Expiring.poll (hs : Expiring s h) {i : Nat} {e : Answer deposits}
    {k : Except Err (List PendingDeposit) → Prog deposits Unit}
    {r : Except Err (List PendingDeposit)}
    (hk : (initiateJob : Prog deposits Unit) = .op .getPending k)
    (hanswer : answer e (.getPending : Op deposits) s.world = some (r, w)) :
    Expiring ⟨w, s.threads.set i (k r)⟩ (h.after s (.perform i e)) := by
  cases hk
  have hsame : w = s.world ∧ ((∃ e, r = .error e) ∨
      r = .ok (getPendingDeposits s.world.store)) := by
    simp only [answer] at hanswer
    split at hanswer <;> cases hanswer
    · exact ⟨rfl, .inl ⟨_, rfl⟩⟩
    · exact ⟨rfl, .inr rfl⟩
  obtain ⟨rfl, hr⟩ := hsame
  refine hs.grows _ (.of_eq rfl) (standing_set (hs.standing_after _ id) (.calls ?_))
    fun j hj => .inl hj
  rcases hr with ⟨e, rfl⟩ | rfl
  · trivial
  · exact calls_polled mayCall_of_queue fun v hv => known_of_pending hv

/-- What a program does without awaiting: it stands at none of its readings. -/
theorem Expiring.resume (hs : Expiring s h) {i : Nat} {o : Op deposits}
    {k : Except Err o.Res → Prog deposits Unit} (hi : s.threads[i]? = some (.op o k))
    (ho : depositLoop.awaits o = false) :
    Expiring ⟨(depositLoop.burst (.op o k) s.world).2.1,
      s.threads.set i (depositLoop.burst (.op o k) s.world).1 ++
        (depositLoop.burst (.op o k) s.world).2.2⟩ (h.after s (.resume i)) := by
  have hcalls : Calls (MayCall s.world.store h) (.op o k : Prog deposits Unit) := by
    have hstanding := hs.standing i _ hi
    generalize hp : (Proc.op o k : Prog deposits Unit) = p at hstanding
    cases hstanding with
    | poll =>
      cases hp
      cases ho
    | row v hv =>
      obtain ⟨k', hk', -⟩ := rowProgram_found (s := s.world.store) (h := h) v
      cases hp.trans hk'
      cases ho
    | expiring v found hv hfound hnothing =>
      obtain ⟨k', hk', -⟩ := expiring_date (s := s.world.store) (h := h) v
      cases hp.trans hk'
      cases ho
    | calls hcalls => exact hp ▸ hcalls
  have hstart : ∀ (o : Op deposits) w, MayCall s.world.store h o →
      ∀ p ∈ (effect o w).2.2, Calls (MayCall s.world.store h) p := by
    intro o w _ p hp
    cases o with
    | watch job =>
      rw [List.mem_singleton.mp hp]
      exact calls_watcher mayCall_of_queue job
    | _ => cases hp
  obtain ⟨hburst, hstarted⟩ := depositLoop.burst_calls hstart s.world hcalls
  have hstore : (depositLoop.burst (.op o k) s.world).2.1.store = s.world.store :=
    depositLoop.burst_frame effect_store _ _
  have hunfinished : (depositLoop.burst (.op o k) s.world).2.1.unfinished =
      s.world.unfinished :=
    depositLoop.burst_frame (fun o w => by cases o <;> rfl) _ _
  have hgrows : s.world.store.Grows (depositLoop.burst (.op o k) s.world).2.1.store
      (Expires s.world.store h) := .of_eq (by rw [hstore])
  have hmono : ∀ {p : Prog deposits Unit}, Calls (MayCall s.world.store h) p → ∀ j,
      Standing (depositLoop.burst (.op o k) s.world).2.1.store (h.after s (.resume i)) j p :=
    fun hp _ => .calls (hp.mono (mayCall_mono hgrows.known (missed_after h s _)))
  refine hs.grows _ hgrows (standing_append (standing_set ?_ (hmono hburst i)) fun p hp j => ?_)
    fun j hj => .inl (hunfinished ▸ hj)
  · exact hs.standing_after _ hgrows.known
  · exact hmono (hstarted p hp) j

/-- One turn, by where its program stands. -/
theorem Steps.expiring (hstep : depositLoop.Steps s t s') (hs : Expiring s h)
    (hok : onTime s h t = true) : Expiring s' (h.after s t) := by
  cases hstep with
  | idle =>
    exact hs.grows t (.of_eq rfl) (hs.standing_after t id) fun j hj => .inl hj
  | happen hc => exact hs.happen hc
  | @perform i e o k r w hi ho hanswer =>
    have hstanding := hs.standing i _ hi
    generalize hp : (Proc.op o k : Prog deposits Unit) = p at hstanding
    cases hstanding with
    | poll =>
      cases hp
      exact hs.poll rfl hanswer
    | row v hv =>
      obtain ⟨k', hk', -⟩ := rowProgram_found (s := s.world.store) (h := h) v
      cases hp.trans hk'
      exact hs.look (hi.trans (congrArg some hk'.symm)) hv hk' hanswer
    | expiring v found hv hfound hnothing =>
      obtain ⟨k', hk', -⟩ := expiring_date (s := s.world.store) (h := h) v
      cases hp.trans hk'
      exact hs.read (hi.trans (congrArg some hk'.symm)) hv hfound hnothing hk' hanswer hok
    | calls hcalls =>
      subst hp
      obtain ⟨hgrows, hjobs⟩ := answer_grows hcalls.1 hanswer
      refine hs.grows _ hgrows (standing_set (hs.standing_after _ hgrows.known) (.calls ?_)) hjobs
      exact (hcalls.2 r).mono (mayCall_mono hgrows.known (missed_after h s _))
  | @resume i o k hi ho => exact hs.resume hi ho

/-- Along a run that is on time. -/
theorem Expiring.run {turns : List DepositTurn} (hs : Expiring s h)
    (hturns : allOnTime s h turns = true) :
    Expiring (remember s h turns).1 (remember s h turns).2 := by
  induction turns generalizing s h with
  | nil => exact hs
  | cons t turns ih =>
    obtain ⟨hok, hturns⟩ := Bool.and_eq_true_iff.mp hturns
    exact ih (Steps.expiring (depositLoop.step_cases s t) hs hok) hturns

end Run

/-- A pending row younger than six hours is polled. -/
theorem polled_of_young {s : DepositStore} {r : Deposit}
    (hr : r ∈ s.settlement.tbl_deposit.rows) (hdeleted : r.deleted = .NO)
    (hpending : r.status = .Pending) (hnet : r.network ≠ "Bitcoin")
    (hyoung : s.now < r.created_at + expiry) : selectDeposit r ∈ getPendingDeposits s := by
  refine List.mem_map_of_mem (List.mem_filter.mpr ⟨hr, ?_⟩)
  simp only [DepositStore.selects, hnet, hpending, hdeleted, recent, ne_eq, not_false_eq_true,
    decide_eq_true_eq, true_and]
  exact hyoung

/-- The service when it starts, at some time. -/
def World.started (settlement : Settlement.World) (now : Nat) : World deposits :=
  .opened ⟨settlement, now, ⟨[], [], []⟩⟩

/-- Nothing is remembered yet. -/
def History.none : History := ⟨fun _ => .none, []⟩

/-- **Deposits expire late** in every state of a run that is on time, from every table in which
no row is deleted. -/
theorem expiresLate_of_onTime (settlement : Settlement.World) (now : Nat)
    (turns : List DepositTurn)
    (hstart : ∀ r ∈ settlement.tbl_deposit.rows, r.deleted = .NO)
    (hturns : allOnTime (State.start (.started settlement now)) .none turns = true) :
    ExpiresLate (remember (State.start (.started settlement now)) .none turns).1.world.store
      (remember (State.start (.started settlement now)) .none turns).2 := by
  have hinit : Expiring (State.start (.started settlement now)) .none := by
    refine ⟨fun r hr hdeleted => ?_, fun i p hi => ?_, fun j hj => ?_⟩
    · cases (hstart r hr).symm.trans hdeleted
    · cases hi
    · cases hj
  refine ⟨(hinit.run hturns).deleted, ?_⟩
  exact fun r hr hdeleted hpending hnet hyoung => polled_of_young hr hdeleted hpending hnet hyoung

/-! ## One deposit -/

/-- Nothing is found, and the clock is read. -/
def nothingAt (now : Nat) : Answer deposits :=
  .reply ⟨⟨now, .ok .nothing, .ok .nothing, fun _ => false⟩, false, some 7⟩

/-- A job has the deposit of time 0, and looks for it at another. -/
def lookedForAt (now : Nat) : List DepositTurn :=
  working ++ [.happen (.elapse now), .perform 2 (nothingAt now), .perform 2 (nothingAt now),
    .perform 2 (nothingAt now)]

/-- The run in which a job looks for the deposit at this time. -/
def lookedFor (now : Nat) : State deposits × History :=
  remember (State.start (.started World.oneDeposit.store.settlement 0)) .none (lookedForAt now)

/-- After six hours. -/
theorem expiresLate_sixHours :
    ExpiresLate (lookedFor 21600000).1.world.store (lookedFor 21600000).2 :=
  expiresLate_of_onTime World.oneDeposit.store.settlement 0 (lookedForAt 21600000)
    (List.forall_mem_singleton.mpr rfl) (by decide +kernel)

/-- After five and a half hours the deposit is deleted. -/
theorem deleted_half_an_hour_early :
    ¬ ExpiresLate (lookedFor 19800000).1.world.store (lookedFor 19800000).2 := by
  intro h
  have hrows : (lookedFor 19800000).1.world.store.settlement.tbl_deposit.rows.map
      (fun r => (r.id, r.created_at, r.deleted)) = [(1, 0, .YES)] := by
    decide +kernel
  have hmissed : (lookedFor 19800000).2.missed = [(1, 19800000)] := by decide +kernel
  obtain ⟨r, hr, hrow⟩ := List.mem_map.mp (hrows ▸ List.mem_singleton.mpr rfl)
  simp only [Prod.mk.injEq] at hrow
  obtain ⟨hid, hcreated, hdeleted⟩ := hrow
  obtain ⟨now, hnow, hlate⟩ := h.deleted r hr hdeleted
  rw [hid, hmissed, List.mem_singleton, Prod.mk.injEq] at hnow
  rw [hcreated, hnow.2] at hlate
  exact absurd hlate (by decide)

end Exchange.Polling
