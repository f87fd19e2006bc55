import Exchange.Funds.Conduct
import Exchange.Funds.Records

/-!
# What becomes of a withdrawal

A request for a withdrawal is transferred, or left to the admin, or refused, and the
accounts of all requests say which, in every interleaving. `withdrawals_accounted`: each
transfer that was made is that of another request, for its amount to its address; each
row that was added is of another transfer, or of another request that was not
transferred; and whatever the webhook and the jobs do later, the rows keep these terms.
-/

namespace Exchange.Funds

open Async Async.Proc Store Wallets Binance Settlement

/-! ## Paths -/

/-- A request that went on: the transfer that was made for it, if there was one. -/
abbrev Path := WithdrawalDto × Option (Transfer × Except Wallets.Err WithdrawlResponse)

/-- The object that is stored for a path. -/
def Stored (p : Path) (obj : NewWithdrawal) : Prop :=
  Requested p.1 obj ∧ match p.2 with
    | some sending => Confirms sending.2 obj
    | none => ForAdmin obj

/-- The transfer of a path is what its request asks for. -/
def Asked (p : Path) : Prop := ∀ sending, p.2 = some sending → AsksFor p.1 sending.1

/-- The withdrawal that a request asks for. -/
def Request.withdraws : Request → Option WithdrawalDto
  | withdrawal dto => some dto
  | _ => none

/-- A request that has not gone on. -/
def Phase.unsent : Phase → Option WithdrawalDto
  | asking dto => some dto
  | _ => none

/-- A transfer whose row is not stored yet. -/
def Phase.unstored : Phase → Option Path
  | sent dto t r => some (dto, some (t, r))
  | _ => none

/-- What a row was stored with, but for its status. -/
def objectTerms (obj : NewWithdrawal) : NewWithdrawal :=
  { obj with
    with_amount := roundTo 8 obj.with_amount
    status := .Pending }

def rowTerms (r : Withdrawal) : NewWithdrawal := { r.toNewWithdrawal with status := .Pending }

def World.tbl_withdrawal (w : World) : Table Withdrawal Withdrawal.id :=
  w.settlement.wallets.db.tbl_withdrawal

/-! ## What a call does -/

structure SamePayouts (w w' : World) : Prop where
  rows : w'.tbl_withdrawal.rows.map rowTerms = w.tbl_withdrawal.rows.map rowTerms
  transfers : w'.transfers = w.transfers

/-- The calls that pay out, or say so. -/
def Pays : Op → Prop
  | .withdrawing (.transfer _) | .withdrawing (.saveWithdrawal _) => True
  | _ => False

section Calls

variable {a : Answers} {w : World}

/-- The statements on withdrawals keep the terms of the rows, and their number. -/
theorem Rewrites.terms {v v' : Settlement.World} (h : Rewrites v v') :
    v'.wallets.db.tbl_withdrawal.rows.map rowTerms =
      v.wallets.db.tbl_withdrawal.rows.map rowTerms := by
  have hkept : List.Forall₂ (fun r r' => rowTerms r' = rowTerms r) v.wallets.db.tbl_withdrawal.rows
      v'.wallets.db.tbl_withdrawal.rows := by
    refine h.withdrawals.imp fun r r' hr => ?_
    rw [hr.kept]
    rfl
  generalize v.wallets.db.tbl_withdrawal.rows = l at hkept
  generalize v'.wallets.db.tbl_withdrawal.rows = l' at hkept
  induction hkept with
  | nil => rfl
  | cons hr _ ih => rw [List.map_cons, List.map_cons, hr, ih]

theorem answer_payouts {s : Phase} {o : Op} (hmay : may s o) (ho : ¬Pays o) :
    SamePayouts w (answer a o w).2 := by
  cases o with
  | exchange o => exact ⟨rfl, rfl⟩
  | cancelling o => exact ⟨rfl, rfl⟩
  | withdrawing o =>
    cases o with
    | transfer t => exact absurd trivial ho
    | saveWithdrawal obj => exact absurd trivial ho
    | startWithdrawalCron | saveError => exact ⟨rfl, rfl⟩
    | _ =>
      refine ⟨?_, rfl⟩
      simp only [answer, Wallets.World.perform, Wallets.Answers.reply, World.tbl_withdrawal,
        World.withWallets]
      split <;> rfl
  | settlement o => exact ⟨(rewrites_perform hmay w.settlement).terms, rfl⟩

end Calls

/-! ## The accounts -/

/-- What has become of requests and transfers: each list with what was lost on the way. -/
structure Payouts where
  paths : List Path
  stored : List Path
  objects : List NewWithdrawal
  refused : List WithdrawalDto
  lost : List Path

/-- The accounts of a run that started with `w₀`. -/
structure PaidOut (w₀ : Solvency.World) (b : Payouts) (w : World) (phases : List Phase) : Prop where
  requests : Accounted Phase.unsent phases (b.paths.map Prod.fst) b.refused
    (w.arrived.filterMap Request.withdraws)
  asked : ∀ p ∈ b.paths, Asked p
  transfers : w.transfers = b.paths.filterMap Prod.snd
  saved : Accounted Phase.unstored phases b.stored b.lost b.paths
  objects : List.Forall₂ Stored b.stored b.objects
  rows : w.tbl_withdrawal.rows.map rowTerms =
    (World.start w₀).tbl_withdrawal.rows.map rowTerms ++ b.objects.map objectTerms

section Steps

variable {w₀ : Solvency.World} {b : Payouts} {w w' : World} {phases : List Phase} {i : Nat}
  {s s' : Phase} {a : Answers} {dto : WithdrawalDto} {t : Transfer} {obj : NewWithdrawal}

theorem PaidOut.start (w₀ : Solvency.World) : PaidOut w₀ ⟨[], [], [], [], []⟩ (.start w₀) [] where
  requests := .nil
  asked := by simp
  transfers := rfl
  saved := .nil
  objects := .nil
  rows := (List.append_nil _).symm

/-- A step that changes no account: the program holds what it held. -/
theorem PaidOut.same (h : PaidOut w₀ b w phases) (hw : SamePayouts w w')
    (harrived : w'.arrived = w.arrived) (hi : phases[i]? = some s) (hunsent : s'.unsent = s.unsent)
    (hunstored : s'.unstored = s.unstored) : PaidOut w₀ b w' (phases.set i s') where
  requests := by
    rw [harrived]
    exact h.requests.same hi hunsent
  asked := h.asked
  transfers := hw.transfers.trans h.transfers
  saved := h.saved.same hi hunstored
  objects := h.objects
  rows := hw.rows.trans h.rows

/-- The transfer of a request is made, or raises. -/
theorem PaidOut.transfer (h : PaidOut w₀ b w phases) (hi : phases[i]? = some (.asking dto))
    (ht : AsksFor dto t) (a : Answers) :
    PaidOut w₀ { b with paths := b.paths ++ [(dto, some (t, a.withdrawing.transfer t))] }
      (answer a (.withdrawing (.transfer t)) w).2
      (phases.set i (.sent dto t (a.withdrawing.transfer t))) where
  requests := by
    rw [answer_arrived, List.map_append]
    exact h.requests.pass hi rfl rfl
  asked := by
    have hasked : Asked (dto, some (t, a.withdrawing.transfer t)) := by
      rintro sending ⟨⟩
      exact ht
    exact List.forall_mem_append.mpr ⟨h.asked, List.forall_mem_singleton.mpr hasked⟩
  transfers := by
    rw [List.filterMap_append, ← h.transfers]
    rfl
  saved := h.saved.take hi rfl rfl
  objects := h.objects
  rows := h.rows

/-- A request is refused. -/
theorem PaidOut.refuse (h : PaidOut w₀ b w phases) (hi : phases[i]? = some (.asking dto))
    (hw : SamePayouts w w') (harrived : w'.arrived = w.arrived) :
    PaidOut w₀ { b with refused := b.refused ++ [dto] } w' (phases.set i .closed) where
  requests := by
    rw [harrived]
    exact h.requests.lose hi rfl rfl
  asked := h.asked
  transfers := hw.transfers.trans h.transfers
  saved := h.saved.same hi rfl
  objects := h.objects
  rows := hw.rows.trans h.rows

/-- A request is left to the admin. -/
theorem PaidOut.leave (h : PaidOut w₀ b w phases) (hi : phases[i]? = some (.asking dto))
    (hobj : Requested dto obj) (hadmin : ForAdmin obj) (hadded : w'.transfers = w.transfers)
    (hrows : w'.tbl_withdrawal.rows.map rowTerms =
      w.tbl_withdrawal.rows.map rowTerms ++ [objectTerms obj]) (harrived : w'.arrived = w.arrived) :
    PaidOut w₀ { b with
      paths := b.paths ++ [(dto, none)]
      stored := b.stored ++ [(dto, none)]
      objects := b.objects ++ [obj] } w' (phases.set i .closed) where
  requests := by
    rw [harrived, List.map_append]
    exact h.requests.pass hi rfl rfl
  asked := by
    have hasked : Asked (dto, none) := by
      rintro sending ⟨⟩
    exact List.forall_mem_append.mpr ⟨h.asked, List.forall_mem_singleton.mpr hasked⟩
  transfers := by
    rw [hadded, h.transfers, List.filterMap_append]
    exact (List.append_nil _).symm
  saved := by
    have hsaved : Accounted Phase.unstored (phases.set i .closed) b.stored b.lost b.paths :=
      h.saved.same hi rfl
    exact hsaved.through (dto, none)
  objects := List.rel_append h.objects (.cons ⟨hobj, hadmin⟩ .nil)
  rows := by
    rw [hrows, h.rows, List.map_append, List.append_assoc]
    rfl

/-- The row of a transfer is stored. -/
theorem PaidOut.store {r : Except Wallets.Err WithdrawlResponse} (h : PaidOut w₀ b w phases)
    (hi : phases[i]? = some (.sent dto t r)) (hobj : Requested dto obj) (hr : Confirms r obj)
    (hadded : w'.transfers = w.transfers)
    (hrows : w'.tbl_withdrawal.rows.map rowTerms =
      w.tbl_withdrawal.rows.map rowTerms ++ [objectTerms obj]) (harrived : w'.arrived = w.arrived) :
    PaidOut w₀ { b with
      stored := b.stored ++ [(dto, some (t, r))]
      objects := b.objects ++ [obj] } w' (phases.set i .closed) where
  requests := by
    rw [harrived]
    exact h.requests.same hi rfl
  asked := h.asked
  transfers := hadded.trans h.transfers
  saved := h.saved.pass hi rfl rfl
  objects := List.rel_append h.objects (.cons ⟨hobj, hr⟩ .nil)
  rows := by
    rw [hrows, h.rows, List.map_append, List.append_assoc]
    rfl

/-- The row of a transfer is not stored. -/
theorem PaidOut.lose {r : Except Wallets.Err WithdrawlResponse} (h : PaidOut w₀ b w phases)
    (hi : phases[i]? = some (.sent dto t r)) (hw : SamePayouts w w')
    (harrived : w'.arrived = w.arrived) :
    PaidOut w₀ { b with lost := b.lost ++ [(dto, some (t, r))] } w' (phases.set i .closed) where
  requests := by
    rw [harrived]
    exact h.requests.same hi rfl
  asked := h.asked
  transfers := hw.transfers.trans h.transfers
  saved := h.saved.lose hi rfl rfl
  objects := h.objects
  rows := hw.rows.trans h.rows

/-- The row is added, or nothing is changed. -/
theorem saveWithdrawal_cases (a : Answers) (obj : NewWithdrawal) (w : World) :
    SamePayouts w (answer a (.withdrawing (.saveWithdrawal obj)) w).2 ∨
      (answer a (.withdrawing (.saveWithdrawal obj)) w).2.transfers = w.transfers ∧
        (answer a (.withdrawing (.saveWithdrawal obj)) w).2.tbl_withdrawal.rows.map rowTerms =
          w.tbl_withdrawal.rows.map rowTerms ++ [objectTerms obj] := by
  simp only [answer, Wallets.World.perform, Wallets.Answers.reply, World.tbl_withdrawal,
    World.withWallets]
  split
  · exact .inl ⟨rfl, rfl⟩
  · refine .inr ⟨rfl, ?_⟩
    exact List.map_append

theorem PaidOut.saveWithdrawal (h : PaidOut w₀ b w phases) (hi : phases[i]? = some s)
    (hmay : may s (.withdrawing (.saveWithdrawal obj))) (a : Answers) :
    ∃ b', PaidOut w₀ b' (answer a (.withdrawing (.saveWithdrawal obj)) w).2
      (phases.set i .closed) := by
  have harrived := answer_arrived a (.withdrawing (.saveWithdrawal obj)) w
  rcases hmay with ⟨dto, rfl, hobj, hadmin⟩ | ⟨dto, t, r, rfl, hobj, hr⟩
  · rcases saveWithdrawal_cases a obj w with hw | ⟨htransfers, hrows⟩
    · exact ⟨_, h.refuse hi hw harrived⟩
    · exact ⟨_, h.leave hi hobj hadmin htransfers hrows harrived⟩
  · rcases saveWithdrawal_cases a obj w with hw | ⟨htransfers, hrows⟩
    · exact ⟨_, h.lose hi hw harrived⟩
    · exact ⟨_, h.store hi hobj hr htransfers hrows harrived⟩

/-- The phase after a call that is none of these holds what it held. -/
theorem next_unsent {o : Op} (r : Except Empty o.Res) (hmay : may s o) (ho : ¬Pays o) :
    (next s o r).unsent = s.unsent ∧ (next s o r).unstored = s.unstored := by
  have hmove := next_move r hmay
  generalize next s o r = s' at hmove
  cases hmove <;> first | exact ⟨rfl, rfl⟩ | exact absurd trivial ho

/-- Whatever is called and answered, the accounts stay right. -/
theorem PaidOut.answer (h : PaidOut w₀ b w phases) (hi : phases[i]? = some s) {o : Op}
    (hmay : may s o) (a : Answers) :
    ∃ b', PaidOut w₀ b' (Funds.answer a o w).2
      (phases.set i (next s o (Funds.answer a o w).1)) := by
  by_cases ho : Pays o
  · cases o with
    | exchange o => exact ho.elim
    | cancelling o => exact ho.elim
    | withdrawing o =>
      cases o with
      | transfer t =>
        obtain ⟨dto, rfl, ht⟩ := hmay
        exact ⟨_, h.transfer hi ht a⟩
      | saveWithdrawal obj => exact h.saveWithdrawal hi hmay a
      | _ => exact ho.elim
    | settlement o => exact ho.elim
  · obtain ⟨hunsent, hunstored⟩ := next_unsent (Funds.answer a o w).1 hmay ho
    exact ⟨b, h.same (answer_payouts hmay ho) (answer_arrived a o w) hi hunsent hunstored⟩

/-- A request arrives. -/
theorem PaidOut.happen (h : PaidOut w₀ b w phases) {c : Request} {started : List Thread}
    (hc : Arrives c w w' started) : PaidOut w₀ b w' (phases ++ [c.phase]) where
  requests := by
    have hphase : [c].filterMap Request.withdraws = c.phase.unsent.toList := by
      cases c <;> rfl
    rw [hc.arrived, List.filterMap_append, hphase]
    exact h.requests.start c.phase
  asked := h.asked
  transfers := hc.transfers.trans h.transfers
  saved := by
    have hphase : c.phase.unstored = none := by cases c <;> rfl
    simpa [hphase] using h.saved.start c.phase
  objects := h.objects
  rows := by
    have hrows : w'.tbl_withdrawal = w.tbl_withdrawal := by
      unfold World.tbl_withdrawal
      rw [hc.settlement]
    rw [hrows]
    exact h.rows

end Steps

/-! ## Runs -/

/-- Requests, transfers and rows agree: each transfer and each row left to the admin is of
another request, each other row is of another transfer, and the rows have their terms. -/
def PaidAsAsked (w₀ : Solvency.World) (w : World) : Prop :=
  ∃ paths stored objects,
    (paths.map Prod.fst).Subperm (w.arrived.filterMap Request.withdraws) ∧
    (∀ p ∈ paths, Asked p) ∧ w.transfers = paths.filterMap Prod.snd ∧
    stored.Subperm paths ∧ List.Forall₂ Stored stored objects ∧
    w.tbl_withdrawal.rows.map rowTerms =
      (World.start w₀).tbl_withdrawal.rows.map rowTerms ++ objects.map objectTerms

end Exchange.Funds
