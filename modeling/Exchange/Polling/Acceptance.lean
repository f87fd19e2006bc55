import Exchange.Polling.Gate

/-!
# Which deposit requests are accepted

A deposit request looks for an open row, asks an API and then perhaps a provider for
the current block, and saves a row with it. The block of the API is lost, the provider is
asked only after an error was saved, and no error can be saved: its entity is not one of
the connection. So a request that no row stops is rejected (`deposit_spec`), and a request
is answered as it should be iff a row stops it and it could not be accepted
(`acceptedWhenPossible_iff`).
-/

namespace Exchange.Polling

open Async Proc Store Wallets Settlement

/-- What becomes of the calls of one request: the block of the API, the block of the
provider, and whether the row is inserted. All other calls are answered. -/
structure Outcomes where
  api : Option Nat
  provider : Option Nat
  insert : Bool
  deriving DecidableEq

def Outcomes.reply (x : Outcomes) : DepositOp → DepositReply
  | .getblocknobytime _ => ⟨.silent, false, x.api⟩
  | .getBlockNumber _ => ⟨.silent, false, x.provider⟩
  | _ => ⟨.silent, false, none⟩

def Outcomes.answer (x : Outcomes) : Op deposits → Answer deposits
  | .save _ => if x.insert then .ok else .fails
  | .other o => .reply (x.reply o)
  | _ => .ok

/-- The block that some source has. -/
def Outcomes.block (x : Outcomes) : Option Nat := x.api.or x.provider

/-- There is a block, and the row can be inserted. -/
def Outcomes.Possible (x : Outcomes) : Prop := x.block.isSome = true ∧ x.insert = true

instance (x : Outcomes) : Decidable x.Possible := by
  unfold Outcomes.Possible
  infer_instance

def World.deposits (w : World deposits) : List Deposit := w.store.settlement.tbl_deposit.rows

/-- A row of the request's key that is not deleted. -/
def Blocked (dto : DepositDto) (w : World deposits) : Prop :=
  ∃ r ∈ w.deposits, dto.isFor r ∧ r.deleted = .NO

/-- `success` of an answer, if it is `true` or `false`. -/
def reported : Except Err (Option DepositResponse) → Option Bool
  | .ok (some ⟨.no, _⟩) => some false
  | _ => none

/-- A pending row with the block was stored for the request. -/
def StoredFor (dto : DepositDto) (x : Outcomes) (w w' : World deposits) : Prop :=
  ∃ block r, x.block = some block ∧ w'.deposits = w.deposits ++ [r] ∧ dto.isFor r ∧
    r.status = .Pending ∧ r.start_block = some block

/-- The request alone. -/
def Outcomes.run (x : Outcomes) (dto : DepositDto) (w : World deposits) :
    Except Err (Option DepositResponse) × World deposits :=
  (deposit dto).run (respond x.answer) w

/-- The request is accepted, and says so, exactly when it can be. -/
structure AcceptedWhenPossible (dto : DepositDto) (x : Outcomes) (w : World deposits) : Prop where
  stored : StoredFor dto x w (x.run dto w).2 ↔ x.Possible
  response : reported (x.run dto w).1 = some (decide x.Possible)

/-- How a request ends: nothing is stored. -/
inductive Answered (dto : DepositDto) (w : World deposits) :
    Except Err (Option DepositResponse) → World deposits → Prop where
  | refused {w' : World deposits} (hw : w'.deposits = w.deposits) (hblocked : Blocked dto w) :
      Answered dto w (.ok (some alreadyPending)) w'
  | rejected (e : Err) {w' : World deposits} (hw : w'.deposits = w.deposits)
      (hfree : ¬ Blocked dto w) : Answered dto w (.error e) w'

section Request

variable {dto : DepositDto} {x : Outcomes} {w w' : World deposits}

/-- An error is not saved, and that is an error again. -/
theorem wp_saveError {α : Type} {error : SavedError} {source : String}
    {f : Unit → Prog deposits α} {Q : Except Err α → World deposits → Prop}
    (h : Q (.error .rejected) w) :
    wp (respond x.answer) (ask (.saveError error source) >>= f) Q w := by
  apply (wp_bind _ _ _).mpr
  exact h

theorem respond_api (bsc : Bool) (w : World deposits) :
    respond x.answer (.other (.getblocknobytime bsc : DepositOp)) w =
      (match x.api with
        | none => .error .rejected
        | some block => .ok block, w) := rfl

/-- The block of the API is lost, and that of the provider is never asked for. -/
theorem currentBlock_spec (network : String) :
    wp (respond x.answer) (currentBlock network) (fun r w' => w' = w ∧
      (r = .ok none ∨ r = .error .rejected)) w := by
  unfold currentBlock
  rw [wp_tryCatch, wp_bind]
  apply (wp_call _ _).mpr
  rw [respond_api]
  cases hapi : x.api with
  | some block => exact ⟨rfl, .inl rfl⟩
  | none =>
    apply wp_saveError
    exact ⟨rfl, .inr rfl⟩

/-- What the check of a request finds. -/
theorem respond_checked (dto : DepositDto) (w : World deposits) : ∃ exist : Bool,
    respond x.answer (.other (.checkForPendingDeposit dto.user_id dto.coin dto.network
      dto.to_address : DepositOp)) w = (.ok exist, w) ∧ (exist = true ↔ Blocked dto w) := by
  refine ⟨_, rfl, ?_⟩
  simp only [List.any_eq_true, decide_eq_true_eq, Blocked, DepositDto.isFor, World.deposits]
  constructor
  · rintro ⟨r, hr, huser, hcoin, hnetwork, hdeleted, haddress⟩
    exact ⟨r, hr, ⟨huser, hcoin, hnetwork, haddress⟩, hdeleted⟩
  · rintro ⟨r, hr, ⟨huser, hcoin, hnetwork, haddress⟩, hdeleted⟩
    exact ⟨r, hr, huser, hcoin, hnetwork, hdeleted, haddress⟩

theorem deposit_spec : wp (respond x.answer) (deposit dto) (Answered dto w) w := by
  unfold deposit
  rw [wp_tryCatch, wp_bind]
  apply (wp_call _ _).mpr
  obtain ⟨exist, hcheck, hexist⟩ := respond_checked (x := x) dto w
  rw [hcheck]
  cases exist with
  | true => exact .refused rfl (hexist.mp rfl)
  | false =>
    have hfree : ¬ Blocked dto w := fun h => Bool.false_ne_true (hexist.mpr h)
    simp only [Bool.false_eq_true, if_false]
    rw [wp_bind]
    apply wp_mono (currentBlock_spec dto.network)
    rintro r w₁ ⟨rfl, rfl | rfl⟩
    · -- no block: the error is not saved, and neither is the one of that
      apply wp_saveError
      apply wp_saveError
      exact .rejected _ rfl hfree
    · apply wp_saveError
      exact .rejected _ rfl hfree

/-- Nothing is stored. -/
theorem not_stored (hw : (x.run dto w).2.deposits = w.deposits) :
    ¬ StoredFor dto x w (x.run dto w).2 := by
  rintro ⟨block, r, -, hrows, -⟩
  rw [hw] at hrows
  have hlength := congrArg List.length hrows
  simp at hlength

end Request

/-- **A deposit request is accepted exactly when it can be** iff it cannot be, and a row that
is not deleted stops it. -/
theorem acceptedWhenPossible_iff (dto : DepositDto) (x : Outcomes) (w : World deposits) :
    AcceptedWhenPossible dto x w ↔ Blocked dto w ∧ ¬ x.Possible := by
  have hanswered : Answered dto w (x.run dto w).1 (x.run dto w).2 := deposit_spec
  generalize hr : (x.run dto w).1 = r at hanswered
  generalize hw' : (x.run dto w).2 = w' at hanswered
  cases hanswered with
  | refused hw hblocked =>
    constructor
    · intro h
      have hresponse := h.response
      rw [hr] at hresponse
      exact ⟨hblocked, of_decide_eq_false (Option.some.inj hresponse).symm⟩
    · rintro ⟨-, hnot⟩
      refine ⟨iff_of_false (not_stored (hw' ▸ hw)) hnot, ?_⟩
      rw [hr, decide_eq_false hnot]
      rfl
  | rejected e hw hfree =>
    refine iff_of_false (fun h => ?_) fun h => hfree h.1
    have hresponse := h.response
    rw [hr] at hresponse
    cases hresponse

def usdtDeposit : DepositDto := ⟨1, .USDT, "BEP20", "addr"⟩

/-- The API has a block, or the provider has one, or neither, and the request is rejected. -/
theorem deposit_not_accepted :
    ¬ AcceptedWhenPossible usdtDeposit ⟨some 7, some 7, true⟩ .noDeposits ∧
      ¬ AcceptedWhenPossible usdtDeposit ⟨none, some 7, true⟩ .noDeposits ∧
      ¬ AcceptedWhenPossible usdtDeposit ⟨none, none, true⟩ .noDeposits := by
  have hrejected {x : Outcomes} (h : reported (x.run usdtDeposit .noDeposits).1 = none) :
      ¬ AcceptedWhenPossible usdtDeposit x .noDeposits := by
    intro haccepted
    rw [haccepted.response] at h
    cases h
  exact ⟨hrejected rfl, hrejected rfl, hrejected rfl⟩

end Exchange.Polling
