import Exchange.Async.Session
import Exchange.Wallets.Address

/-!
# Whose addresses are answered

Requests for an address may make two wallets for one user and network, but none of them
is lost: the key of every address that is ever answered is in the table, beside that
address, under the user and network that asked (`addresses_kept`).
-/

namespace Exchange.Wallets.Address

open Async Async.Proc Store

/-! ## The protocol of a request -/

/-- How far a request is. -/
inductive Phase where
  | asking (dto : GetAddressDto)
  | making (dto : GetAddressDto)
  | made (dto : GetAddressDto) (account : String × String)
  | answering (dto : GetAddressDto) (address : Option String)
  | closed

def may (s : Phase) : Op → Prop
  | .searchAddress user_id network =>
      ∃ dto, s = .asking dto ∧ user_id = dto.user_id ∧ network = dto.network
  | .newAccount _ => ∃ dto, s = .making dto
  | .saveAddress user_id network address privateKey =>
      ∃ dto, s = .made dto (address, privateKey) ∧ user_id = dto.user_id ∧ network = dto.network
  | .respond dto address => s = .answering dto address

def Phase.found (s : Phase) (wallet : Option Wallet) : Phase :=
  match s, wallet with
  | .asking dto, some wallet => .answering dto wallet.deposit_address
  | .asking dto, none => .making dto
  | _, _ => .closed

def Phase.make (s : Phase) (account : String × String) : Phase :=
  match s with
  | .making dto => .made dto account
  | _ => .closed

def Phase.save (s : Phase) (wallet : Wallet) : Phase :=
  match s with
  | .made dto _ => .answering dto wallet.deposit_address
  | _ => .closed

def next (s : Phase) : (o : Op) → Except Err o.Res → Phase
  | .searchAddress .., .ok wallet => s.found wallet
  | .newAccount _, .ok account => s.make account
  | .saveAddress .., .ok wallet => s.save wallet
  | _, _ => .closed

def protocol : Protocol Op Op.Res Err Phase := ⟨may, next⟩

/-- Nothing is known of the answers. -/
abbrev AnyAnswer (o : Op) (_ : Except Err o.Res) : Prop := True

/-- Every request keeps to the protocol. -/
theorem request_keeps (dto : GetAddressDto) :
    Keeps protocol AnyAnswer (request dto) (fun _ _ => True) (.asking dto) := by
  have hrespond : ∀ address, Keeps protocol AnyAnswer (call (.respond dto address))
      (fun _ _ => True) (.answering dto address) :=
    fun address => Keeps.call rfl fun _ _ => trivial
  unfold request responding
  apply Keeps.bind
  unfold genAddress
  apply Keeps.bind
  apply Keeps.call
  · exact ⟨dto, rfl, rfl, rfl⟩
  rintro (e | wallet) -
  · trivial
  cases wallet with
  | some wallet => exact hrespond wallet.deposit_address
  | none =>
    show Keeps protocol AnyAnswer (generateAdress dto.network >>= _) _ (.making dto)
    apply Keeps.bind
    unfold generateAdress
    cases library dto.network with
    | none => trivial
    | some library =>
      apply Keeps.call
      · exact ⟨dto, rfl⟩
      rintro (e | account) -
      · trivial
      show Keeps protocol AnyAnswer (call (.saveAddress dto.user_id dto.network account.1 account.2)
        >>= _) _ (.made dto account)
      apply Keeps.bind
      apply Keeps.call
      · exact ⟨dto, rfl, rfl, rfl⟩
      rintro (e | wallet) -
      · trivial
      · exact hrespond wallet.deposit_address

/-! ## Custody -/

/-- The key of a row opens its address. -/
def Opened (opens : String → String → Prop) (r : Wallet) : Prop :=
  ∃ address privateKey, r.deposit_address = some address ∧ r.privateKey = some privateKey ∧
    opens address privateKey

/-- The key of an address is in the table, under its user and network. -/
def World.Keeps (opens : String → String → Prop) (w : World) (dto : GetAddressDto)
    (address : Option String) : Prop :=
  ∃ r ∈ w.db.tbl_wallet.rows, r.user_id = dto.user_id ∧ r.network = dto.network ∧
    r.deposit_address = address ∧ Opened opens r

/-- What a request holds. -/
def World.Right (opens : String → String → Prop) (w : World) : Phase → Prop
  | .made _ account => opens account.1 account.2
  | .answering dto address => w.Keeps opens dto address
  | _ => True

/-- The invariant of a run. -/
structure Custody (opens : String → String → Prop) (db : Tables) (w : World) (phases : List Phase) :
    Prop where
  rows : ∃ added, w.db.tbl_wallet.rows = db.tbl_wallet.rows ++ added
  opened : ∀ r ∈ w.db.tbl_wallet.rows, Opened opens r
  answers : ∀ x ∈ w.responses, w.Keeps opens x.1 x.2
  phases : ∀ s ∈ phases, w.Right opens s

section Steps

variable {opens : String → String → Prop} {db : Tables} {w w' : World} {phases : List Phase}
  {i : Nat} {s s' : Phase}

theorem World.Keeps.mono (h : ∀ r ∈ w.db.tbl_wallet.rows, r ∈ w'.db.tbl_wallet.rows)
    {dto : GetAddressDto} {address : Option String} (hw : w.Keeps opens dto address) :
    w'.Keeps opens dto address := by
  obtain ⟨r, hr, hrest⟩ := hw
  exact ⟨r, h r hr, hrest⟩

theorem World.Right.mono (h : ∀ r ∈ w.db.tbl_wallet.rows, r ∈ w'.db.tbl_wallet.rows)
    (hs : w.Right opens s) : w'.Right opens s := by
  cases s with
  | answering dto address => exact World.Keeps.mono h hs
  | made dto account => exact hs
  | asking dto => trivial
  | making dto => trivial
  | closed => trivial

/-- A request moves on, and the tables stay. -/
theorem Custody.move (h : Custody opens db w phases) (hs : w.Right opens s) :
    Custody opens db w (phases.set i s) :=
  ⟨h.rows, h.opened, h.answers, forall_mem_set h.phases hs⟩

/-- The wallet that is found holds the key of its address. -/
theorem Custody.found (h : Custody opens db w phases) (dto : GetAddressDto) :
    w.Right opens (Phase.found (.asking dto) (w.db.searchAddress dto.user_id dto.network)) := by
  cases hsearch : w.db.searchAddress dto.user_id dto.network with
  | none => trivial
  | some wallet =>
    have hsome := List.find?_some hsearch
    simp only [decide_eq_true_eq] at hsome
    have hmem : wallet ∈ w.db.tbl_wallet.rows := List.mem_of_find?_eq_some hsearch
    exact ⟨wallet, hmem, hsome.2, hsome.1, rfl, h.opened wallet hmem⟩

/-- A wallet is stored with the key that was made for it. -/
theorem Custody.save (h : Custody opens db w phases) {dto : GetAddressDto}
    {account : String × String} (haccount : opens account.1 account.2) :
    Custody opens db (w.saveAddress dto.user_id dto.network account.1 account.2)
      (phases.set i (.answering dto (some account.1))) := by
  have hmono : ∀ r ∈ w.db.tbl_wallet.rows,
      r ∈ (w.saveAddress dto.user_id dto.network account.1 account.2).db.tbl_wallet.rows :=
    fun r hr => List.mem_append_left _ hr
  have hnew : Opened opens
      (newWallet w.db.tbl_wallet.next dto.user_id dto.network account.1 account.2) :=
    ⟨account.1, account.2, rfl, rfl, haccount⟩
  constructor
  · obtain ⟨added, hadded⟩ := h.rows
    refine ⟨added ++
      [newWallet w.db.tbl_wallet.next dto.user_id dto.network account.1 account.2], ?_⟩
    rw [← List.append_assoc, ← hadded]
    rfl
  · exact List.forall_mem_append.mpr ⟨h.opened, List.forall_mem_singleton.mpr hnew⟩
  · exact fun x hx => (h.answers x hx).mono hmono
  · refine forall_mem_set (fun s hs => World.Right.mono hmono (h.phases s hs)) ?_
    exact ⟨_, List.mem_append_right _ (List.mem_singleton.mpr rfl), rfl, rfl, rfl, hnew⟩

/-- A request is answered. -/
theorem Custody.respond (h : Custody opens db w phases) {dto : GetAddressDto}
    {address : Option String} (hi : phases[i]? = some (.answering dto address)) :
    Custody opens db { w with responses := w.responses ++ [(dto, address)] }
      (phases.set i .closed) where
  rows := h.rows
  opened := h.opened
  answers := by
    have hkept : w.Keeps opens dto address := h.phases _ (List.mem_of_getElem? hi)
    exact List.forall_mem_append.mpr ⟨h.answers, List.forall_mem_singleton.mpr hkept⟩
  phases := by
    refine forall_mem_set (fun s hs => ?_) trivial
    have hright : w.Right opens s := h.phases s hs
    exact hright.mono fun r hr => hr

/-- A call is answered. -/
theorem Custody.answered (h : Custody opens db w phases) {e : Answer} {o : Op}
    {r : Except Err o.Res} (he : ∀ account, e = .ok account → opens account.1 account.2)
    (hanswer : answer e o w = some (r, w')) (hi : phases[i]? = some s) (hmay : may s o) :
    Custody opens db w' (phases.set i (next s o r)) := by
  cases o with
  | respond dto address => cases hanswer
  | searchAddress user_id network =>
    obtain ⟨dto, rfl, rfl, rfl⟩ := hmay
    cases e with
    | fails =>
      cases hanswer
      exact h.move trivial
    | ok account =>
      cases hanswer
      exact h.move (h.found dto)
  | newAccount library =>
    obtain ⟨dto, rfl⟩ := hmay
    cases e with
    | fails =>
      cases hanswer
      exact h.move trivial
    | ok account =>
      cases hanswer
      have hright : w.Right opens (.made dto account) := he account rfl
      exact h.move hright
  | saveAddress user_id network address privateKey =>
    obtain ⟨dto, rfl, rfl, rfl⟩ := hmay
    cases e with
    | fails =>
      cases hanswer
      exact h.move trivial
    | ok account =>
      cases hanswer
      have hmade : w.Right opens (.made dto (address, privateKey)) :=
        h.phases _ (List.mem_of_getElem? hi)
      exact h.save hmade

end Steps

/-- **No key is lost.** In every state of every run of address requests, in whatever order
their calls are answered and whichever fail: the wallets that there were are kept, and
every address that was answered is that of a wallet of the user and network that asked,
whose key opens it. -/
theorem addresses_kept (opens : String → String → Prop) (db : Tables) (turns : List Turn)
    (hstart : ∀ r ∈ db.tbl_wallet.rows, Opened opens r)
    (hturns : ∀ t ∈ turns, ∀ i e, t = .perform i e →
      ∀ account, e = .ok account → opens account.1 account.2) :
    let w := (loop.run (State.start db) turns).world
    (∃ added, w.db.tbl_wallet.rows = db.tbl_wallet.rows ++ added) ∧
      ∀ x ∈ w.responses, w.Keeps opens x.1 x.2 := by
  have hrun : ∃ phases, Phased protocol AnyAnswer (loop.run (State.start db) turns).threads phases ∧
      Custody opens db (loop.run (State.start db) turns).world phases := by
    refine loop.sessions (Custody opens db) ?_ ?_ ?_ hturns .nil ?_
    · intro dto w w' started phases hc h
      cases hc
      refine ⟨[.asking dto], .cons (request_keeps dto) .nil, h.rows, h.opened, h.answers, ?_⟩
      exact forall_mem_snoc h.phases trivial
    · intro e o w r w' phases i s he hanswer h hi hmay
      exact ⟨trivial, h.answered he hanswer hi hmay⟩
    · intro o w phases i s ho h hi hmay
      cases o with
      | respond dto address =>
        cases hmay
        refine ⟨trivial, [], .nil, ?_⟩
        rw [List.append_nil]
        exact h.respond hi
      | _ => cases ho
    · exact ⟨⟨[], (List.append_nil _).symm⟩, hstart, nofun, nofun⟩
  obtain ⟨phases, -, h⟩ := hrun
  exact ⟨h.rows, h.answers⟩

/-- Two wallets and two answers, and a key for each. -/
theorem both_kept :
    let w := (loop.run (State.start noWallets) twoRequests).world
    w.responses = [(bep20, some "0xa"), (bep20, some "0xb")] ∧
      ∀ x ∈ w.responses, w.Keeps (fun address privateKey =>
        (address, privateKey) ∈ [("", ""), ("0xa", "a"), ("0xb", "b")]) x.1 x.2 := by
  refine ⟨by decide +kernel, ?_⟩
  refine (addresses_kept _ noWallets twoRequests nofun ?_).2
  intro t ht i e ht' account he
  subst ht' he
  simp only [twoRequests, List.mem_cons, reduceCtorEq, Loop.Turn.perform.injEq, Answer.ok.injEq,
    List.not_mem_nil, false_or, or_false] at ht
  rcases ht with ⟨-, rfl⟩ | ⟨-, rfl⟩ | ⟨-, rfl⟩ | ⟨-, rfl⟩ | ⟨-, rfl⟩ | ⟨-, rfl⟩ <;> decide

end Exchange.Wallets.Address
