import Exchange.Async.Loop
import Exchange.Wallets.Database

/-!
# Deposit addresses

`POST /getAddress` looks for the wallet of a user on a network, and makes one when
there is none. The look-up, the key and the insert are awaited one after the
other, and nothing in the table keeps two requests from inserting.

`oneWallet_of_unclaimed`: there is one wallet for a user and network, and one
address is answered for them, as long as no insert finds that the wallet has been
made meanwhile (`two_addresses`).
-/

namespace Exchange.Wallets.Address

open Async Store

structure GetAddressDto where
  user_id : Nat
  coin : Coin
  network : String
  deriving DecidableEq

inductive Err where
  | rejected
  | typeError
  deriving DecidableEq

/-- What makes keys. -/
inductive Library where
  | sendCrypto
  | ethers
  | bnc
  deriving DecidableEq

/-- The calls of a request; `respond` is its answer. -/
inductive Op where
  | searchAddress (user_id : Nat) (network : String)
  | newAccount (library : Library)
  | saveAddress (user_id : Nat) (network address privateKey : String)
  | respond (dto : GetAddressDto) (address : Option String)
  deriving DecidableEq

abbrev Op.Res : Op → Type
  | searchAddress .. => Option Wallet
  | newAccount _ => String × String
  | saveAddress .. => Wallet
  | respond .. => Unit

abbrev Prog := Proc Op Op.Res Err

def call (o : Op) : Prog o.Res := Proc.call o

def library (network : String) : Option Library :=
  if network = "Bitcoin" then some .sendCrypto
  else if network = "BEP20" ∨ network = "ERC20" ∨ network = "Ethereum" then some .ethers
  else if network = "BEP2" then some .bnc
  else none

/-- The address and its key. For another network it is `undefined`, which cannot
be taken apart. -/
def generateAdress (network : String) : Prog (String × String) :=
  match library network with
  | some library => call (.newAccount library)
  | none => .throw .typeError

/-- After the key is made. -/
def saving (dto : GetAddressDto) (address privateKey : String) : Prog (Option String) := do
  let wallet : Wallet ← call (.saveAddress dto.user_id dto.network address privateKey)
  pure wallet.deposit_address

/-- After the wallet is looked for. -/
def searched (dto : GetAddressDto) : Option Wallet → Prog (Option String)
  | some wallet => pure wallet.deposit_address
  | none => do
    let (address, privateKey) ← generateAdress dto.network
    saving dto address privateKey

/-- `POST /getAddress`. -/
def genAddress (dto : GetAddressDto) : Prog (Option String) := do
  let wallet : Option Wallet ← call (.searchAddress dto.user_id dto.network)
  searched dto wallet

/-- What answers a request. -/
def responding (dto : GetAddressDto) (handler : Prog (Option String)) : Prog Unit := do
  let address ← handler
  call (.respond dto address)

def request (dto : GetAddressDto) : Prog Unit := responding dto (genAddress dto)

/-! ## The event loop -/

/-- The tables, and the addresses that were answered. -/
structure World where
  db : Tables
  responses : List (GetAddressDto × Option String)

/-- The row of a new wallet: the balances have their defaults. -/
def newWallet (id user_id : Nat) (network address privateKey : String) : Wallet where
  id := id
  user_id := user_id
  network := network
  deposit_address := some address
  privateKey := some privateKey
  usdt_balance := 0
  bnb_balance := 0
  eth_balance := 0
  btc_balance := 0
  drnh_balance := 0

def World.saveAddress (w : World) (user_id : Nat) (network address privateKey : String) : World :=
  { w with db := { w.db with
      tbl_wallet := w.db.tbl_wallet.insert
        (newWallet w.db.tbl_wallet.next user_id network address privateKey) rfl } }

def Op.awaits : Op → Bool
  | .respond .. => false
  | _ => true

def effect : (o : Op) → World → Except Err o.Res × World × List (Prog Unit)
  | .respond dto address, w =>
      (.ok (), { w with responses := w.responses ++ [(dto, address)] }, [])
  | _, w => (.error .rejected, w, [])

/-- A call fails, or it succeeds; a new account is given. -/
inductive Answer where
  | fails
  | ok (account : String × String)

def answer (e : Answer) : (o : Op) → World → Option (Except Err o.Res × World)
  | .searchAddress user_id network, w =>
      match e with
      | .fails => some (.error .rejected, w)
      | .ok _ => some (.ok (w.db.searchAddress user_id network), w)
  | .newAccount _, w =>
      match e with
      | .fails => some (.error .rejected, w)
      | .ok account => some (.ok account, w)
  | .saveAddress user_id network address privateKey, w =>
      match e with
      | .fails => some (.error .rejected, w)
      | .ok _ =>
          some (.ok (newWallet w.db.tbl_wallet.next user_id network address privateKey),
            w.saveAddress user_id network address privateKey)
  | .respond .., _ => none

/-- Requests arrive at any time. -/
def loop : Loop Op Op.Res Err World Answer GetAddressDto where
  awaits := Op.awaits
  effect := effect
  answer := answer
  happen := fun dto w => some (w, [request dto])

abbrev State := Loop.State Op Op.Res Err World

abbrev Turn := Loop.Turn Answer GetAddressDto

def State.start (db : Tables) : State := ⟨⟨db, []⟩, []⟩

/-! ## One wallet -/

/-- One wallet for each user and network. -/
def Unique (db : Tables) : Prop :=
  ∀ r ∈ db.tbl_wallet.rows, ∀ r' ∈ db.tbl_wallet.rows,
    r.user_id = r'.user_id → r.network = r'.network → r = r'

/-- One wallet, and one address that is answered. -/
structure OneWallet (w : World) : Prop where
  rows : Unique w.db
  answers : ∀ x ∈ w.responses, ∀ y ∈ w.responses, x.1.user_id = y.1.user_id →
    x.1.network = y.1.network → x.2 = y.2

/-- A wallet is inserted only while there is none of this user and network. -/
def Unclaimed (s : State) (t : Turn) : Prop :=
  ∀ i account p user_id network address privateKey, t = .perform i (.ok account) →
    s.threads[i]? = some p → p.next = some (.saveAddress user_id network address privateKey) →
    ∀ r ∈ s.world.db.tbl_wallet.rows, ¬ (r.user_id = user_id ∧ r.network = network)

/-- The address is that of the wallet of the request. -/
def World.Has (w : World) (dto : GetAddressDto) (address : Option String) : Prop :=
  ∃ r ∈ w.db.tbl_wallet.rows, r.user_id = dto.user_id ∧ r.network = dto.network ∧
    r.deposit_address = address

/-- After no wallet was found. -/
def making (dto : GetAddressDto) (library : Library) : Prog (Option String) := do
  let (address, privateKey) ← call (.newAccount library)
  saving dto address privateKey

/-- Where a program may stand. -/
inductive Placed (w : World) : Prog Unit → Prop where
  | ended (a : Unit) : Placed w (.pure a)
  | raised (e : Err) : Placed w (.throw e)
  | request (dto : GetAddressDto) : Placed w (request dto)
  | making (dto : GetAddressDto) (library : Library) :
      Placed w (responding dto (making dto library))
  | saving (dto : GetAddressDto) (address privateKey : String) :
      Placed w (responding dto (saving dto address privateKey))
  | responding (dto : GetAddressDto) (address : Option String) (h : w.Has dto address) :
      Placed w (call (.respond dto address))

/-- The invariant of a run. -/
structure Kept (s : State) : Prop where
  rows : Unique s.world.db
  answers : ∀ x ∈ s.world.responses, s.world.Has x.1 x.2
  placed : ∀ p ∈ s.threads, Placed s.world p

section Steps

variable {s s' : State} {t : Turn} {w w' : World}

theorem World.Has.mono (h : ∀ r ∈ w.db.tbl_wallet.rows, r ∈ w'.db.tbl_wallet.rows)
    {dto : GetAddressDto} {address : Option String} (hw : w.Has dto address) :
    w'.Has dto address := by
  obtain ⟨r, hr, hrest⟩ := hw
  exact ⟨r, h r hr, hrest⟩

theorem Placed.mono (h : ∀ r ∈ w.db.tbl_wallet.rows, r ∈ w'.db.tbl_wallet.rows) {p : Prog Unit}
    (hp : Placed w p) : Placed w' p := by
  cases hp with
  | ended a => exact .ended a
  | raised e => exact .raised e
  | request dto => exact .request dto
  | making dto library => exact .making dto library
  | saving dto address privateKey => exact .saving dto address privateKey
  | responding dto address hw => exact .responding dto address (hw.mono h)

/-- The wallet that is found is that of the user on the network. -/
theorem has_of_search {dto : GetAddressDto} {wallet : Wallet}
    (h : w.db.searchAddress dto.user_id dto.network = some wallet) :
    w.Has dto wallet.deposit_address := by
  have hsome := List.find?_some h
  simp only [decide_eq_true_eq] at hsome
  exact ⟨wallet, List.mem_of_find?_eq_some h, hsome.2, hsome.1, rfl⟩

/-- One row has the address of a request. -/
theorem Kept.oneWallet (h : Kept s) : OneWallet s.world := by
  refine ⟨h.rows, fun x hx y hy huser hnetwork => ?_⟩
  obtain ⟨r, hr, hruser, hrnetwork, hraddress⟩ := h.answers x hx
  obtain ⟨r', hr', hruser', hrnetwork', hraddress'⟩ := h.answers y hy
  have hsame : r = r' := h.rows r hr r' hr' (by rw [hruser, huser, hruser'])
    (by rw [hrnetwork, hnetwork, hrnetwork'])
  rw [← hraddress, ← hraddress', hsame]

/-- A program moves on, and the world stays. -/
theorem Kept.move (h : Kept s) {i : Nat} {p : Prog Unit} (hp : Placed s.world p) :
    Kept ⟨s.world, s.threads.set i p⟩ :=
  ⟨h.rows, h.answers, forall_mem_set h.placed hp⟩

/-- A wallet is inserted. -/
theorem Kept.insert (h : Kept s) {i : Nat} {dto : GetAddressDto} {address privateKey : String}
    (hnew : ∀ r ∈ s.world.db.tbl_wallet.rows,
      ¬ (r.user_id = dto.user_id ∧ r.network = dto.network)) :
    Kept ⟨s.world.saveAddress dto.user_id dto.network address privateKey,
      s.threads.set i (call (.respond dto (some address)))⟩ := by
  have hmono : ∀ r ∈ s.world.db.tbl_wallet.rows,
      r ∈ (s.world.saveAddress dto.user_id dto.network address privateKey).db.tbl_wallet.rows :=
    fun r hr => List.mem_append_left _ hr
  refine ⟨?_, fun x hx => (h.answers x hx).mono hmono, ?_⟩
  · intro r hr r' hr' huser hnetwork
    rcases List.mem_append.mp hr with hr | hr
    · rcases List.mem_append.mp hr' with hr' | hr'
      · exact h.rows r hr r' hr' huser hnetwork
      · obtain rfl := List.mem_singleton.mp hr'
        exact absurd ⟨huser, hnetwork⟩ (hnew r hr)
    · obtain rfl := List.mem_singleton.mp hr
      rcases List.mem_append.mp hr' with hr' | hr'
      · exact absurd ⟨huser.symm, hnetwork.symm⟩ (hnew r' hr')
      · exact (List.mem_singleton.mp hr').symm
  · apply forall_mem_set
    · exact fun p hp => (h.placed p hp).mono hmono
    · exact .responding dto _
        ⟨_, List.mem_append_right _ (List.mem_singleton.mpr rfl), rfl, rfl, rfl⟩

/-- A request is answered. -/
theorem Kept.respond (h : Kept s) {i : Nat} {dto : GetAddressDto} {address : Option String}
    (hw : s.world.Has dto address) :
    Kept ⟨{ s.world with responses := s.world.responses ++ [(dto, address)] },
      s.threads.set i (.pure ()) ++ []⟩ := by
  refine ⟨h.rows, ?_, ?_⟩
  · exact List.forall_mem_append.mpr ⟨h.answers, List.forall_mem_singleton.mpr hw⟩
  · rw [List.append_nil]
    refine forall_mem_set (fun p hp => ?_) (.ended ())
    have hplaced := h.placed p hp
    apply hplaced.mono
    exact fun r hr => hr

/-- After the look-up, whatever was found. -/
theorem placed_searched {dto : GetAddressDto} {wallet : Option Wallet}
    (h : w.db.searchAddress dto.user_id dto.network = wallet) :
    Placed w (responding dto (searched dto wallet)) := by
  cases wallet with
  | some wallet => exact .responding dto _ (has_of_search h)
  | none =>
    unfold searched generateAdress
    cases library dto.network with
    | some library => exact .making dto library
    | none => exact .raised .typeError

/-- A call is answered. -/
theorem Kept.answered (h : Kept s) {i : Nat} {e : Answer} {o : Op}
    {k : Except Err o.Res → Prog Unit} {r : Except Err o.Res}
    (hi : s.threads[i]? = some (.op o k)) (hanswer : answer e o s.world = some (r, w))
    (hok : Unclaimed s (.perform i e)) : Kept ⟨w, s.threads.set i (k r)⟩ := by
  have hplaced := h.placed _ (List.mem_of_getElem? hi)
  generalize hp : Proc.op o k = p at hplaced
  cases hplaced with
  | ended a => cases hp
  | raised e => cases hp
  | request dto =>
    cases hp
    cases e with
    | fails =>
      cases hanswer
      exact h.move (.raised _)
    | ok account =>
      cases hanswer
      exact h.move (placed_searched rfl)
  | making dto library =>
    cases hp
    cases e with
    | fails =>
      cases hanswer
      exact h.move (.raised _)
    | ok account =>
      cases hanswer
      exact h.move (.saving dto account.1 account.2)
  | saving dto address privateKey =>
    cases hp
    cases e with
    | fails =>
      cases hanswer
      exact h.move (.raised _)
    | ok account =>
      cases hanswer
      exact h.insert (hok i account _ _ _ _ _ rfl hi rfl)
  | responding dto address hw =>
    cases hp
    cases hanswer

theorem Steps.kept (hstep : loop.Steps s t s') (h : Kept s) (hok : Unclaimed s t) : Kept s' := by
  cases hstep with
  | idle => exact h
  | happen hc =>
    cases hc
    exact ⟨h.rows, h.answers, forall_mem_snoc h.placed (.request _)⟩
  | perform hi ho hanswer => exact h.answered hi hanswer hok
  | @resume i o k hi ho =>
    have hplaced := h.placed _ (List.mem_of_getElem? hi)
    generalize hp : Proc.op o k = p at hplaced
    cases hplaced with
    | ended a => cases hp
    | raised e => cases hp
    | request | making | saving =>
      cases hp
      cases ho
    | responding dto address hw =>
      cases hp
      exact h.respond hw

end Steps

/-- **One wallet per user and network**, in every state of a run in which no wallet
is inserted beside another. -/
theorem oneWallet_of_unclaimed (db : Tables) (turns : List Turn) (hstart : Unique db)
    (hturns : loop.Meets Unclaimed (State.start db) turns) :
    OneWallet (loop.run (State.start db) turns).world := by
  have hinit : Kept (State.start db) := ⟨hstart, nofun, nofun⟩
  exact (hturns.along loop Steps.kept hinit).oneWallet

/-! ## Two requests -/

/-- Nothing is stored. -/
def noWallets : Tables := ⟨.empty _, .empty _, .empty _, .empty _⟩

def bep20 : GetAddressDto := ⟨1, .USDT, "BEP20"⟩

/-- The second request looks after the first has inserted, and before it answers. -/
def lateRequest : List Turn :=
  [.happen bep20, .happen bep20, .perform 0 (.ok ("", "")), .perform 0 (.ok ("0xa", "a")),
    .perform 0 (.ok ("", "")), .perform 1 (.ok ("", "")), .resume 1, .resume 0]

theorem oneWallet_lateRequest :
    (loop.run (State.start noWallets) lateRequest).world.responses =
        [(bep20, some "0xa"), (bep20, some "0xa")] ∧
      OneWallet (loop.run (State.start noWallets) lateRequest).world := by
  refine ⟨by decide +kernel, ?_⟩
  apply oneWallet_of_unclaimed _ _ fun r hr => by cases hr
  refine ⟨?_, ?_, ?_, ?_, ?_, ?_, ?_, ?_, trivial⟩
  case refine_5 =>
    rintro i account p user_id network address privateKey - - - r hr
    cases hr
  case refine_1 | refine_2 | refine_7 | refine_8 =>
    rintro i account p user_id network address privateKey ⟨⟩
  all_goals rintro i account p user_id network address privateKey ⟨⟩ ⟨⟩ ⟨⟩

/-- Two requests look before either inserts: two wallets, and two answers. -/
def twoRequests : List Turn :=
  [.happen bep20, .happen bep20, .perform 0 (.ok ("", "")), .perform 1 (.ok ("", "")),
    .perform 0 (.ok ("0xa", "a")), .perform 1 (.ok ("0xb", "b")), .perform 0 (.ok ("", "")),
    .perform 1 (.ok ("", "")), .resume 0, .resume 1]

theorem two_addresses : ¬ OneWallet (loop.run (State.start noWallets) twoRequests).world := by
  intro h
  have hresponses : (loop.run (State.start noWallets) twoRequests).world.responses =
      [(bep20, some "0xa"), (bep20, some "0xb")] := by decide +kernel
  have hsame := h.answers (bep20, some "0xa") (by rw [hresponses]; simp) (bep20, some "0xb")
    (by rw [hresponses]; simp) rfl rfl
  exact absurd hsame (by decide)

end Exchange.Wallets.Address
