import Exchange.Async.Loop
import Exchange.Text.Numeral
import Exchange.Web3.Confirmation

/-!
# The search for a deposit

`Web3Service.findTransactionForDeposit` lists the transactions of an address and starts a
callback for each, which looks up the confirmations of those that match and assigns
`found_transaction`. The callbacks are not awaited.

`returned_null`: whatever the callbacks do, the search returns what the variable was
declared with. So it finds what it should iff there is nothing to be found
(`findsDeposit_iff`).
-/

namespace Exchange.Web3

open Async Store Text Web3Service

/-! ## The program -/

/-- A transaction in the list of a chain. -/
structure ListedTx where
  hash : String
  blockNumber : Nat
  input : String
  deriving DecidableEq

inductive AbiValue where
  | address (a : String)
  | uint256 (n : Nat)
  deriving DecidableEq

structure AbiField where
  type : String
  name : String

/-- An object: the properties that it has. -/
abbrev Decoded := List (String × AbiValue)

/-- What the block explorer lists, what is encoded in an input, and the texts of
`fromWei(_, 'ether')`. -/
structure Explorer where
  tx_list : List ListedTx
  decode : String → Option (String × Nat)
  fromWei : Nat → String

/-- The arguments of the search but the coin, which it does not use. -/
structure Search where
  address : String
  amount : Numeral
  network : String
  blocknumber : Nat

/-- What `found_transaction` may be: a count that could not be had is `undefined`. -/
inductive SearchResult where
  | null
  | transaction (v : ListedTx) (input : Decoded)
  | number (count : Option ℤ)
  deriving DecidableEq

inductive SearchOp where
  | txlist (bsc : Bool) (address : String) (startblock : Nat)
  | chain (o : Op)
  | forEach (v : ListedTx)
  | assign (r : SearchResult)
  | found_transaction
  | resolve (r : SearchResult)

abbrev SearchOp.Res : SearchOp → Type
  | txlist .. => List ListedTx
  | chain o => o.Res
  | found_transaction => SearchResult
  | forEach _ | assign _ | resolve _ => Unit

abbrev SearchProg := Proc SearchOp SearchOp.Res Err

namespace Web3Service

def search (o : SearchOp) : SearchProg o.Res := Proc.call o

def erc20TransferABI : List AbiField := [⟨"address", "receiver"⟩, ⟨"uint256", "amount"⟩]

def slice (s : String) (start : Nat) : String := String.ofList (s.toList.drop start)

/-- The fields have the names that the ABI gives them. -/
def decodeParameters (x : Explorer) (abi : List AbiField) (input : String) : Option Decoded :=
  (x.decode input).map fun d => (abi.map AbiField.name).zip [.address d.1, .uint256 d.2]

/-- The callback of `forEach`, which swallows what it raises. -/
def callback (x : Explorer) (q : Search) (v : ListedTx) : SearchProg Unit :=
  Proc.tryCatch
    (match decodeParameters x erc20TransferABI (slice v.input 10) with
      | none => .throw .rejected
      | some decoded =>
        match decoded.lookup "amount" with
        | some (.uint256 n) =>
          let deposit_amount := x.fromWei n
          -- the ABI names the field `receiver`
          let receiver_address := decoded.lookup "to"
          if receiver_address = some (.address q.address) ∧ q.blocknumber < v.blockNumber ∧
              String.ofList q.amount.text = deposit_amount then do
            let confirmationCount : Option ℤ ←
              (getConfirmations v.hash (some q.network)).embed SearchOp.chain fun _ r => r
            if (confirmationCount.any fun n => targetCount (some q.network) ≤ n) = true then
              search (.assign (.transaction v decoded))
            else search (.assign (.number confirmationCount))
          else pure ()
        | _ => .throw .typeError)
    fun _ => pure ()

def forEach : List ListedTx → SearchProg Unit
  | [] => pure ()
  | v :: vs => do
    search (.forEach v)
    forEach vs

def saveSearchError (q : Search) (error : Err) : SearchProg Unit :=
  search (.chain (.saveError error ("When searc hing deposit transaction status from " ++ q.address
    ++ " of amount " ++ String.ofList q.amount.text)))

/-- `return found_transaction`. -/
def returnFound : SearchProg Unit := do
  let found ← search .found_transaction
  search (.resolve found)

def findTransactionForDeposit (q : Search) : SearchProg Unit := do
  Proc.tryCatch
    (do
      let tx_list : List ListedTx ←
        search (.txlist (isBep20 (some q.network)) q.address q.blocknumber)
      forEach tx_list)
    (saveSearchError q)
  returnFound

end Web3Service

/-! ## Its runs -/

/-- The variable of the search, what its promise is resolved with, and the withdrawals. -/
structure SearchWorld where
  found_transaction : SearchResult
  returned : Option SearchResult
  service : World

abbrev SearchState := Loop.State SearchOp SearchOp.Res Err SearchWorld

abbrev SearchTurn := Loop.Turn (Option Err) Empty

/-- What leaves the process is answered, or fails. -/
def searching (x : Explorer) (c : Chains) (q : Search) :
    Loop SearchOp SearchOp.Res Err SearchWorld (Option Err) Empty where
  awaits
    | .txlist .. | .chain _ => true
    | _ => false
  effect
    | .forEach v, w => (.ok (), w, [callback x q v])
    | .assign r, w => (.ok (), { w with found_transaction := r }, [])
    | .found_transaction, w => (.ok w.found_transaction, w, [])
    | .resolve r, w => (.ok (), { w with returned := some r }, [])
    | .txlist .., w => (.error .rejected, w, [])
    | .chain _, w => (.error .rejected, w, [])
  answer
    | some e, _, w => some (.error e, w)
    | none, .txlist .., w => some (.ok x.tx_list, w)
    | none, .chain o, w =>
        some ((perform c o w.service).1, { w with service := (perform c o w.service).2 })
    | none, _, _ => none
  happen c _ := c.elim

def Search.start (q : Search) (w : World) : SearchState :=
  ⟨⟨.null, none, w⟩, [findTransactionForDeposit q]⟩

section Runs

variable {x : Explorer} {c : Chains} {q : Search} {s s' : SearchState} {t : SearchTurn}

/-- Only the search itself resolves its promise. -/
def NotResolving : SearchOp → Prop
  | .resolve _ => False
  | _ => True

theorem callback_calls (x : Explorer) (q : Search) (v : ListedTx) :
    (callback x q v).Calls NotResolving := by
  unfold callback
  refine Proc.Calls.tryCatch ?_ fun e => trivial
  split
  · trivial
  · split
    · dsimp only
      split
      · apply Proc.Calls.bind
        · exact (Proc.Calls.any _).embed fun _ _ => trivial
        · intro count
          split
          · exact Proc.Calls.call trivial
          · exact Proc.Calls.call trivial
      · trivial
    · trivial

/-- Where the search stands before it returns. -/
inductive Searching (q : Search) : SearchProg Unit → Prop where
  | asks : Searching q (findTransactionForDeposit q)
  | lists (vs : List ListedTx) :
      Searching q (Proc.tryCatch (forEach vs) (saveSearchError q) >>= fun _ => returnFound)
  | fails (e : Err) : Searching q (saveSearchError q e >>= fun _ => returnFound)
  | returns : Searching q returnFound

/-- The search is under way, has returned `null` or was rejected. -/
inductive NothingFound (q : Search) (s : SearchState) : Prop where
  | searches (p : SearchProg Unit) (hp : Searching q p) (hs : s.threads = [p])
      (hfound : s.world.found_transaction = .null) (hreturned : s.world.returned = none)
  | returned (h : s.threads[0]? = some (.pure ())) (hcalls : ∀ p ∈ s.threads, p.Calls NotResolving)
      (hreturned : s.world.returned = some .null)
  | rejected (e : Err) (hs : s.threads = [.throw e])

theorem burst_returnFound (w : SearchWorld) : (searching x c q).burst returnFound w =
    (.pure (), { w with returned := some w.found_transaction }, []) := rfl

/-- All callbacks are started, and then the search returns. -/
theorem burst_lists (vs : List ListedTx) (w : SearchWorld) :
    (searching x c q).burst
        (Proc.tryCatch (forEach vs) (saveSearchError q) >>= fun _ => returnFound) w =
      (.pure (), { w with returned := some w.found_transaction }, vs.map (callback x q)) := by
  induction vs with
  | nil => exact burst_returnFound w
  | cons v vs ih =>
    have hcons : (searching x c q).burst
        (Proc.tryCatch (forEach (v :: vs)) (saveSearchError q) >>= fun _ => returnFound) w =
      let r := (searching x c q).burst
        (Proc.tryCatch (forEach vs) (saveSearchError q) >>= fun _ => returnFound) w;
      (r.1, r.2.1, callback x q v :: r.2.2) := rfl
    rw [hcons, ih]
    rfl

theorem Searching.not_ended {p : SearchProg Unit} (hp : Searching q p) : p ≠ .pure () := by
  cases hp with
  | asks | fails | returns => intro h; cases h
  | lists vs => cases vs <;> (intro h; cases h)

theorem NothingFound.start (w : World) : NothingFound q (q.start w) :=
  .searches _ .asks rfl rfl rfl

/-- The search goes on with what it is answered. -/
theorem Searching.answered {o : SearchOp} {k : Except Err o.Res → SearchProg Unit}
    (hp : Searching q (.op o k)) (ho : (searching x c q).awaits o = true) {e : Option Err}
    {r : Except Err o.Res} {w w' : SearchWorld}
    (h : (searching x c q).answer e o w = some (r, w')) :
    (Searching q (k r) ∨ ∃ e, k r = .throw e) ∧ w'.found_transaction = w.found_transaction ∧
      w'.returned = w.returned := by
  generalize hprog : Proc.op o k = p at hp
  cases hp with
  | asks =>
    obtain ⟨rfl, hk⟩ := Proc.op.inj hprog
    obtain rfl := eq_of_heq hk
    cases e with
    | some e =>
      obtain ⟨rfl, rfl⟩ := Prod.mk.inj (Option.some.inj h)
      exact ⟨.inl (.fails e), rfl, rfl⟩
    | none =>
      obtain ⟨rfl, rfl⟩ := Prod.mk.inj (Option.some.inj h)
      exact ⟨.inl (.lists x.tx_list), rfl, rfl⟩
  | lists vs =>
    cases vs with
    | nil =>
      obtain ⟨rfl, -⟩ := Proc.op.inj hprog
      cases ho
    | cons v vs =>
      obtain ⟨rfl, -⟩ := Proc.op.inj hprog
      cases ho
  | fails e' =>
    obtain ⟨rfl, hk⟩ := Proc.op.inj hprog
    obtain rfl := eq_of_heq hk
    cases e with
    | some e =>
      obtain ⟨rfl, rfl⟩ := Prod.mk.inj (Option.some.inj h)
      exact ⟨.inr ⟨e, rfl⟩, rfl, rfl⟩
    | none =>
      obtain ⟨rfl, rfl⟩ := Prod.mk.inj (Option.some.inj h)
      exact ⟨.inr ⟨_, rfl⟩, rfl, rfl⟩
  | returns =>
    obtain ⟨rfl, -⟩ := Proc.op.inj hprog
    cases ho

/-- What is not awaited runs up to the end of the search. -/
theorem Searching.burst {o : SearchOp} {k : Except Err o.Res → SearchProg Unit}
    (hp : Searching q (.op o k)) (ho : (searching x c q).awaits o = false) (w : SearchWorld) :
    ∃ vs : List ListedTx, (searching x c q).burst (.op o k) w =
      (.pure (), { w with returned := some w.found_transaction }, vs.map (callback x q)) := by
  generalize hprog : Proc.op o k = p at hp
  cases hp with
  | asks | fails =>
    obtain ⟨rfl, -⟩ := Proc.op.inj hprog
    cases ho
  | lists vs => exact ⟨vs, burst_lists vs w⟩
  | returns => exact ⟨[], burst_returnFound w⟩

theorem answer_returned {o : SearchOp} {e : Option Err} {r : Except Err o.Res} {w w' : SearchWorld}
    (h : (searching x c q).answer e o w = some (r, w')) : w'.returned = w.returned := by
  cases e with
  | some e =>
    obtain ⟨-, rfl⟩ := Prod.mk.inj (Option.some.inj h)
    rfl
  | none =>
    cases o with
    | txlist | chain =>
      obtain ⟨-, rfl⟩ := Prod.mk.inj (Option.some.inj h)
      rfl
    | forEach | assign | found_transaction | resolve => cases h

theorem effect_returned (o : SearchOp) (w : SearchWorld) (ho : NotResolving o) :
    ((searching x c q).effect o w).2.1.returned = w.returned := by
  cases o with
  | resolve r => exact ho.elim
  | _ => rfl

theorem effect_calls (o : SearchOp) (w : SearchWorld) (_ho : NotResolving o) :
    ∀ p ∈ ((searching x c q).effect o w).2.2, p.Calls NotResolving := by
  cases o with
  | forEach v =>
    intro p hp
    obtain rfl := List.mem_singleton.mp hp
    exact callback_calls x q v
  | _ => exact fun p hp => absurd hp List.not_mem_nil

/-- A turn while the search is under way. -/
theorem NothingFound.of_searching {p : SearchProg Unit} {s' : SearchState} (hp : Searching q p)
    (hs : s.threads = [p]) (hfound : s.world.found_transaction = .null)
    (hreturned : s.world.returned = none) (hsteps : (searching x c q).Steps s t s') :
    NothingFound q s' := by
  have hzero {i : Nat} {p' : SearchProg Unit} (hi : s.threads[i]? = some p') :
      i = 0 ∧ p' = p := by
    rw [hs] at hi
    cases i with
    | zero => exact ⟨rfl, (Option.some.inj hi).symm⟩
    | succ i => cases hi
  cases hsteps with
  | idle => exact .searches p hp hs hfound hreturned
  | @happen c' => exact c'.elim
  | perform hi ho h =>
    obtain ⟨rfl, rfl⟩ := hzero hi
    obtain ⟨hnext | ⟨e, he⟩, hfound', hreturned'⟩ := hp.answered ho h
    · refine .searches _ hnext ?_ (hfound'.trans hfound) (hreturned'.trans hreturned)
      simp [hs]
    · refine .rejected e ?_
      simp [hs, he]
  | resume hi ho =>
    obtain ⟨rfl, rfl⟩ := hzero hi
    obtain ⟨vs, hburst⟩ := hp.burst ho s.world
    rw [hburst]
    refine .returned ?_ ?_ ?_
    · simp [hs]
    · intro p hp
      simp only [hs, List.set_cons_zero, List.mem_append, List.mem_singleton, List.mem_map] at hp
      rcases hp with rfl | ⟨v, -, rfl⟩
      · trivial
      · exact callback_calls x q v
    · exact congrArg some hfound

/-- A turn of a callback after the search has returned. -/
theorem NothingFound.of_returned {s' : SearchState} (h : s.threads[0]? = some (.pure ()))
    (hcalls : ∀ p ∈ s.threads, p.Calls NotResolving) (hreturned : s.world.returned = some .null)
    (hsteps : (searching x c q).Steps s t s') : NothingFound q s' := by
  have hpos {i : Nat} {o : SearchOp} {k : Except Err o.Res → SearchProg Unit}
      (hi : s.threads[i]? = some (.op o k)) : i ≠ 0 := by
    rintro rfl
    cases hi.symm.trans h
  cases hsteps with
  | idle => exact .returned h hcalls hreturned
  | @happen c' => exact c'.elim
  | perform hi ho hanswer =>
    refine .returned ?_ ?_ ((answer_returned hanswer).trans hreturned)
    · rw [List.getElem?_set_ne (hpos hi)]
      exact h
    · exact forall_mem_set hcalls ((hcalls _ (List.mem_of_getElem? hi)).2 _)
  | @resume i o k hi ho =>
    have hp := hcalls _ (List.mem_of_getElem? hi)
    obtain ⟨hcalls', hstarted⟩ := (searching x c q).burst_calls effect_calls s.world hp
    refine .returned ?_ ?_ ?_
    · have hfirst : (s.threads.set i ((searching x c q).burst (.op o k) s.world).1)[0]? = _ :=
        (List.getElem?_set_ne (hpos hi)).trans h
      exact (List.getElem?_append_left (List.getElem?_eq_some_iff.mp hfirst).1).trans hfirst
    · exact List.forall_mem_append.mpr ⟨forall_mem_set hcalls hcalls', hstarted⟩
    · exact ((searching x c q).burst_keeps effect_returned hp s.world).trans hreturned

/-- A rejected search has no turn. -/
theorem NothingFound.of_rejected {e : Err} {s' : SearchState} (hs : s.threads = [.throw e])
    (hsteps : (searching x c q).Steps s t s') : NothingFound q s' := by
  have hnone {i : Nat} {o : SearchOp} {k : Except Err o.Res → SearchProg Unit} :
      s.threads[i]? ≠ some (.op o k) := by
    rw [hs]
    cases i <;> (intro h; cases h)
  cases hsteps with
  | idle => exact .rejected e hs
  | @happen c' => exact c'.elim
  | perform hi | resume hi => exact absurd hi hnone

/-- One turn. -/
theorem NothingFound.step (h : NothingFound q s) : NothingFound q ((searching x c q).step s t) := by
  have hsteps := (searching x c q).step_cases s t
  cases h with
  | searches p hp hs hfound hreturned => exact .of_searching hp hs hfound hreturned hsteps
  | returned h hcalls hreturned => exact .of_returned h hcalls hreturned hsteps
  | rejected e hs => exact .of_rejected hs hsteps

theorem NothingFound.run {turns : List SearchTurn} (h : NothingFound q s) :
    NothingFound q ((searching x c q).run s turns) := by
  induction turns generalizing s with
  | nil => exact h
  | cons t turns ih => exact ih h.step

/-- **Nothing is found**: a search that has ended has returned `null`. -/
theorem returned_null {w : World} {turns : List SearchTurn}
    (hended : ((searching x c q).run (q.start w) turns).threads[0]? = some (.pure ())) :
    ((searching x c q).run (q.start w) turns).world.returned = some .null := by
  have hinv : NothingFound q ((searching x c q).run (q.start w) turns) :=
    (NothingFound.start w).run
  cases hinv with
  | searches p hp hs _ _ =>
    rw [hs] at hended
    exact absurd (Option.some.inj hended) hp.not_ended
  | returned _ _ hreturned => exact hreturned
  | rejected e hs =>
    rw [hs] at hended
    cases hended

/-- The answer of the explorer is enough for the search to end. -/
theorem ended (x : Explorer) (c : Chains) (q : Search) (w : World) :
    ((searching x c q).run (q.start w) [.perform 0 none, .resume 0]).threads[0]? =
      some (.pure ()) := by
  change ((searching x c q).step ⟨⟨.null, none, w⟩,
    [Proc.tryCatch (forEach x.tx_list) (saveSearchError q) >>= fun _ => returnFound]⟩
      (.resume 0)).threads[0]? = _
  have hburst := burst_lists (x := x) (c := c) (q := q) x.tx_list ⟨.null, none, w⟩
  revert hburst
  generalize x.tx_list = vs
  intro hburst
  cases vs with
  | nil => rfl
  | cons v vs =>
    change ([((searching x c q).burst (Proc.tryCatch (forEach (v :: vs)) (saveSearchError q) >>=
      fun _ => returnFound) ⟨.null, none, w⟩).1] ++ _)[0]? = _
    rw [hburst]
    rfl

/-! ## What is to be found -/

/-- The transaction pays the amount to the address after the block. -/
def ListedTx.Pays (x : Explorer) (q : Search) (v : ListedTx) : Prop :=
  ∃ receiver n, x.decode (slice v.input 10) = some (receiver, n) ∧ receiver = q.address ∧
    q.blocknumber < v.blockNumber ∧ (n : ℚ) / 10 ^ 18 = q.amount.value

/-- The confirmations of a transaction, 0 as long as it is not mined. -/
def Chains.count (c : Chains) (q : Search) (v : ListedTx) : Option ℤ :=
  let chain := c.on (isBep20 (some q.network))
  (chain.getTransaction v.hash).map fun
    | some blockNumber => chain.currentBlock - blockNumber
    | none => 0

/-- A transaction of the list that pays the amount and has a count of confirmations. -/
def Candidate (x : Explorer) (c : Chains) (q : Search) (v : ListedTx) (count : ℤ) : Prop :=
  v ∈ x.tx_list ∧ v.Pays x q ∧ c.count q v = some count

/-- A confirmed transaction if there is one, else the count of one that is not confirmed,
else `null`. -/
def FindsDeposit (x : Explorer) (c : Chains) (q : Search) (r : SearchResult) : Prop :=
  (∃ v count, Candidate x c q v count ∧ targetCount (some q.network) ≤ count ∧
    ∃ input, r = .transaction v input) ∨
  (∀ v count, Candidate x c q v count → count < targetCount (some q.network)) ∧
    ((∃ v count, Candidate x c q v count ∧ r = .number (some count)) ∨
      (∀ v count, ¬ Candidate x c q v count) ∧ r = .null)

theorem findsDeposit_null :
    FindsDeposit x c q .null ↔ ∀ v count, ¬ Candidate x c q v count := by
  constructor
  · rintro (⟨v, count, -, -, input, h⟩ | ⟨-, ⟨v, count, -, h⟩ | ⟨h, -⟩⟩)
    · cases h
    · cases h
    · exact h
  · intro h
    exact .inr ⟨fun v count hv => absurd hv (h v count), .inr ⟨h, rfl⟩⟩

/-- **The search for a deposit** answers what it should iff no transaction of the list
pays the amount and has a count of confirmations. -/
theorem findsDeposit_iff {w : World} {turns : List SearchTurn}
    (hended : ((searching x c q).run (q.start w) turns).threads[0]? = some (.pure ())) :
    (∃ r, ((searching x c q).run (q.start w) turns).world.returned = some r ∧
      FindsDeposit x c q r) ↔ ∀ v count, ¬ Candidate x c q v count := by
  rw [returned_null hended, ← findsDeposit_null]
  simp

end Runs

/-! ## Runs -/

/-- One token for 0xb, in the list with twelve blocks after it. -/
def paid : Explorer where
  tx_list := [⟨"0x1", 100, "0xa9059cbb0xb"⟩]
  decode input := if input = "0xb" then some ("0xb", 10 ^ 18) else none
  fromWei n := if n = 10 ^ 18 then "1" else "0"

def awaited : Search := ⟨"0xb", ⟨[⟨1, by decide⟩], none, .inl (List.cons_ne_nil _ _)⟩, "ERC20", 99⟩

def noWithdrawals : World := ⟨Table.empty _, 0⟩

/-- Transactions that do not pay: one that does not decode, one to another address, and one
of an earlier block. -/
def unpaid : Explorer where
  tx_list := [⟨"0x1", 100, "0xa9059cbb"⟩, ⟨"0x2", 100, "0xa9059cbb0xc"⟩,
    ⟨"0x3", 90, "0xa9059cbb0xb"⟩]
  decode input :=
    if input = "0xb" then some ("0xb", 10 ^ 18)
    else if input = "0xc" then some ("0xc", 10 ^ 18)
    else none
  fromWei n := if n = 10 ^ 18 then "1" else "0"

/-- None of them pays, and nothing is found. -/
theorem findsDeposit_nothing :
    ∃ r, ((searching unpaid (minedOn false) awaited).run (awaited.start noWithdrawals)
      [.perform 0 none, .resume 0]).world.returned = some r ∧
        FindsDeposit unpaid (minedOn false) awaited r := by
  apply (findsDeposit_iff (ended ..)).mpr
  rintro v count ⟨hv, ⟨receiver, n, hdecode, hreceiver, hblock, -⟩, -⟩
  simp only [unpaid, List.mem_cons, List.not_mem_nil, or_false] at hv
  rcases hv with rfl | rfl | rfl
  · simp [unpaid, slice] at hdecode
  · simp [unpaid, slice] at hdecode
    simp [awaited, ← hdecode.1] at hreceiver
  · simp [awaited] at hblock

/-- A deposit that is paid and has twelve confirmations is not found. -/
theorem deposit_not_found :
    Candidate paid (minedOn false) awaited ⟨"0x1", 100, "0xa9059cbb0xb"⟩ 12 ∧
      12 ≥ targetCount (some awaited.network) ∧
      ¬ ∃ r, ((searching paid (minedOn false) awaited).run (awaited.start noWithdrawals)
        [.perform 0 none, .resume 0]).world.returned = some r ∧
          FindsDeposit paid (minedOn false) awaited r := by
  have hpays : Candidate paid (minedOn false) awaited ⟨"0x1", 100, "0xa9059cbb0xb"⟩ 12 := by
    refine ⟨List.mem_singleton.mpr rfl, ⟨"0xb", 10 ^ 18, ?_, rfl, by decide, ?_⟩, by decide⟩
    · decide
    · norm_num [awaited, Numeral.value, natural, fraction]
  refine ⟨hpays, by decide, ?_⟩
  rw [returned_null (ended ..)]
  rintro ⟨r, hr, hfinds⟩
  obtain rfl := Option.some.inj hr
  exact findsDeposit_null.mp hfinds _ _ hpays

end Exchange.Web3
