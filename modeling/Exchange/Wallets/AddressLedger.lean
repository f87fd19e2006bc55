import Exchange.Wallets.Debits

/-!
# The balances of addresses

`saveTokenAddressBalance` looks for the row of an address, and inserts one unless the
answer differs from `undefined`; a missing row is answered with `null`, which does.
So a call adds to the rows there are (`adjust_adds`) and makes none (`adjust_keys`),
and from an empty table the balances are a ledger of the calls only before the first
of them (`exactLedger_iff`).
-/

namespace Exchange.Settlement

open Async Proc Store Wallets

/-- The values of `todo`. -/
inductive Todo where
  | inc
  | dec
  deriving DecidableEq

def Todo.text : Todo → String
  | .inc => "Inc"
  | .dec => "Dec"

/-- The arguments of one call. -/
structure Adjustment where
  address : String
  coin : Coin
  network : String
  amount : ℚ
  todo : Todo
  deriving DecidableEq

/-- What a balance is kept for. -/
structure AddressKey where
  address : String
  coin : Coin
  network : String
  deriving DecidableEq

namespace Adjustment

variable (c : Adjustment)

def key : AddressKey := ⟨c.address, c.coin, c.network⟩

/-- What the call is to add. -/
def signed : ℚ :=
  match c.todo with
  | .inc => c.amount
  | .dec => -c.amount

/-- The condition of its statements. -/
def rows : AddressWhere := ⟨c.address, c.coin, some c.network⟩

def program : Prog Unit :=
  saveTokenAddressBalance c.address c.coin (some c.network) (some c.amount) c.todo.text

end Adjustment

def addressKey (r : TokenAddressBalance) : AddressKey := ⟨r.address, r.coin, r.network⟩

def World.addresses (w : World) : Table TokenAddressBalance TokenAddressBalance.id :=
  w.wallets.db.address_balance

def World.adjust (w : World) (a : Answers) (c : Adjustment) : World :=
  (c.program.run (World.perform a) w).2

/-- The calls one after the other, each with what the database answers. -/
def World.adjustAll (w : World) (calls : List (Answers × Adjustment)) : World :=
  calls.foldl (fun w c => w.adjust c.1 c.2) w

/-- The rows are a ledger of the calls: one for each key, with what was added to it. -/
structure ExactLedger (calls : List Adjustment) (rows : List TokenAddressBalance) : Prop where
  one : ∀ c ∈ calls, (rows.countP fun r => addressKey r = c.key) = 1
  balance : ∀ r ∈ rows,
    r.balance = ((calls.filter fun c => c.key = addressKey r).map Adjustment.signed).sum

section Adjust

variable {a : Answers} {w : World} {c : Adjustment}

/-- One statement on the rows of the key, or nothing. -/
theorem adjust_adds : (w.adjust a c).addresses = w.addresses ∨
    w.addresses.update c.rows.selects (addToAddress c.signed) (fun _ _ h => id_addToAddress h) =
      some (w.adjust a c).addresses := by
  let adds : Option World := (incrementAddress w.addresses c.rows (some c.signed)).map fun t =>
    w.withDb { w.wallets.db with address_balance := t }
  have hadds : ∀ w' : World, w' = w ∨ adds = some w' → w'.addresses = w.addresses ∨
      incrementAddress w.addresses c.rows (some c.signed) = some w'.addresses := by
    rintro w' (rfl | h)
    · exact .inl rfl
    · obtain ⟨t, ht, rfl⟩ := Option.map_eq_some_iff.mp h
      exact .inr ht
  have hrun : wp (World.perform a) c.program (fun _ w' => w' = w ∨ adds = some w') w := by
    unfold Adjustment.program saveTokenAddressBalance
    apply wp_reply rfl
    · exact fun _ => .inl rfl
    intro _
    cases htodo : c.todo with
    | inc =>
      have hsigned : c.signed = c.amount := by rw [Adjustment.signed, htodo]
      rw [if_pos (by decide)]
      apply (wp_call _ _).mpr
      have h := World.statement_cases (a := a) (w := w)
        (.incrementAddress c.rows (some c.amount)) adds
      simp only [adds, hsigned] at h ⊢
      exact h
    | dec =>
      have hsigned : c.signed = -c.amount := by rw [Adjustment.signed, htodo]
      rw [if_neg (by decide)]
      apply (wp_call _ _).mpr
      have h := World.statement_cases (a := a) (w := w)
        (.decrementAddress c.rows (some c.amount)) adds
      simp only [adds, hsigned] at h ⊢
      exact h
  exact hadds _ hrun

/-- No call makes a row. -/
theorem adjust_keys :
    (w.adjust a c).addresses.rows.map addressKey = w.addresses.rows.map addressKey := by
  rcases adjust_adds (a := a) (w := w) (c := c) with h | h
  · rw [h]
  · rw [Table.rows_update h, List.map_map]
    apply List.map_congr_left
    intro r hr
    simp only [Function.comp, Table.rewritten]
    split
    · next hs =>
      obtain ⟨r', hr'⟩ := Table.accepts_of_update h r hr hs
      rw [hr', Option.getD_some]
      unfold addToAddress at hr'
      split at hr'
      · cases hr'
        rfl
      · cases hr'
    · rfl

theorem adjustAll_keys (calls : List (Answers × Adjustment)) :
    (w.adjustAll calls).addresses.rows.map addressKey = w.addresses.rows.map addressKey := by
  induction calls generalizing w with
  | nil => rfl
  | cons c calls ih => exact ih.trans adjust_keys

end Adjust

/-- No address has a balance yet. -/
def World.withoutAddresses (w : World) : World :=
  w.withDb { w.wallets.db with address_balance := .empty _ }

theorem adjustAll_withoutAddresses (w : World) (calls : List (Answers × Adjustment)) :
    (w.withoutAddresses.adjustAll calls).addresses.rows = [] :=
  List.map_eq_nil_iff.mp (adjustAll_keys calls)

/-- **The balances are a ledger after each call**, from an empty table, iff there was no
call: the first one is lost. -/
theorem exactLedger_iff (w : World) (calls : List (Answers × Adjustment)) :
    (∀ done, done <+: calls →
      ExactLedger (done.map Prod.snd) (w.withoutAddresses.adjustAll done).addresses.rows) ↔
        calls = [] := by
  constructor
  · intro h
    cases calls with
    | nil => rfl
    | cons c calls =>
      have hfirst := (h [c] (List.cons_prefix_cons.mpr ⟨rfl, List.nil_prefix⟩)).one c.2
        (List.mem_singleton.mpr rfl)
      rw [adjustAll_withoutAddresses] at hfirst
      cases hfirst
  · rintro rfl done hdone
    obtain rfl := List.prefix_nil.mp hdone
    constructor
    · intro c hc
      cases hc
    · intro r hr
      rw [adjustAll_withoutAddresses] at hr
      cases hr

/-- 5 USDT are added to an address without a row. -/
theorem first_amount_lost :
    let w := World.funded.withoutAddresses.adjust .silent ⟨"0xa", .USDT, "BEP20", 5, .inc⟩
    ¬ ExactLedger [⟨"0xa", .USDT, "BEP20", 5, .inc⟩] w.addresses.rows := by
  intro w h
  have hnone : w.addresses.rows = [] := by
    decide +kernel
  have hone := h.one _ (List.mem_singleton.mpr rfl)
  rw [hnone] at hone
  cases hone

end Exchange.Settlement
