import Exchange.Auth.Sessions

/-!
# Accounts

`POST /register` and `POST /changeEmail` look for the email and the phone number
first, and write later: what they looked for can be written meanwhile. The body of
a registration goes into `save` as it is, and `save` updates the row whose id it
carries.

`accountsSound_of_vacant`: accounts stay distinct, and registrations touch no other
account, in the runs in which what is written is free when it is written
(`registered_twice`).
-/

namespace Exchange.Auth.Accounts

open Async Store Wallets

variable {J : Jwt}

/-- A call of a registration, or of a change of an email. -/
inductive Op (J : Jwt) where
  | signUp (o : Auth.Op J)
  | changeEmail (o : Auth.Op J)

def Op.call : Op J → Auth.Op J
  | signUp o | changeEmail o => o

abbrev Op.Res (o : Op J) : Type := o.call.Res

abbrev Prog (J : Jwt) := Proc (Op J) Op.Res Err

inductive Request where
  | register (dto : SignUpDto)
  | changeEmail (post : Post) (user : ReqUser)

/-- What answers a request; its reply is not looked at. -/
def request : Request → Prog J Unit
  | .register dto => do
    let _ ← Proc.embed Op.signUp (fun _ r => r) (AuthController.signUp dto)
    pure ()
  | .changeEmail post user => do
    let _ ← Proc.embed Op.changeEmail (fun _ r => r) (AuthController.changeEmail post user)
    pure ()

/-! ## The event loop -/

/-- The users, and those before and after each call of a registration. -/
structure World where
  db : Users
  registrations : List (Users × Users)

def World.record (w : World) (db : Users) : Op J → World
  | .signUp _ => ⟨db, w.registrations ++ [(w.db, db)]⟩
  | .changeEmail _ => ⟨db, w.registrations⟩

def answer (a : Answers J) (o : Op J) (w : World) : Option (Except Err o.Res × World) :=
  let r := Users.perform a o.call w.db
  some (r.1, w.record r.2 o)

/-- Every call is answered from outside, and requests arrive at any time. -/
def loop (J : Jwt) : Loop (Op J) Op.Res Err World (Answers J) Request where
  awaits := fun _ => true
  effect := fun _ w => (.error .rejected, w, [])
  answer := answer
  happen := fun c w => some (w, [request c])

abbrev State (J : Jwt) := Loop.State (Op J) Op.Res Err World

abbrev Turn (J : Jwt) := Loop.Turn (Answers J) Request

def State.start (db : Users) : State J := ⟨⟨db, []⟩, []⟩

/-! ## Accounts -/

/-- No two users share an email, or a phone number. -/
def Distinct (db : Users) : Prop :=
  ∀ r ∈ db.rows, ∀ r' ∈ db.rows, r.email = r'.email ∨
    (r.phone_number ≠ none ∧ r.phone_number = r'.phone_number) → r = r'

/-- The columns of the server have their defaults. -/
structure Plain (r : User) : Prop where
  id_verified : r.id_verified = .NO
  email_verified : r.email_verified = .NO
  spot_wallet : r.spot_wallet = 0
  fund_wallet : r.fund_wallet = 0

/-- No row has changed, and the new ones are plain. -/
structure Touches (before after : Users) : Prop where
  kept : ∀ r ∈ before.rows, r ∈ after.rows
  plain : ∀ r ∈ after.rows, r ∈ before.rows ∨ Plain r

structure AccountsSound (w : World) : Prop where
  distinct : Distinct w.db
  touches : ∀ x ∈ w.registrations, Touches x.1 x.2

/-- What is saved has a free email, phone number and id, and plain columns. -/
structure Vacant (obj : NewUser) (db : Users) : Prop where
  email : ∀ r ∈ db.rows, r.email ≠ obj.email
  phone_number : ∀ r ∈ db.rows, ∀ phone, obj.phone_number = .text phone →
    r.phone_number ≠ some phone
  id : ∀ id, obj.id = some id → id ∉ db.rows.map User.id
  plain : Plain (obj.toRow db.next)

/-- The email is given to one user at most, and no other user has it. -/
def Free (c : Criteria) (email : String) (db : Users) : Prop :=
  ∀ r ∈ db.rows, c.selects r = true → ∀ r' ∈ db.rows, c.selects r' = true ∨ r'.email = email →
    r' = r

instance (r : User) : Decidable (Plain r) :=
  decidable_of_iff (r.id_verified = .NO ∧ r.email_verified = .NO ∧ r.spot_wallet = 0 ∧
      r.fund_wallet = 0)
    ⟨fun ⟨h₁, h₂, h₃, h₄⟩ => ⟨h₁, h₂, h₃, h₄⟩, fun ⟨h₁, h₂, h₃, h₄⟩ => ⟨h₁, h₂, h₃, h₄⟩⟩

/-- The phone number of the object, if it has one, is that of no row. -/
def NewUser.phoneFree (obj : NewUser) (db : Users) : Bool :=
  match obj.phone_number with
  | .text phone => db.rows.all fun r => r.phone_number ≠ some phone
  | _ => true

theorem phoneFree_iff {obj : NewUser} {db : Users} : NewUser.phoneFree obj db = true ↔
    ∀ r ∈ db.rows, ∀ phone, obj.phone_number = .text phone → r.phone_number ≠ some phone := by
  unfold NewUser.phoneFree
  split
  · rename_i phone hphone
    simp [hphone]
  · rename_i hphone
    exact iff_of_true rfl fun r _ phone h => absurd h (hphone phone)

instance (obj : NewUser) (db : Users) : Decidable (Vacant obj db) :=
  decidable_of_iff ((∀ r ∈ db.rows, r.email ≠ obj.email) ∧ NewUser.phoneFree obj db = true ∧
      (obj.id.all fun id => id ∉ db.rows.map User.id) = true ∧ Plain (obj.toRow db.next)) <| by
    rw [phoneFree_iff]
    constructor
    · rintro ⟨hemail, hphone, hid, hplain⟩
      exact ⟨hemail, hphone, by simpa [Option.all_eq_true] using hid, hplain⟩
    · rintro ⟨hemail, hphone, hid, hplain⟩
      exact ⟨hemail, hphone, by simpa [Option.all_eq_true] using hid, hplain⟩

instance (c : Criteria) (email : String) (db : Users) : Decidable (Free c email db) := by
  unfold Free
  infer_instance

/-- What is written is free at that moment. -/
structure WritesFree (s : State J) (t : Turn J) : Prop where
  saved : ∀ i a p obj, t = .perform i a → s.threads[i]? = some p →
    p.next = some (.signUp (.save obj)) → a.fails (.save obj) = false → Vacant obj s.world.db
  renamed : ∀ i a p c email, t = .perform i a → s.threads[i]? = some p →
    p.next = some (.changeEmail (.update c (.email (.text email)))) →
    a.fails (.update c (.email (.text email))) = false → Free c email s.world.db

/-- The same, evaluated. -/
def writesFree (s : State J) : Turn J → Bool
  | .perform i a =>
      match (s.threads[i]?).bind Proc.next with
      | some (.signUp (.save obj)) => a.fails (.save obj) || Vacant obj s.world.db
      | some (.changeEmail (.update c (.email (.text email)))) =>
          a.fails (.update c (.email (.text email))) || Free c email s.world.db
      | _ => true
  | _ => true

theorem writesFree_of_true {s : State J} {t : Turn J} (h : writesFree s t = true) :
    WritesFree s t := by
  constructor
  · rintro i a p obj rfl hi hp hfails
    simp only [writesFree, hi, Option.bind_some, hp, hfails, Bool.false_or] at h
    exact of_decide_eq_true h
  · rintro i a p c email rfl hi hp hfails
    simp only [writesFree, hi, Option.bind_some, hp, hfails, Bool.false_or] at h
    exact of_decide_eq_true h

/-- Every turn of the run writes what is free. -/
def allFree : State J → List (Turn J) → Bool
  | _, [] => true
  | s, t :: turns => writesFree s t && allFree ((loop J).step s t) turns

theorem meets_of_allFree {s : State J} {turns : List (Turn J)} (h : allFree s turns = true) :
    (loop J).Meets WritesFree s turns := by
  induction turns generalizing s with
  | nil => trivial
  | cons t turns ih =>
    obtain ⟨ht, hturns⟩ := Bool.and_eq_true_iff.mp h
    exact ⟨writesFree_of_true ht, ih hturns⟩

/-! ## Runs -/

open Proc

/-- A call of a registration, or of a change of an email, by what it writes. -/
def Allowed : Op J → Prop
  | .signUp o => ∃ dto, Registers dto o
  | .changeEmail o => ∃ post user, Renames post user o

theorem allowed_request (c : Request) : Calls Allowed (request c : Prog J Unit) := by
  cases c with
  | register dto =>
    refine Calls.bind (Calls.embed (fun o ho => ?_) (signUp_calls dto)) fun _ => trivial
    exact ⟨dto, ho⟩
  | changeEmail post user =>
    refine Calls.bind (Calls.embed (fun o ho => ?_) (changeEmail_calls post user)) fun _ => trivial
    exact ⟨post, user, ho⟩

/-- The invariant of a run. -/
structure Kept (s : State J) : Prop where
  sound : AccountsSound s.world
  allowed : ∀ p ∈ s.threads, Calls Allowed p

section Writes

variable {db db' : Users} {obj : NewUser}

theorem Touches.refl (db : Users) : Touches db db := ⟨fun _ h => h, fun _ h => .inl h⟩

/-- What is vacant is inserted. -/
theorem Vacant.rows (h : Vacant obj db) :
    ∃ id, (db.save obj).rows = db.rows ++ [obj.toRow id] := by
  unfold Users.save
  split
  · exact ⟨_, rfl⟩
  · rename_i id hid
    rw [dif_neg (h.id id hid)]
    split
    · exact ⟨_, rfl⟩
    · exact ⟨_, rfl⟩

theorem Plain.toRow {id id' : Nat} (h : Plain (obj.toRow id)) : Plain (obj.toRow id') :=
  ⟨h.id_verified, h.email_verified, h.spot_wallet, h.fund_wallet⟩

theorem Vacant.touches (h : Vacant obj db) : Touches db (db.save obj) := by
  obtain ⟨id, hrows⟩ := h.rows
  refine ⟨fun r hr => ?_, fun r hr => ?_⟩
  · rw [hrows]
    exact List.mem_append_left _ hr
  · rw [hrows] at hr
    rcases List.mem_append.mp hr with hr | hr
    · exact .inl hr
    · obtain rfl := List.mem_singleton.mp hr
      exact .inr h.plain.toRow

/-- The new row shares nothing with another. -/
theorem Vacant.not_shared (h : Vacant obj db) (id : Nat) {r : User} (hr : r ∈ db.rows) :
    ¬ (r.email = (obj.toRow id).email ∨
      (r.phone_number ≠ none ∧ r.phone_number = (obj.toRow id).phone_number)) := by
  rintro (hemail | ⟨hphone, hsame⟩)
  · exact h.email r hr hemail
  · cases hobj : obj.phone_number with
    | undefined | null =>
      apply hphone
      rw [hsame]
      simp only [NewUser.toRow, given, hobj]
    | text phone =>
      apply h.phone_number r hr phone hobj
      rw [hsame]
      simp only [NewUser.toRow, given, hobj]

theorem Distinct.save (hdb : Distinct db) (h : Vacant obj db) : Distinct (db.save obj) := by
  obtain ⟨id, hrows⟩ := h.rows
  intro r hr r' hr' hshare
  rw [hrows] at hr hr'
  rcases List.mem_append.mp hr with hr | hr
  · rcases List.mem_append.mp hr' with hr' | hr'
    · exact hdb r hr r' hr' hshare
    · obtain rfl := List.mem_singleton.mp hr'
      exact absurd hshare (h.not_shared id hr)
  · obtain rfl := List.mem_singleton.mp hr
    rcases List.mem_append.mp hr' with hr' | hr'
    · refine absurd ?_ (h.not_shared id hr')
      refine hshare.imp Eq.symm fun hphone => ⟨?_, hphone.2.symm⟩
      rw [← hphone.2]
      exact hphone.1
    · exact (List.mem_singleton.mp hr').symm

theorem Distinct.rename {c : Criteria} {email : String} (hdb : Distinct db) (h : Free c email db)
    (hupdate : db.update c (.email (.text email)) = some db') : Distinct db' := by
  intro r hr r' hr' hshare
  obtain ⟨r₀, hr₀, rfl⟩ := (Users.mem_update hupdate).mp hr
  obtain ⟨r₁, hr₁, rfl⟩ := (Users.mem_update hupdate).mp hr'
  suffices hsame : r₀ = r₁ by rw [hsame]
  cases hsel₀ : c.selects r₀ with
  | true =>
    cases hsel₁ : c.selects r₁ with
    | true => exact h r₁ hr₁ hsel₁ r₀ hr₀ (.inl hsel₀)
    | false =>
      rw [hsel₀, hsel₁] at hshare
      rcases hshare with hemail | hphone
      · exact (h r₀ hr₀ hsel₀ r₁ hr₁ (.inr hemail.symm)).symm
      · exact hdb r₀ hr₀ r₁ hr₁ (.inr hphone)
  | false =>
    cases hsel₁ : c.selects r₁ with
    | true =>
      rw [hsel₀, hsel₁] at hshare
      rcases hshare with hemail | hphone
      · exact h r₁ hr₁ hsel₁ r₀ hr₀ (.inr hemail)
      · exact hdb r₀ hr₀ r₁ hr₁ (.inr hphone)
    | false =>
      rw [hsel₀, hsel₁] at hshare
      exact hdb r₀ hr₀ r₁ hr₁ hshare

/-- An email that is not a text changes nothing. -/
theorem Distinct.unnamed {c : Criteria} {email : Wallets.Field} (hdb : Distinct db)
    (h : ∀ text, email ≠ .text text) (hupdate : db.update c (.email email) = some db') :
    Distinct db' := by
  have hsame : ∀ r ∈ db'.rows, r ∈ db.rows := by
    intro r hr
    obtain ⟨r₀, hr₀, rfl⟩ := (Users.mem_update hupdate).mp hr
    cases email with
    | undefined | null => simpa [UserData.write] using hr₀
    | text s => exact absurd rfl (h s)
  exact fun r hr r' hr' hshare => hdb r (hsame r hr) r' (hsame r' hr') hshare

end Writes

section Steps

variable {s s' : State J} {t : Turn J}

/-- A call is answered. -/
theorem Kept.answered (h : Kept s) {i : Nat} {a : Answers J} {o : Op J}
    {k : Except Err o.Res → Prog J Unit} (hi : s.threads[i]? = some (.op o k))
    (hok : WritesFree s (.perform i a)) :
    AccountsSound (s.world.record (Users.perform a o.call s.world.db).2 o) := by
  have hallowed : Allowed o := (h.allowed _ (List.mem_of_getElem? hi)).1
  cases o with
  | signUp o =>
    obtain ⟨dto, hregisters⟩ := hallowed
    change AccountsSound ⟨(Users.perform a o s.world.db).2,
      s.world.registrations ++ [(s.world.db, (Users.perform a o s.world.db).2)]⟩
    rcases perform_cases a s.world.db o with hdb | ⟨c, data, rfl, -, -⟩ | ⟨obj, rfl, hfails, hdb⟩
    · rw [hdb]
      exact ⟨h.sound.distinct, forall_mem_snoc h.sound.touches (Touches.refl _)⟩
    · exact hregisters.elim
    · rw [hdb]
      have hvacant := hok.saved i a _ obj rfl hi rfl hfails
      exact ⟨h.sound.distinct.save hvacant, forall_mem_snoc h.sound.touches hvacant.touches⟩
  | changeEmail o =>
    obtain ⟨post, user, hrenames⟩ := hallowed
    change AccountsSound ⟨(Users.perform a o s.world.db).2, s.world.registrations⟩
    rcases perform_cases a s.world.db o with hdb | ⟨c, data, rfl, hfails, hdb⟩ | ⟨obj, rfl, -, -⟩
    · rw [hdb]
      exact ⟨h.sound.distinct, h.sound.touches⟩
    · obtain ⟨-, rfl⟩ := hrenames
      refine ⟨?_, h.sound.touches⟩
      generalize post.email = email at hi hfails hdb
      cases email with
      | undefined | null => exact h.sound.distinct.unnamed (fun text h => by cases h) hdb
      | text email =>
        have hfree := hok.renamed i a _ c email rfl hi rfl hfails
        exact h.sound.distinct.rename hfree hdb
    · exact hrenames.elim

theorem Steps.kept (hstep : (loop J).Steps s t s') (h : Kept s) (hok : WritesFree s t) :
    Kept s' := by
  cases hstep with
  | idle => exact h
  | happen hc =>
    cases hc
    exact ⟨h.sound, forall_mem_snoc h.allowed (allowed_request _)⟩
  | perform hi ho hanswer =>
    cases hanswer
    refine ⟨h.answered hi hok, forall_mem_set h.allowed ?_⟩
    exact (h.allowed _ (List.mem_of_getElem? hi)).2 _
  | resume hi ho => cases ho

end Steps

/-- **Accounts are distinct, and registrations touch no other account**, in every state
of a run in which what is written is free when it is written. -/
theorem accountsSound_of_vacant (db : Users) (turns : List (Turn J)) (hstart : Distinct db)
    (hturns : (loop J).Meets WritesFree (State.start db) turns) :
    AccountsSound ((loop J).run (State.start db) turns).world := by
  have hinit : Kept (State.start db : State J) := by
    refine ⟨⟨hstart, fun x hx => ?_⟩, fun p hp => ?_⟩
    · cases hx
    · cases hp
  exact (hturns.along (loop J) Steps.kept hinit).sound

/-! ## Two registrations -/

def noUsers : Users := .empty User.id

def registerAnn : Request := .register ann.toSignUpDto

/-- The calls of registration `i`, up to its `save`. -/
def lookUp (i : Nat) : List (Turn plain) := List.replicate 6 (.perform i (answers 0))

def registerBob : Request :=
  .register { ann.toSignUpDto with email := "bob@mail.com", phone_number := .text "222" }

/-- The email of Ann is to be another. -/
def renameAnn : Request :=
  .changeEmail ⟨.text "ann@home.com", .undefined, .undefined, .undefined⟩ ⟨some 1, some "u-2"⟩

/-- The calls of the registration of Bob, who has a uuid of his own. -/
def bobsAnswers : Answers plain := { answers 0 with uuid := "u-3" }

/-- Ann and Bob register at the same time, and Ann changes her email while Bob is saved. -/
def annAndBob : List (Turn plain) :=
  .happen registerAnn :: .happen registerBob ::
    (lookUp 0 ++ List.replicate 6 (.perform 1 bobsAnswers) ++
      [.perform 0 (answers 0), .happen renameAnn, .perform 2 (answers 0), .perform 1 bobsAnswers,
        .perform 2 (answers 0)])

theorem accountsSound_annAndBob :
    (((loop plain).run (State.start noUsers) annAndBob).world.db.rows.map User.email) =
        ["ann@home.com", "bob@mail.com"] ∧
      AccountsSound ((loop plain).run (State.start noUsers) annAndBob).world := by
  refine ⟨by decide +kernel, ?_⟩
  apply accountsSound_of_vacant
  · intro r hr
    cases hr
  · exact meets_of_allFree (by decide +kernel)

/-- Ann registers twice, and both look-ups come before the first `save`. -/
def twoRegistrations : List (Turn plain) :=
  .happen registerAnn :: .happen registerAnn ::
    (lookUp 0 ++ lookUp 1 ++ [.perform 0 (answers 0), .perform 1 (answers 0)])

theorem registered_twice :
    ¬ AccountsSound ((loop plain).run (State.start noUsers) twoRegistrations).world := by
  intro h
  have hrows : ((loop plain).run (State.start noUsers) twoRegistrations).world.db.rows.map
      (fun r => (r.id, r.email)) = [(1, "ann@mail.com"), (2, "ann@mail.com")] := by
    decide +kernel
  obtain ⟨r, hr, hone⟩ := List.mem_map.mp (hrows ▸ List.mem_cons_self)
  obtain ⟨r', hr', htwo⟩ := List.mem_map.mp
    (hrows ▸ List.mem_cons_of_mem _ (List.mem_singleton.mpr rfl))
  obtain ⟨hid, hemail⟩ := Prod.ext_iff.mp hone
  obtain ⟨hid', hemail'⟩ := Prod.ext_iff.mp htwo
  have hsame : r = r' := h.distinct r hr r' hr' (.inl (hemail.trans hemail'.symm))
  rw [hsame, hid'] at hid
  cases hid

end Exchange.Auth.Accounts
