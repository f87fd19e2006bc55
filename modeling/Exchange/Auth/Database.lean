import Exchange.Store.Decimal
import Exchange.Store.Table
import Exchange.Wallets.Controller

/-!
# Users

The entity behind `AuthController` and the methods of `DatabaseService` it uses,
as functions of the table. `findOne` leaves out a condition whose value is
`undefined` or `null`; `update` does not, and selects no row by it.

`save` inserts an object without an id, or with an id that no row has, and
updates the row that has it. It writes every column that the object names.
-/

namespace Exchange.Auth

open Store Wallets

inductive Status where
  | ACTIVE
  | INACTIVE
  | BLACKLISTED
  deriving DecidableEq

/-- The entity `User`: a row of `tbl_users`. -/
structure User where
  id : Nat
  email : String
  name : String
  uuid : String
  referral_id : Option String
  password : String
  zasper_id : String
  phone_number : Option String
  refreshToken : Option String
  twofa_secret : Option String
  status : Status
  email_verified : YesNo
  is_two_fa_enabled : YesNo
  id_verified : YesNo
  spot_wallet : ℚ
  fund_wallet : ℚ
  ip_address : Option String
  logged_in_at : Option Nat
  deriving DecidableEq

/-- A body of `POST /register`: the pipe asks for a name, an email and a password,
and lets every other property through. -/
structure SignUpDto where
  id : Option Nat
  email : String
  name : String
  referral_id : Field
  password : String
  phone_number : Field
  refreshToken : Field
  twofa_secret : Field
  status : Option Status
  email_verified : Option YesNo
  is_two_fa_enabled : Option YesNo
  id_verified : Option YesNo
  spot_wallet : Option ℚ
  fund_wallet : Option ℚ
  ip_address : Field
  logged_in_at : Option Nat
  deriving DecidableEq

/-- What `saveUser` passes to the repository: the body, with three properties set. -/
structure NewUser extends SignUpDto where
  uuid : String
  zasper_id : String
  deriving DecidableEq

/-- The value of a nullable column: the old one stays if none is given. -/
def given (old : Option String) : Field → Option String
  | .undefined => old
  | .null => none
  | .text s => some s

/-- The row that `save` inserts: the columns that are not given have their defaults. -/
def NewUser.toRow (obj : NewUser) (id : Nat) : User where
  id := id
  email := obj.email
  name := obj.name
  uuid := obj.uuid
  referral_id := given none obj.referral_id
  password := obj.password
  zasper_id := obj.zasper_id
  phone_number := given none obj.phone_number
  refreshToken := given none obj.refreshToken
  twofa_secret := given none obj.twofa_secret
  status := obj.status.getD .ACTIVE
  email_verified := obj.email_verified.getD .NO
  is_two_fa_enabled := obj.is_two_fa_enabled.getD .NO
  id_verified := obj.id_verified.getD .NO
  spot_wallet := roundTo 8 (obj.spot_wallet.getD 0)
  fund_wallet := roundTo 8 (obj.fund_wallet.getD 0)
  ip_address := given none obj.ip_address
  logged_in_at := obj.logged_in_at

/-- The row that `save` updates: the columns that are not given stay. -/
def NewUser.write (obj : NewUser) (r : User) : User where
  id := r.id
  email := obj.email
  name := obj.name
  uuid := obj.uuid
  referral_id := given r.referral_id obj.referral_id
  password := obj.password
  zasper_id := obj.zasper_id
  phone_number := given r.phone_number obj.phone_number
  refreshToken := given r.refreshToken obj.refreshToken
  twofa_secret := given r.twofa_secret obj.twofa_secret
  status := obj.status.getD r.status
  email_verified := obj.email_verified.getD r.email_verified
  is_two_fa_enabled := obj.is_two_fa_enabled.getD r.is_two_fa_enabled
  id_verified := obj.id_verified.getD r.id_verified
  spot_wallet := (obj.spot_wallet.map (roundTo 8)).getD r.spot_wallet
  fund_wallet := (obj.fund_wallet.map (roundTo 8)).getD r.fund_wallet
  ip_address := given r.ip_address obj.ip_address
  logged_in_at := obj.logged_in_at.or r.logged_in_at

/-- The data of an `update`. -/
inductive UserData where
  | logged_in_at (time : Nat)
  | refreshToken (token : Option String)
  | password (zasper_id hash : String)
  | email (address : Field)
  | twofa (secret : String)
  deriving DecidableEq

def UserData.write (data : UserData) (r : User) : User :=
  match data with
  | .logged_in_at time => { r with logged_in_at := some time }
  | .refreshToken token => { r with refreshToken := token }
  | .password zasper_id hash => { r with zasper_id := zasper_id, password := hash }
  | .email (.text address) => { r with email := address }
  | .email _ => r
  | .twofa secret => { r with twofa_secret := some secret, is_two_fa_enabled := .YES }

@[simp] theorem UserData.id_write (data : UserData) (r : User) : (data.write r).id = r.id := by
  rcases data with _ | _ | _ | (_ | _ | _) | _ <;> rfl

@[simp] theorem UserData.uuid_write (data : UserData) (r : User) :
    (data.write r).uuid = r.uuid := by
  rcases data with _ | _ | _ | (_ | _ | _) | _ <;> rfl

/-- The conditions of `findOne`; those that are not there are left out. -/
structure UserWhere where
  id : Option Nat := none
  email : Option String := none
  uuid : Option String := none
  phone_number : Option String := none
  deriving DecidableEq

def UserWhere.selects (c : UserWhere) (r : User) : Bool :=
  (c.id.all fun id => r.id = id) ∧ (c.email.all fun email => r.email = email) ∧
    (c.uuid.all fun uuid => r.uuid = uuid) ∧
    (c.phone_number.all fun phone => r.phone_number = some phone)

/-- The criteria of `update`: a key, or a column and its value. -/
inductive Criteria where
  | key (value : Option Nat)
  | id (value : Option Nat)
  | uuid (value : Option String)
  deriving DecidableEq

def Criteria.selects : Criteria → User → Bool
  | .key value, r | .id value, r => value = some r.id
  | .uuid value, r => value = some r.uuid

abbrev Users := Table User User.id

/-- What `update` does not take: no key, no value, and `null` for an email. -/
def Users.refuses (t : Users) (c : Criteria) (data : UserData) : Bool :=
  c = .key none ∨ data = .email .undefined ∨ data = .email .null ∧ t.rows.any c.selects

/-- `repository.update`. -/
def Users.update (t : Users) (c : Criteria) (data : UserData) : Option Users :=
  if t.refuses c data then none else some (t.rewrite c.selects data.write data.id_write)

def Users.findOne (t : Users) (c : UserWhere) : Option User := t.rows.find? c.selects

/-- `repository.save`. The key of a row inserted under 0 is generated. -/
def Users.save (t : Users) (obj : NewUser) : Users :=
  match obj.id with
  | none => t.insert (obj.toRow t.next) rfl
  | some id =>
      if h : id ∈ t.rows.map User.id then t.modify id obj.write fun _ => rfl
      else if id = 0 then t.insert (obj.toRow t.next) rfl
      else t.add (obj.toRow id) h

variable {t : Users} {r : User}

/-- What an update that is taken leaves. -/
theorem Users.mem_update {t' : Users} {c : Criteria} {data : UserData}
    (h : t.update c data = some t') :
    r ∈ t'.rows ↔ ∃ r₀ ∈ t.rows, (if c.selects r₀ then data.write r₀ else r₀) = r := by
  unfold Users.update at h
  split at h
  · cases h
  · cases h
    exact List.mem_map

/-- `save` leaves a row alone that has another key. -/
theorem Users.mem_save {obj : NewUser} (h : r ∈ t.rows) (hid : obj.id ≠ some r.id) :
    r ∈ (t.save obj).rows := by
  unfold Users.save
  split
  · exact List.mem_append_left _ h
  · rename_i id hobj
    split
    · refine Table.mem_modify_of_ne h fun hr => ?_
      exact hid (by rw [hobj, hr])
    · split
      · exact List.mem_append_left _ h
      · exact List.mem_append_left _ h

end Exchange.Auth
