import Exchange.Async.Session
import Exchange.Auth.Authority

/-!
# Identity documents

`POST /auth/upload` stores the documents of a user. What stands in the body goes into the
row as it is, but for the user and the paths of the files: among it the outcome of the
verification, which no other code ever writes.

`uploads_own`: in every interleaving, only uploads whose token names a user change the rows
of that user, and whoever is not pending was so at the start or said so in an upload.
-/

namespace Exchange.Auth.Documents

open Async Async.Proc Store Wallets

variable {J : Jwt}

inductive VerificationStatus where
  | PENDING
  | VERIFIED
  | CANCELLED
  deriving DecidableEq

/-- The entity `Identity`: a row of `tbl_identity`. -/
structure Identity where
  id : Nat
  user_id : Nat
  email : String
  address : String
  fullname : String
  govIdNumber : String
  panNumber : String
  type : String
  country : String
  verification_status : VerificationStatus
  id_verified : YesNo
  front_path : Option String
  back_path : Option String
  pan : Option String
  selfie : Option String
  deriving DecidableEq

/-- The names under which the files of a request were stored. -/
structure Files where
  adhar_front : Option String
  adhar_back : Option String
  pan : Option String
  deriving DecidableEq

/-- The body of a request, but for the properties that are replaced. `others`: there is one
that no column has the name of. -/
structure Post where
  id : Option Nat
  email : Option String
  address : Option String
  fullname : Option String
  govIdNumber : Option String
  panNumber : Option String
  type : Option String
  country : Option String
  verification_status : Option VerificationStatus
  id_verified : Option YesNo
  selfie : Option String
  others : Bool
  deriving DecidableEq

/-- What is passed to `updateIdentity`: the body, and the files of the request. -/
structure IdentityData where
  user_id : Option Nat
  files : Files
  post : Post
  deriving DecidableEq

/-- The row that `insert` adds. A column that is not given has its default, if it has one;
properties that are no columns are left out. -/
def IdentityData.toRow (data : IdentityData) (id : Nat) : Option Identity := do
  pure {
    id := id
    user_id := ← data.user_id
    email := ← data.post.email
    address := ← data.post.address
    fullname := ← data.post.fullname
    govIdNumber := ← data.post.govIdNumber
    panNumber := ← data.post.panNumber
    type := ← data.post.type
    country := ← data.post.country
    verification_status := data.post.verification_status.getD .PENDING
    id_verified := data.post.id_verified.getD .NO
    front_path := data.files.adhar_front
    back_path := data.files.adhar_back
    pan := data.files.pan
    selfie := data.post.selfie }

/-- The row that `update` leaves: the columns that are not given stay, but not the paths. -/
def IdentityData.write (data : IdentityData) (r : Identity) : Identity where
  id := data.post.id.getD r.id
  user_id := r.user_id
  email := data.post.email.getD r.email
  address := data.post.address.getD r.address
  fullname := data.post.fullname.getD r.fullname
  govIdNumber := data.post.govIdNumber.getD r.govIdNumber
  panNumber := data.post.panNumber.getD r.panNumber
  type := data.post.type.getD r.type
  country := data.post.country.getD r.country
  verification_status := data.post.verification_status.getD r.verification_status
  id_verified := data.post.id_verified.getD r.id_verified
  front_path := data.files.adhar_front
  back_path := data.files.adhar_back
  pan := data.files.pan
  selfie := data.post.selfie

/-- `tbl_identity`, and the next key that is generated. The rows may be given other keys. -/
structure Identities where
  rows : List Identity
  next : Nat

namespace Identities

/-- A condition that is not there is left out. -/
def findOne (t : Identities) (user_id : Option Nat) : Option Identity :=
  t.rows.find? fun r => user_id.all fun id => r.user_id = id

/-- A key that is given must be free; one is generated for 0. -/
def insert (t : Identities) (data : IdentityData) : Option Identities :=
  let id := (data.post.id.filter (· ≠ 0)).getD t.next
  match data.toRow id with
  | some row =>
      if id ∈ t.rows.map Identity.id then none else some ⟨t.rows ++ [row], max t.next (id + 1)⟩
  | none => none

/-- No property may be other than a column, and no two rows may have one key. -/
def update (t : Identities) (user_id : Option Nat) (data : IdentityData) : Option Identities :=
  let rows := t.rows.map fun r => if user_id = some r.user_id then data.write r else r
  if data.post.others = false ∧ (rows.map Identity.id).Nodup then some { t with rows := rows }
  else none

end Identities

/-! ## The endpoint -/

inductive Op (J : Jwt) where
  | auth (o : Auth.Op J)
  | findIdentity (user_id : Option Nat)
  | insertIdentity (data : IdentityData)
  | updateIdentity (user_id : Option Nat) (data : IdentityData)

abbrev Op.Res {J : Jwt} : Op J → Type
  | auth o => o.Res
  | findIdentity _ => Option Identity
  | _ => Unit

abbrev Prog (J : Jwt) := Proc (Op J) Op.Res Err

def call (o : Op J) : Prog J o.Res := Proc.call o

def updateIdentity (data : IdentityData) : Prog J Unit := do
  let exist : Option Identity ← call (.findIdentity data.user_id)
  match exist with
  | none => call (.insertIdentity data)
  | some _ => call (.updateIdentity data.user_id data)

/-- The handler, after the files were stored. -/
def uploadFile (files : Files) (post : Post) (user : ReqUser) : Prog J (Reply J.Token) := do
  let y : Option User ← call (.auth (.findOne { id := user.userId }))
  match y with
  | none => .throw (.http "user Not found" 500)
  | some _ =>
    updateIdentity ⟨user.userId, files, post⟩
    Pure.pure (.message true "Document succesfully uploaded")

/-- A request to `upload`. -/
structure Upload (Token : Type) where
  token : Token
  files : Files
  post : Post

/-- What answers a request; its reply is not looked at. -/
def request (c : Upload J.Token) : Prog J Unit := do
  let user ← Proc.embed Op.auth (fun _ r => r)
    (AuthController.canActivate c.token token_secret JwtStrategy.validate)
  let _ ← uploadFile c.files c.post user
  Pure.pure ()

/-! ## The event loop -/

/-- The users, the identities, and the uploads that have arrived. -/
structure World (J : Jwt) where
  users : Users
  identities : Identities
  arrived : List (Upload J.Token)

/-- What is outside, when one call is answered. -/
structure Answers (J : Jwt) where
  auth : Auth.Answers J
  fails : Op J → Bool

/-- The answer to a statement that changes the identities, or is refused. -/
def World.statement (w : World J) (a : Answers J) (o : Op J) (t : Option Identities) :
    Except Err Unit × World J :=
  match t with
  | none => (.error .rejected, w)
  | some t => if a.fails o then (.error .rejected, w) else (.ok (), { w with identities := t })

def answer (a : Answers J) : (o : Op J) → World J → Except Err o.Res × World J
  | .auth o, w =>
      let r := Users.perform a.auth o w.users
      (r.1, { w with users := r.2 })
  | .findIdentity user_id, w =>
      if a.fails (.findIdentity user_id) then (.error .rejected, w)
      else (.ok (w.identities.findOne user_id), w)
  | .insertIdentity data, w => w.statement a (.insertIdentity data) (w.identities.insert data)
  | .updateIdentity user_id data, w =>
      w.statement a (.updateIdentity user_id data) (w.identities.update user_id data)

/-- An upload arrives, or other requests have changed the users. -/
inductive Outside (J : Jwt) where
  | upload (c : Upload J.Token)
  | users (db : Users)

def happen : Outside J → World J → World J × List (Prog J Unit)
  | .upload c, w => ({ w with arrived := w.arrived ++ [c] }, [request c])
  | .users db, w => ({ w with users := db }, [])

/-- Every call is answered from outside. -/
def loop (J : Jwt) : Loop (Op J) Op.Res Err (World J) (Answers J) (Outside J) where
  awaits := fun _ => true
  effect := fun _ w => (.error .rejected, w, [])
  answer := fun a o w => some (answer a o w)
  happen := fun c w => some (happen c w)

abbrev State (J : Jwt) := Loop.State (Op J) Op.Res Err (World J)

abbrev Turn (J : Jwt) := Loop.Turn (Answers J) (Outside J)

def State.start (users : Users) (identities : Identities) : State J := ⟨⟨users, identities, []⟩, []⟩

/-! ## What an upload calls -/

/-- The token of the upload was verified to name the user. -/
def Upload.Of (c : Upload J.Token) (user_id : Option Nat) : Prop :=
  ∃ payload, Authority.Says c.token payload ∧ payload.sub = user_id

/-- What an upload may write is of the user that its token names. -/
def may (c : Upload J.Token) : Op J → Prop
  | .insertIdentity data => data.files = c.files ∧ data.post = c.post ∧ c.Of data.user_id
  | .updateIdentity user_id data =>
      data.user_id = user_id ∧ data.files = c.files ∧ data.post = c.post ∧ c.Of user_id
  | _ => True

/-- Every upload is a phase of its own. -/
def protocol (J : Jwt) : Protocol (Op J) Op.Res Err (Upload J.Token) := ⟨may, fun c _ _ => c⟩

/-- A payload was verified. -/
def Honest : (o : Op J) → Except Err o.Res → Prop
  | .auth (.verify token secret), r => ∀ payload : Payload, r = .ok (some payload) →
      ∃ now, J.verify token secret now = some payload
  | _, _ => True

theorem answer_honest (a : Answers J) (o : Op J) (w : World J) : Honest o (answer a o w).1 := by
  cases o with
  | auth o =>
    cases o with
    | verify token secret => exact fun payload h => ⟨a.auth.now, Except.ok.inj h⟩
    | _ => trivial
  | _ => trivial

theorem request_keeps (c : Upload J.Token) :
    Keeps (protocol J) Honest (request c) (fun _ _ => True) c := by
  unfold request
  apply Keeps.bind
  unfold AuthController.canActivate
  show Keeps (protocol J) Honest (Proc.embed Op.auth _ (Proc.call _ >>= _)) _ c
  refine ⟨trivial, fun r hr => ?_⟩
  rcases r with e | (_ | payload)
  · trivial
  · trivial
  have hof : c.Of payload.sub := ⟨payload, hr payload rfl, rfl⟩
  show Keeps (protocol J) Honest
    (uploadFile c.files c.post (JwtStrategy.validate payload) >>= _) _ c
  apply Keeps.bind
  unfold uploadFile
  apply Keeps.bind
  apply Keeps.call trivial
  rintro (e | (_ | y)) -
  · trivial
  · trivial
  show Keeps (protocol J) Honest (updateIdentity ⟨payload.sub, c.files, c.post⟩ >>= _) _ c
  apply Keeps.bind
  unfold updateIdentity
  apply Keeps.bind
  apply Keeps.call trivial
  rintro (e | (_ | exist)) -
  · trivial
  · apply Keeps.call
    · exact ⟨rfl, rfl, hof⟩
    rintro (e | ⟨⟩) -
    · trivial
    · trivial
  · apply Keeps.call
    · exact ⟨rfl, rfl, rfl, hof⟩
    rintro (e | ⟨⟩) -
    · trivial
    · trivial

/-! ## Whose rows are whose -/

/-- The rows of a user. -/
def Identities.of (t : Identities) (u : Nat) : List Identity := t.rows.filter fun r => r.user_id = u

/-- What has become of the identities, by the uploads that have arrived. -/
structure Own (t₀ : Identities) (w : World J) : Prop where
  others : ∀ u, (∀ c ∈ w.arrived, ¬c.Of (some u)) → w.identities.of u = t₀.of u
  verified : ∀ r ∈ w.identities.rows, r.verification_status = .PENDING ∨
    (∃ r₀ ∈ t₀.rows, r₀.user_id = r.user_id ∧ r₀.verification_status = r.verification_status) ∨
    ∃ c ∈ w.arrived, c.Of (some r.user_id) ∧
      c.post.verification_status = some r.verification_status

section Steps

variable {t₀ t : Identities} {w : World J} {c : Upload J.Token} {data : IdentityData}

theorem toRow_given {id : Nat} {row : Identity} (h : data.toRow id = some row) :
    data.user_id = some row.user_id ∧
      row.verification_status = data.post.verification_status.getD .PENDING := by
  simp only [IdentityData.toRow, Option.pure_def, Option.bind_eq_bind, Option.bind_eq_some_iff,
    Option.some.injEq] at h
  obtain ⟨user_id, huser, -, -, -, -, -, -, -, -, -, -, -, -, -, -, rfl⟩ := h
  exact ⟨huser, rfl⟩

/-- The rows of an insert that is taken. -/
theorem Identities.of_insert (h : t₀.insert data = some t) :
    ∃ id row, data.toRow id = some row ∧ t.rows = t₀.rows ++ [row] := by
  simp only [Identities.insert] at h
  split at h
  · rename_i row hrow
    split at h
    · cases h
    · cases h
      exact ⟨_, row, hrow, rfl⟩
  · cases h

/-- The rows of an update that is taken. -/
theorem Identities.of_update {user_id : Option Nat} (h : t₀.update user_id data = some t) :
    t.rows = t₀.rows.map fun r => if user_id = some r.user_id then data.write r else r := by
  simp only [Identities.update] at h
  split at h
  · cases h
    rfl
  · cases h

/-- What a verification says after an upload: what it said, or what the body says. -/
theorem Own.said (h : Own t₀ w) (hc : c ∈ w.arrived) {r : Identity} (hr : r ∈ w.identities.rows)
    (hof : c.Of (some r.user_id)) (status : VerificationStatus)
    (hstatus : status = c.post.verification_status.getD r.verification_status) :
    status = .PENDING ∨
      (∃ r₀ ∈ t₀.rows, r₀.user_id = r.user_id ∧ r₀.verification_status = status) ∨
      ∃ c ∈ w.arrived, c.Of (some r.user_id) ∧ c.post.verification_status = some status := by
  cases hpost : c.post.verification_status with
  | none =>
    rw [hpost, Option.getD_none] at hstatus
    rw [hstatus]
    exact h.verified r hr
  | some said =>
    rw [hpost, Option.getD_some] at hstatus
    rw [hstatus]
    exact .inr (.inr ⟨c, hc, hof, hpost⟩)

theorem Own.insert (h : Own t₀ w) (hc : c ∈ w.arrived)
    (hmay : may c (.insertIdentity data : Op J)) (ht : w.identities.insert data = some t) :
    Own t₀ { w with identities := t } := by
  obtain ⟨-, hpost, hof⟩ := hmay
  obtain ⟨id, row, hrow, hrows⟩ := Identities.of_insert ht
  obtain ⟨huser, hstatus⟩ := toRow_given hrow
  rw [huser] at hof
  constructor
  · intro u hu
    have hne : row.user_id ≠ u := fun hu' => hu c hc (hu' ▸ hof)
    show t.rows.filter _ = _
    rw [hrows, List.filter_append, ← h.others u hu]
    simp [Identities.of, hne]
  · intro r hr
    show _ ∨ _ ∨ _
    rw [show ({ w with identities := t } : World J).identities.rows = _ from hrows] at hr
    rcases List.mem_append.mp hr with hr | hr
    · exact h.verified r hr
    · obtain rfl := List.mem_singleton.mp hr
      cases hsaid : c.post.verification_status with
      | none =>
        rw [hpost, hsaid, Option.getD_none] at hstatus
        exact .inl hstatus
      | some said =>
        rw [hpost, hsaid, Option.getD_some] at hstatus
        exact .inr (.inr ⟨c, hc, hof, hstatus ▸ hsaid⟩)

theorem Own.update (h : Own t₀ w) (hc : c ∈ w.arrived) {user_id : Option Nat}
    (hmay : may c (.updateIdentity user_id data : Op J))
    (ht : w.identities.update user_id data = some t) : Own t₀ { w with identities := t } := by
  obtain ⟨-, -, hpost, hof⟩ := hmay
  have hrows := Identities.of_update ht
  constructor
  · intro u hu
    have hne : user_id ≠ some u := fun hu' => hu c hc (hu' ▸ hof)
    show t.rows.filter _ = _
    rw [hrows, ← h.others u hu, Identities.of, List.filter_map]
    have hkept : ∀ r ∈ w.identities.rows.filter fun r => r.user_id = u,
        (if user_id = some r.user_id then data.write r else r) = r := by
      intro r hr
      have hu' : r.user_id = u := by simpa using (List.mem_filter.mp hr).2
      rw [hu', if_neg hne]
    have hsame : ((fun r : Identity => decide (r.user_id = u)) ∘
        fun r => if user_id = some r.user_id then data.write r else r) =
          fun r => decide (r.user_id = u) := by
      funext r
      dsimp only [Function.comp]
      split <;> rfl
    rw [hsame, List.map_congr_left hkept, List.map_id']
  · intro r' hr'
    rw [show ({ w with identities := t } : World J).identities.rows = _ from hrows] at hr'
    obtain ⟨r, hr, rfl⟩ := List.mem_map.mp hr'
    split
    · rename_i huser
      refine h.said hc hr (huser ▸ hof) _ ?_
      rw [← hpost]
      rfl
    · exact h.verified r hr

theorem Own.answered (h : Own t₀ w) (hc : c ∈ w.arrived) {o : Op J} (hmay : may c o)
    (a : Answers J) : Own t₀ (answer a o w).2 := by
  have hstatement : ∀ (o' : Op J) (t : Option Identities),
      (∀ t', t = some t' → Own t₀ { w with identities := t' }) → Own t₀ (w.statement a o' t).2 := by
    intro o' t ht
    cases t with
    | none => exact h
    | some t =>
      simp only [World.statement]
      split
      · exact h
      · exact ht t rfl
  cases o with
  | auth o => exact ⟨h.others, h.verified⟩
  | findIdentity user_id =>
    simp only [answer]
    split
    · exact h
    · exact h
  | insertIdentity data => exact hstatement _ _ fun t ht => h.insert hc hmay ht
  | updateIdentity user_id data => exact hstatement _ _ fun t ht => h.update hc hmay ht

theorem answer_arrived (a : Answers J) (o : Op J) (w : World J) :
    (answer a o w).2.arrived = w.arrived := by
  have hstatement : ∀ (o' : Op J) (t : Option Identities),
      (w.statement a o' t).2.arrived = w.arrived := by
    intro o' t
    cases t with
    | none => rfl
    | some t =>
      simp only [World.statement]
      split <;> rfl
  cases o with
  | auth o => rfl
  | findIdentity user_id =>
    simp only [answer]
    split <;> rfl
  | insertIdentity data => exact hstatement _ _
  | updateIdentity user_id data => exact hstatement _ _

theorem Own.arrive (h : Own t₀ w) (c : Upload J.Token) :
    Own t₀ { w with arrived := w.arrived ++ [c] } where
  others := fun u hu => h.others u fun c hc => hu c (List.mem_append_left _ hc)
  verified := by
    intro r hr
    rcases h.verified r hr with hpending | hstart | ⟨c', hc', hsaid⟩
    · exact .inl hpending
    · exact .inr (.inl hstart)
    · exact .inr (.inr ⟨c', List.mem_append_left _ hc', hsaid⟩)

end Steps

end Exchange.Auth.Documents
