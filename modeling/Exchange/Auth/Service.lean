import Exchange.Async.Loop
import Exchange.Auth.Database

/-!
# Sessions

`AuthService`, the two strategies and `AuthController`, as programs. Tokens are
signed and verified by the libraries (`Jwt`); passwords, one-time codes and keys
are answered from outside.

A guard lets a request in when its token verifies, and passes on what the
strategy makes of the payload. Neither strategy sets `id`, and the strategy of
refresh tokens reads its second argument, where `passport` puts its callback.
-/

namespace Exchange.Auth

open Async Store Wallets

/-- What is signed. -/
structure Payload where
  sub : Option Nat
  uuid : Option String
  deriving DecidableEq

/-- The libraries behind `JwtService` and the guards: a token is verified under the
secret it was signed with, until its time is over. -/
structure Jwt where
  Token : Type
  text : Token → String
  sign : Payload → String → Nat → Nat → Token
  verify : Token → String → Nat → Option Payload
  verify_sign : ∀ payload secret iat expiresIn secret' now,
    verify (sign payload secret iat expiresIn) secret' now =
      if secret' = secret ∧ now < iat + expiresIn then some payload else none

/-! ## Constants -/

def token_secret : String := "@32432)p."

/-- `1d`, in seconds. -/
def token_expiration : Nat := 86400

def refresh_token_secret : String := "@42432)p."

/-- `7d`, in seconds. -/
def refresh_token_expiration : Nat := 604800

/-! ## Strategies -/

/-- `req.user`. -/
structure ReqUser where
  userId : Option Nat
  uuid : Option String
  deriving DecidableEq

/-- A property that no strategy sets. -/
def ReqUser.id (_ : ReqUser) : Option Nat := none

def JwtStrategy.validate (payload : Payload) : ReqUser := ⟨payload.sub, payload.uuid⟩

def JwtRefreshTokenStrategy.validate (_request payload : Payload) : ReqUser :=
  ⟨payload.sub, payload.uuid⟩

/-- The callback of `passport`, as an object: it has neither property. -/
def done : Payload := ⟨none, none⟩

/-! ## Requests -/

structure SignInDto where
  email : String
  password : String
  deriving DecidableEq

/-- The body of a guarded request: nothing in it is checked. -/
structure Post where
  email : Field
  password : Field
  secret : Field
  otp : Field
  deriving DecidableEq

/-- The endpoints under `JwtAuthGuard`; `other` are those that write no user. -/
inductive Endpoint where
  | profile
  | changePassword
  | changeEmail
  | logOut
  | turnOn
  | verify
  | other
  deriving DecidableEq

inductive Call (Token : Type) where
  | login (dto : SignInDto)
  | register (dto : SignUpDto)
  | refresh (token : Token)
  | guarded (endpoint : Endpoint) (token : Token) (post : Post)

inductive Reply (Token : Type) where
  | signedIn (accessToken refreshToken : Token) (user : User)
  | accessToken (token : Token)
  | message (success : Bool) (message : String)
  | status (statusCode : Nat) (message : String)
  | data (user : User)
  | updated
  | nothing

inductive Err where
  | rejected
  | typeError
  | http (message : String) (status : Nat)
  deriving DecidableEq

/-- The refusal of a guard. -/
def unauthorized : Err := .http "Unauthorized" 401

/-- The calls of a request; `race` tells which of two calls that were started
together comes first. -/
inductive Op (J : Jwt) where
  | verify (token : J.Token) (secret : String)
  | sign (payload : Payload) (secret : String) (expiresIn : Nat)
  | now
  | race
  | findOne (c : UserWhere)
  | update (c : Criteria) (data : UserData)
  | save (obj : NewUser)
  | compare (data encrypted : String)
  | genSalt
  | hash (data salt : String)
  | uuidv4
  | checkOtp (token : Field) (secret : String)

abbrev Op.Res {J : Jwt} : Op J → Type
  | verify .. => Option Payload
  | sign .. => J.Token
  | now => Nat
  | race | compare .. | checkOtp .. => Bool
  | findOne _ => Option User
  | update .. | save _ => Unit
  | genSalt | hash .. | uuidv4 => String

variable {J : Jwt}

abbrev Prog (J : Jwt) := Proc (Op J) Op.Res Err

def call (o : Op J) : Prog J o.Res := Proc.call o

/-! ## `DatabaseService` -/

/-- The condition for a property of a body. -/
def Field.condition : Field → Option String
  | .text s => some s
  | _ => none

def setCurrentRefreshToken (refreshToken : J.Token) (id : Nat) : Prog J Unit := do
  let salt : String ← call .genSalt
  let hash : String ← call (.hash (J.text refreshToken) salt)
  call (.update (.id (some id)) (.refreshToken (some hash)))

def saveUser (user : SignUpDto) : Prog J Unit := do
  let salt : String ← call .genSalt
  let uuid : String ← call .uuidv4
  let password : String ← call (.hash user.password salt)
  call (.save { user with zasper_id := user.password, uuid := uuid, password := password })

def removeRefreshToken (userId : Option Nat) : Prog J Unit :=
  call (.update (.key userId) (.refreshToken none))

/-! ## `AuthService` -/

namespace AuthService

def getCookieWithJwtAccessToken (id : Option Nat) (uuid : Option String) : Prog J J.Token :=
  call (.sign ⟨id, uuid⟩ token_secret token_expiration)

def getCookieWithJwtRefreshToken (id : Option Nat) (uuid : Option String) : Prog J J.Token :=
  call (.sign ⟨id, uuid⟩ refresh_token_secret refresh_token_expiration)

def invalid : Err := .http "Invalid login credentials" 401

def signIn (email pass : String) : Prog J (Reply J.Token) := do
  let user : Option User ← call (.findOne { email := some email })
  match user with
  | none => .throw invalid
  | some user =>
    let isMatch : Bool ← call (.compare pass user.password)
    if isMatch then
      let accessToken ← getCookieWithJwtAccessToken (some user.id) (some user.uuid)
      let refreshToken ← getCookieWithJwtRefreshToken (some user.id) (some user.uuid)
      let now : Nat ← call .now
      call (.update (.id (some user.id)) (.logged_in_at now))
      setCurrentRefreshToken refreshToken user.id
      pure (.signedIn accessToken refreshToken user)
    else .throw invalid

end AuthService

/-! ## `AuthController` -/

namespace AuthController

/-- The two look-ups of `signUp`, started together. -/
def existing (dto : SignUpDto) : Prog J (Option User × Option User) := do
  let emailFirst : Bool ← call .race
  if emailFirst then
    let existEmail : Option User ← call (.findOne { email := some dto.email })
    let existPhone : Option User ← call
      (.findOne { phone_number := Field.condition dto.phone_number })
    pure (existEmail, existPhone)
  else
    let existPhone : Option User ← call
      (.findOne { phone_number := Field.condition dto.phone_number })
    let existEmail : Option User ← call (.findOne { email := some dto.email })
    pure (existEmail, existPhone)

def signUp (dto : SignUpDto) : Prog J (Reply J.Token) := do
  let (existEmail, existPhone) ← existing dto
  if existEmail.isSome then pure (.message false "Email already  registered")
  else if existPhone.isSome then pure (.message false "Phone Number already  registered")
  else
    saveUser dto
    pure (.message true "Successfully registered")

def getProfile (user : ReqUser) : Prog J (Reply J.Token) := do
  let existuser : Option User ← call (.findOne { id := user.id, uuid := user.uuid })
  match existuser with
  | none => .throw (.http "Access denied" 401)
  | some existuser => pure (.data existuser)

def changePassword (post : Post) (user : ReqUser) : Prog J (Reply J.Token) := do
  let salt : String ← call .genSalt
  match post.password with
  | .text password =>
    let hash : String ← call (.hash password salt)
    call (.update (.uuid user.uuid) (.password password hash))
    pure .updated
  | _ => .throw .rejected

def changeEmail (post : Post) (user : ReqUser) : Prog J (Reply J.Token) := do
  let y : Option User ← call (.findOne { email := Field.condition post.email })
  if y.isSome then .throw (.http "Email aready exist" 500)
  else
    call (.update (.uuid user.uuid) (.email post.email))
    pure (.status 200 "Email succesfully updated")

def refresh (user : ReqUser) : Prog J (Reply J.Token) := do
  let accessToken ← AuthService.getCookieWithJwtAccessToken user.id user.uuid
  pure (.accessToken accessToken)

def logOut (user : ReqUser) : Prog J (Reply J.Token) := do
  removeRefreshToken user.id
  pure .nothing

/-- `authenticator.verify`: a secret that is not a text cannot be decoded. -/
def checkOtp (token secret : Field) : Prog J Bool :=
  match secret with
  | .text secret => call (.checkOtp token secret)
  | _ => .throw .typeError

def turnOnTwoFactorAuthentication (post : Post) (user : ReqUser) : Prog J (Reply J.Token) := do
  let verify_resp : Bool ← checkOtp post.otp post.secret
  if verify_resp then
    match post.secret with
    | .text secret =>
      call (.update (.id user.userId) (.twofa secret))
      pure (.message true "Two FA enabled Successfully")
    | _ => .throw .typeError
  else pure (.message false "Otp is expired or wrong")

def verifyTwoFaCode (post : Post) (user : ReqUser) : Prog J (Reply J.Token) := do
  let userInfo : Option User ← call (.findOne { id := user.userId })
  match userInfo with
  | none => .throw .typeError
  | some userInfo =>
    let resp ← checkOtp post.otp (userInfo.twofa_secret.elim .null .text)
    if resp then pure (.message true "Logged In successfully")
    else pure (.message false "Otp is expired or wrong")

/-- The handler behind a guard. -/
def handle (endpoint : Endpoint) (post : Post) (user : ReqUser) : Prog J (Reply J.Token) :=
  match endpoint with
  | .profile => getProfile user
  | .changePassword => changePassword post user
  | .changeEmail => changeEmail post user
  | .logOut => logOut user
  | .turnOn => turnOnTwoFactorAuthentication post user
  | .verify => verifyTwoFaCode post user
  | .other => pure .nothing

/-- What a guard lets in. -/
def canActivate (token : J.Token) (secret : String) (validate : Payload → ReqUser) :
    Prog J ReqUser := do
  let payload : Option Payload ← call (.verify token secret)
  match payload with
  | none => .throw unauthorized
  | some payload => pure (validate payload)

/-- What answers a request. The strategies are called with the payload and `done`. -/
def program : Call J.Token → Prog J (Reply J.Token)
  | .login dto => AuthService.signIn dto.email dto.password
  | .register dto => signUp dto
  | .refresh token => do
    let user ← canActivate token refresh_token_secret fun payload =>
      JwtRefreshTokenStrategy.validate payload done
    refresh user
  | .guarded endpoint token post => do
    let user ← canActivate token token_secret JwtStrategy.validate
    handle endpoint post user

end AuthController

/-! ## Requests, one after the other -/

/-- What is outside, during one request. -/
structure Answers (J : Jwt) where
  now : Nat
  emailFirst : Bool
  compare : String → String → Bool
  salt : String
  hash : String → String → String
  uuid : String
  checkOtp : Field → String → Bool
  fails : Op J → Bool

/-- The answer of a call, unless it fails. -/
def Answers.reply {α : Type} (a : Answers J) (o : Op J) (db : Users) (r : α) (db' : Users) :
    Except Err α × Users :=
  if a.fails o then (.error .rejected, db) else (.ok r, db')

def Users.perform (a : Answers J) : Handler (Op J) Op.Res Err Users
  | .verify token secret, db => (.ok (J.verify token secret a.now), db)
  | .sign payload secret expiresIn, db => (.ok (J.sign payload secret a.now expiresIn), db)
  | .now, db => (.ok a.now, db)
  | .race, db => (.ok a.emailFirst, db)
  | .findOne c, db => a.reply (.findOne c) db (db.findOne c) db
  | .update c data, db =>
      match db.update c data with
      | some db' => a.reply (.update c data) db () db'
      | none => (.error .rejected, db)
  | .save obj, db => a.reply (.save obj) db () (db.save obj)
  | .compare data encrypted, db =>
      a.reply (.compare data encrypted) db (a.compare data encrypted) db
  | .genSalt, db => a.reply .genSalt db a.salt db
  | .hash data salt, db => a.reply (.hash data salt) db (a.hash data salt) db
  | .uuidv4, db => (.ok a.uuid, db)
  | .checkOtp token secret, db =>
      a.reply (.checkOtp token secret) db (a.checkOtp token secret) db

/-- A request that was answered: the users before it, and its time. -/
structure Event (J : Jwt) where
  before : Users
  now : Nat
  call : Call J.Token
  reply : Except Err (Reply J.Token)

/-- The users, and the requests so far. -/
structure State (J : Jwt) where
  db : Users
  events : List (Event J)

def serve (s : State J) (req : Answers J × Call J.Token) : State J :=
  let r := (AuthController.program req.2).run (Users.perform req.1) s.db
  ⟨r.2, s.events ++ [⟨s.db, req.1.now, req.2, r.1⟩]⟩

def serveAll (s : State J) (reqs : List (Answers J × Call J.Token)) : State J :=
  reqs.foldl serve s

def State.start (db : Users) : State J := ⟨db, []⟩

/-! ## What a program calls -/

open Proc

/-- A registration writes by `save`, under the id of its body. -/
def Registers (dto : SignUpDto) : Op J → Prop
  | .update .. => False
  | .save obj => obj.id = dto.id
  | _ => True

/-- A change of an email writes by `update`. -/
def Renames (post : Post) (user : ReqUser) : Op J → Prop
  | .update c data => c = .uuid user.uuid ∧ data = .email post.email
  | .save _ => False
  | _ => True

theorem signUp_calls (dto : SignUpDto) :
    Calls (Registers dto) (AuthController.signUp dto : Prog J _) := by
  refine Calls.bind (Calls.bind (Calls.call trivial) fun emailFirst => ?_) ?_
  · split
    · refine Calls.bind (Calls.call trivial) fun existEmail => ?_
      exact Calls.bind (Calls.call trivial) fun existPhone => trivial
    · refine Calls.bind (Calls.call trivial) fun existPhone => ?_
      exact Calls.bind (Calls.call trivial) fun existEmail => trivial
  · rintro ⟨existEmail, existPhone⟩
    dsimp only
    split
    · trivial
    · split
      · trivial
      · refine Calls.bind ?_ fun _ => trivial
        refine Calls.bind (Calls.call trivial) fun salt => ?_
        refine Calls.bind (Calls.call trivial) fun uuid => ?_
        exact Calls.bind (Calls.call trivial) fun password => Calls.call rfl

theorem changeEmail_calls (post : Post) (user : ReqUser) :
    Calls (Renames post user) (AuthController.changeEmail post user : Prog J _) := by
  refine Calls.bind (Calls.call trivial) fun y => ?_
  split
  · trivial
  · exact Calls.bind (Calls.call ⟨rfl, rfl⟩) fun _ => trivial

/-! ## What a request is answered -/

/-- The answer of a login. -/
def signedIn (J : Jwt) (now : Nat) (user : User) : Reply J.Token :=
  .signedIn (J.sign ⟨some user.id, some user.uuid⟩ token_secret now token_expiration)
    (J.sign ⟨some user.id, some user.uuid⟩ refresh_token_secret now refresh_token_expiration) user

section Answered

variable (a : Answers J) (db : Users)

/-- A call whose answer leaves the users alone. -/
theorem reply_same {α : Type} (o : Op J) (r : α) : (a.reply o db r db).2 = db := by
  unfold Answers.reply
  split <;> rfl

/-- Everything that a call does to the users. -/
theorem perform_cases (o : Op J) :
    (Users.perform a o db).2 = db ∨
    (∃ c data, o = .update c data ∧ a.fails (.update c data) = false ∧
      db.update c data = some (Users.perform a o db).2) ∨
    ∃ obj, o = .save obj ∧ a.fails (.save obj) = false ∧
      (Users.perform a o db).2 = db.save obj := by
  cases o with
  | update c data =>
    simp only [Users.perform]
    split
    · rename_i db' hupdate
      unfold Answers.reply
      split
      · exact .inl rfl
      · rename_i hfails
        exact .inr (.inl ⟨c, data, rfl, Bool.eq_false_iff.mpr hfails, hupdate⟩)
    · exact .inl rfl
  | save obj =>
    simp only [Users.perform, Answers.reply]
    split
    · exact .inl rfl
    · rename_i hfails
      exact .inr (.inr ⟨obj, rfl, Bool.eq_false_iff.mpr hfails, rfl⟩)
  | verify | sign | now | race | uuidv4 => exact .inl rfl
  | findOne | compare | genSalt | hash | checkOtp => exact .inl (reply_same ..)

theorem wp_sign (payload : Payload) (secret : String) (expiresIn : Nat)
    (Q : Except Err J.Token → Users → Prop) :
    wp (Users.perform a) (call (.sign payload secret expiresIn)) Q db ↔
      Q (.ok (J.sign payload secret a.now expiresIn)) db := Iff.rfl

/-- A guard changes nothing. -/
theorem canActivate_run (token : J.Token) (secret : String) (validate : Payload → ReqUser) :
    (AuthController.canActivate token secret validate).run (Users.perform a) db =
      ((J.verify token secret a.now).elim (.error unauthorized) fun p => .ok (validate p), db) := by
  unfold AuthController.canActivate
  rw [run_bind]
  change run _ (match J.verify token secret a.now with
    | none => .throw unauthorized
    | some payload => Pure.pure (validate payload)) db = _
  cases J.verify token secret a.now <;> rfl

/-- The new token is signed for nobody. -/
theorem refresh_run (token : J.Token) :
    (AuthController.program (.refresh token)).run (Users.perform a) db =
      ((J.verify token refresh_token_secret a.now).elim (.error unauthorized) fun _ =>
        .ok (.accessToken (J.sign ⟨none, none⟩ token_secret a.now token_expiration)), db) := by
  unfold AuthController.program
  rw [run_bind, canActivate_run]
  cases J.verify token refresh_token_secret a.now <;> rfl

theorem guarded_run (endpoint : Endpoint) (token : J.Token) (post : Post) :
    (AuthController.program (.guarded endpoint token post)).run (Users.perform a) db =
      match J.verify token token_secret a.now with
      | none => (.error unauthorized, db)
      | some payload =>
          (AuthController.handle endpoint post (JwtStrategy.validate payload)).run
            (Users.perform a) db := by
  unfold AuthController.program
  rw [run_bind, canActivate_run]
  cases J.verify token token_secret a.now <;> rfl

/-- Who is signed in is the user with the email, and both tokens are signed for them. -/
theorem signIn_spec (email pass : String) :
    wp (Users.perform a) (AuthService.signIn email pass) (fun r _ => ∀ reply, r = .ok reply →
      ∃ user, db.findOne { email := some email } = some user ∧ reply = signedIn J a.now user)
      db := by
  unfold AuthService.signIn
  rw [wp_bind]
  apply wp_call_fails rfl
  · rintro - reply ⟨⟩
  · intro _
    dsimp only
    cases hfind : db.findOne { email := some email } with
    | none => rintro reply ⟨⟩
    | some user =>
      apply wp_bind_any (fun e w' => by rintro reply ⟨⟩)
      intro isMatch w'
      split
      · apply (wp_bind _ _ _).mpr
        apply (wp_sign a _ _ _ _ _).mpr
        apply (wp_bind _ _ _).mpr
        apply (wp_sign a _ _ _ _ _).mpr
        -- the time of the login and the hash of the token
        apply wp_bind_any (fun e w' => by rintro reply ⟨⟩)
        intro now w'
        apply wp_bind_any (fun e w' => by rintro reply ⟨⟩)
        intro _ w'
        apply wp_bind_any (fun e w' => by rintro reply ⟨⟩)
        rintro _ w' reply ⟨⟩
        exact ⟨user, rfl, rfl⟩
      · rintro reply ⟨⟩

/-- The users that a registration finds under its email and its phone number. -/
def Users.taken (db : Users) (dto : SignUpDto) : Option User × Option User :=
  (db.findOne { email := some dto.email },
    db.findOne { phone_number := Field.condition dto.phone_number })

theorem findBoth_spec {β : Type} (c c' : UserWhere) (f : Option User → Option User → β) :
    wp (Users.perform a)
      (do
        let x : Option User ← call (.findOne c)
        let y : Option User ← call (.findOne c')
        Pure.pure (f x y))
      (fun r db' => db' = db ∧ ∀ found, r = .ok found → found = f (db.findOne c) (db.findOne c'))
      db := by
  rw [wp_bind]
  apply wp_call_fails rfl
  · refine fun _ => ⟨rfl, ?_⟩
    rintro found ⟨⟩
  · intro _
    apply (wp_bind _ _ _).mpr
    apply wp_call_fails rfl
    · refine fun _ => ⟨rfl, ?_⟩
      rintro found ⟨⟩
    · refine fun _ => ⟨rfl, ?_⟩
      rintro found ⟨⟩
      rfl

/-- The look-ups find what there is, in either order. -/
theorem existing_spec (dto : SignUpDto) :
    wp (Users.perform a) (AuthController.existing dto)
      (fun r db' => db' = db ∧ ∀ found, r = .ok found → found = db.taken dto) db := by
  unfold AuthController.existing
  rw [wp_bind]
  apply (wp_call _ _).mpr
  change wp _ (if a.emailFirst then _ else _) _ _
  split
  · exact findBoth_spec a db _ _ Prod.mk
  · exact findBoth_spec a db _ _ fun existPhone existEmail => (existEmail, existPhone)

/-- A registration that finds a user writes none. -/
theorem signUp_refused {dto : SignUpDto}
    (h : (db.taken dto).1.isSome ∨ (db.taken dto).2.isSome) :
    ((AuthController.signUp dto).run (Users.perform a) db).2 = db := by
  have hwp : wp (Users.perform a) (AuthController.signUp dto) (fun _ db' => db' = db) db := by
    unfold AuthController.signUp
    rw [wp_bind]
    refine wp_mono (existing_spec a db dto) ?_
    rintro (e | ⟨existEmail, existPhone⟩) db' ⟨rfl, hfound⟩
    · rfl
    · dsimp only
      have htaken := hfound _ rfl
      split
      · rfl
      · split
        · rfl
        · rename_i hemail hphone
          rw [← htaken] at h
          exact (h.elim hemail hphone).elim
  exact hwp

end Answered

end Exchange.Auth
