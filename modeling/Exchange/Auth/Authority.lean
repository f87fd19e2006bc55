import Exchange.Async.Given
import Exchange.Auth.Sessions

/-!
# Who may change an account

All requests of `AuthController` at the same time, answered in any order. A request
writes by what its token was verified to say, or by the id in its body: `May` lists
what each one may change of a row.

`changes_authorised`: in every run, a turn changes a row only as the request whose
call it answers may. `clearText_opens`: whatever is changed, the string that is kept
beside the hash of a password is one that the hash was made of.
-/

namespace Exchange.Auth.Authority

open Async Async.Proc Store Wallets

variable {J : Jwt}

/-! ## The event loop -/

/-- The users, and the requests that have arrived. -/
structure World (J : Jwt) where
  db : Users
  arrived : List (Call J.Token)

/-- What answers a request; its reply is not looked at. -/
def request (c : Call J.Token) : Auth.Prog J Unit := do
  let _ ← AuthController.program c
  Pure.pure ()

def answer (a : Answers J) (o : Op J) (w : World J) : Option (Except Err o.Res × World J) :=
  let r := Users.perform a o w.db
  some (r.1, { w with db := r.2 })

/-- Every call is answered from outside, and requests arrive at any time. -/
def loop (J : Jwt) : Loop (Op J) Op.Res Err (World J) (Answers J) (Call J.Token) where
  awaits := fun _ => true
  effect := fun _ w => (.error .rejected, w, [])
  answer := answer
  happen := fun c w => some ({ w with arrived := w.arrived ++ [c] }, [request c])

abbrev State (J : Jwt) := Loop.State (Op J) Op.Res Err (World J)

abbrev Turn (J : Jwt) := Loop.Turn (Answers J) (Call J.Token)

def State.start (db : Users) : State J := ⟨⟨db, []⟩, []⟩

/-! ## What a request may do -/

/-- The token was verified at some time. -/
def Says (token : J.Token) (payload : Payload) : Prop :=
  ∃ now, J.verify token token_secret now = some payload

/-- The hashes of a library whose comparisons are `opens`. -/
def Hashes (opens : String → String → Prop) (a : Answers J) : Prop :=
  ∀ data salt, opens data (a.hash data salt)

/-- What a registration saves: its body, with the password beside its hash. -/
structure Fills (opens : String → String → Prop) (dto : SignUpDto) (obj : NewUser) : Prop where
  body : obj.toSignUpDto = { dto with password := obj.password }
  clear : obj.zasper_id = dto.password
  hash : opens dto.password obj.password

/-- What a guarded request for `payload` may make of a row. -/
def Endpoint.May (opens : String → String → Prop) (payload : Payload) (post : Post) (r r' : User) :
    Endpoint → Prop
  | .changePassword => payload.uuid = some r.uuid ∧ ∃ password hash,
      post.password = .text password ∧ opens password hash ∧
        r' = { r with zasper_id := password, password := hash }
  | .changeEmail => payload.uuid = some r.uuid ∧ ∃ email,
      post.email = .text email ∧ r' = { r with email := email }
  | .turnOn => payload.sub = some r.id ∧ ∃ secret,
      post.secret = .text secret ∧
        r' = { r with twofa_secret := some secret, is_two_fa_enabled := .YES }
  | _ => False

/-- What a request may make of a row; `named` says which user had which email. -/
def May (opens : String → String → Prop) (named : Nat → String → Prop) (r r' : User) :
    Call J.Token → Prop
  | .login dto => named r.id dto.email ∧
      r' = { r with logged_in_at := r'.logged_in_at, refreshToken := r'.refreshToken }
  | .register dto => dto.id = some r.id ∧ ∃ obj, Fills opens dto obj ∧ r' = obj.write r
  | .refresh _ => False
  | .guarded endpoint token post => ∃ payload, Says token payload ∧
      Endpoint.May opens payload post r r' endpoint

/-- The row that a request may add. -/
def Adds (opens : String → String → Prop) (r' : User) : Call J.Token → Prop
  | .register dto => ∃ obj, Fills opens dto obj ∧ r' = obj.toRow r'.id
  | _ => False

/-! ## What a request calls -/

/-- What a guarded request for `user` updates. -/
def Endpoint.Updates (opens : String → String → Prop) (user : ReqUser) (post : Post)
    (c : Criteria) (data : UserData) : Endpoint → Prop
  | .changePassword => c = .uuid user.uuid ∧ ∃ password hash, post.password = .text password ∧
      opens password hash ∧ data = .password password hash
  | .changeEmail => c = .uuid user.uuid ∧ data = .email post.email
  | .turnOn => c = .id user.userId ∧ ∃ secret, post.secret = .text secret ∧ data = .twofa secret
  | .logOut => c = .key none
  | _ => False

/-- What a login updates, in the row of a user who had its email. -/
def SignInDto.Updates (named : Nat → String → Prop) (dto : SignInDto) (c : Criteria) :
    UserData → Prop
  | .logged_in_at _ | .refreshToken _ => ∃ id, c = .id (some id) ∧ named id dto.email
  | _ => False

/-- A call that the request may make. -/
def Covers (opens : String → String → Prop) (named : Nat → String → Prop) (c : Call J.Token) :
    Op J → Prop
  | .update criteria data =>
      match c with
      | .login dto => SignInDto.Updates named dto criteria data
      | .guarded endpoint token post => ∃ payload, Says token payload ∧
          Endpoint.Updates opens (JwtStrategy.validate payload) post criteria data endpoint
      | _ => False
  | .save obj =>
      match c with
      | .register dto => Fills opens dto obj
      | _ => False
  | _ => True

/-- What the libraries answer, and the look-up of an email. -/
def Honest (opens : String → String → Prop) (named : Nat → String → Prop) :
    (o : Op J) → Except Err o.Res → Prop
  | .verify token secret, r => ∀ payload : Payload, r = .ok (some payload) →
      ∃ now, J.verify token secret now = some payload
  | .hash data _, r => ∀ hash : String, r = .ok hash → opens data hash
  | .findOne c, r => ∀ (user : User) (email : String), r = .ok (some user) →
      c.email = some email → named user.id email
  | _, _ => True

section Programs

variable {opens : String → String → Prop} {named : Nat → String → Prop}

/-- The emails of the users. -/
def Named (named : Nat → String → Prop) (db : Users) : Prop := ∀ r ∈ db.rows, named r.id r.email

theorem Hashes.honest {a : Answers J} (ha : Hashes opens a) (o : Op J) {db : Users}
    (hdb : Named named db) :
    Honest opens named o (Users.perform a o db).1 := by
  cases o with
  | verify token secret =>
    intro payload h
    exact ⟨a.now, Except.ok.inj h⟩
  | hash data salt =>
    intro hash h
    simp only [Users.perform, Answers.reply] at h
    split at h
    · cases h
    · cases h
      exact ha data salt
  | findOne c =>
    intro user email h hemail
    simp only [Users.perform, Answers.reply] at h
    split at h
    · cases h
    · have hfind : db.rows.find? c.selects = some user := Except.ok.inj h
      have hselects := List.find?_some hfind
      simp only [UserWhere.selects, hemail, Option.all_some, decide_eq_true_eq] at hselects
      rw [← hselects.2.1]
      exact hdb user (List.mem_of_find?_eq_some hfind)
  | _ => trivial

/-- A program that is not answered a token or a hash. -/
abbrev Reads {α : Type} (opens : String → String → Prop) (named : Nat → String → Prop)
    (P : Op J → Prop) (p : Auth.Prog J α) : Prop := Given (Honest opens named) P p

theorem covers_login (dto : SignInDto) :
    Reads opens named (Covers opens named (.login dto))
      (AuthService.signIn dto.email dto.password : Auth.Prog J _) := by
  unfold AuthService.signIn
  apply Given.answered trivial
  rintro (_ | user) hfound
  · trivial
  · have hnamed : named user.id dto.email := hfound user dto.email rfl rfl
    apply Given.bind (Given.call trivial)
    intro isMatch
    split
    · apply Given.bind (Given.call trivial)
      intro accessToken
      apply Given.bind (Given.call trivial)
      intro refreshToken
      apply Given.bind (Given.call trivial)
      intro now
      apply Given.bind (Given.call ⟨user.id, rfl, hnamed⟩)
      intro _
      refine Given.bind ?_ fun _ => trivial
      -- the hash of the refresh token
      apply Given.bind (Given.call trivial)
      intro salt
      exact Given.bind (Given.call trivial) fun hash => Given.call ⟨user.id, rfl, hnamed⟩
    · trivial

theorem covers_existing (c : Call J.Token) (dto : SignUpDto) :
    Reads opens named (Covers opens named c) (AuthController.existing dto : Auth.Prog J _) := by
  unfold AuthController.existing
  apply Given.bind (Given.call trivial)
  intro emailFirst
  split
  · apply Given.bind (Given.call trivial)
    intro existEmail
    exact Given.bind (Given.call trivial) fun existPhone => trivial
  · apply Given.bind (Given.call trivial)
    intro existPhone
    exact Given.bind (Given.call trivial) fun existEmail => trivial

theorem covers_register (dto : SignUpDto) :
    Reads opens named (Covers opens named (.register dto))
      (AuthController.signUp dto : Auth.Prog J _) := by
  unfold AuthController.signUp
  apply Given.bind (covers_existing _ dto)
  rintro ⟨existEmail, existPhone⟩
  dsimp only
  split
  · trivial
  · split
    · trivial
    · refine Given.bind ?_ fun _ => trivial
      unfold saveUser
      apply Given.bind (Given.call trivial)
      intro salt
      apply Given.bind (Given.call trivial)
      intro uuid
      apply Given.answered trivial
      intro password hopens
      exact Given.call ⟨rfl, rfl, hopens password rfl⟩

theorem covers_checkOtp (c : Call J.Token) (token secret : Field) :
    Reads opens named (Covers opens named c)
      (AuthController.checkOtp token secret : Auth.Prog J _) := by
  cases secret with
  | undefined => trivial
  | null => trivial
  | text secret => exact Given.call trivial

theorem covers_handle {endpoint : Endpoint} {token : J.Token} {post : Post} {payload : Payload}
    (htoken : Says token payload) :
    Reads opens named (Covers opens named (.guarded endpoint token post))
      (AuthController.handle endpoint post (JwtStrategy.validate payload)) := by
  cases endpoint with
  | profile =>
    apply Given.bind (Given.call trivial)
    rintro (_ | existuser)
    · trivial
    · trivial
  | changePassword =>
    change Given _ _ (AuthController.changePassword post _)
    unfold AuthController.changePassword
    apply Given.bind (Given.call trivial)
    intro salt
    split
    · next password hpassword =>
      apply Given.answered trivial
      intro hash hopens
      have hupdates : Endpoint.Updates opens (JwtStrategy.validate payload) post
          (.uuid payload.uuid) (.password password hash) .changePassword :=
        ⟨rfl, password, hash, hpassword, hopens hash rfl, rfl⟩
      exact Given.bind (Given.call ⟨payload, htoken, hupdates⟩) fun _ => trivial
    · trivial
  | changeEmail =>
    change Given _ _ (AuthController.changeEmail post _)
    unfold AuthController.changeEmail
    apply Given.bind (Given.call trivial)
    intro y
    split
    · trivial
    · exact Given.bind (Given.call ⟨payload, htoken, rfl, rfl⟩) fun _ => trivial
  | logOut => exact Given.bind (Given.call ⟨payload, htoken, rfl⟩) fun _ => trivial
  | turnOn =>
    change Given _ _ (AuthController.turnOnTwoFactorAuthentication post _)
    unfold AuthController.turnOnTwoFactorAuthentication
    apply Given.bind (covers_checkOtp _ _ _)
    intro verify_resp
    split
    · split
      · next secret hsecret =>
        have hupdates : Endpoint.Updates opens (JwtStrategy.validate payload) post
            (.id payload.sub) (.twofa secret) .turnOn := ⟨rfl, secret, hsecret, rfl⟩
        exact Given.bind (Given.call ⟨payload, htoken, hupdates⟩) fun _ => trivial
      · trivial
    · trivial
  | verify =>
    change Given _ _ (AuthController.verifyTwoFaCode post _)
    unfold AuthController.verifyTwoFaCode
    apply Given.bind (Given.call trivial)
    rintro (_ | userInfo)
    · trivial
    · apply Given.bind (covers_checkOtp _ _ _)
      intro resp
      split <;> trivial
  | other => trivial

/-- Every request keeps to what it may call. -/
theorem covers_request (c : Call J.Token) :
    Reads opens named (Covers opens named c) (request c) := by
  refine Given.bind ?_ fun _ => trivial
  cases c with
  | login dto => exact covers_login dto
  | register dto => exact covers_register dto
  | refresh token =>
    refine Given.bind (Given.bind (Given.call trivial) ?_) fun user => ?_
    · rintro (_ | payload) <;> trivial
    · exact Given.bind (Given.call trivial) fun _ => trivial
  | guarded endpoint token post =>
    change Given _ _ (AuthController.canActivate token token_secret JwtStrategy.validate >>= _)
    unfold AuthController.canActivate
    rw [Proc.bind_assoc]
    apply Given.answered trivial
    rintro (_ | payload) hverified
    · trivial
    · exact covers_handle (hverified payload rfl)

end Programs

/-! ## What a call does to the rows -/

section Rows

variable {opens : String → String → Prop} {named : Nat → String → Prop} {c : Call J.Token}
  {db db' : Users} {r r' : User}

theorem may_update {criteria : Criteria} {data : UserData}
    (hcovers : Covers opens named c (.update criteria data : Op J))
    (hupdate : db.update criteria data = some db') (hselects : criteria.selects r = true) :
    data.write r = r ∨ May opens named r (data.write r) c := by
  cases c with
  | login dto =>
    cases data with
    | logged_in_at time | refreshToken token =>
      obtain ⟨id, rfl, hnamed⟩ := hcovers
      obtain rfl : id = r.id := Option.some.inj (of_decide_eq_true hselects)
      exact .inr ⟨hnamed, rfl⟩
    | _ => exact hcovers.elim
  | register dto => exact hcovers.elim
  | refresh token => exact hcovers.elim
  | guarded endpoint token post =>
    obtain ⟨payload, htoken, hendpoint⟩ := hcovers
    cases endpoint with
    | changePassword =>
      obtain ⟨rfl, password, hash, hpassword, hopens, rfl⟩ := hendpoint
      have huuid : payload.uuid = some r.uuid := of_decide_eq_true hselects
      exact .inr ⟨payload, htoken, huuid, password, hash, hpassword, hopens, rfl⟩
    | changeEmail =>
      obtain ⟨rfl, rfl⟩ := hendpoint
      have huuid : payload.uuid = some r.uuid := of_decide_eq_true hselects
      cases hemail : post.email with
      | undefined => exact .inl rfl
      | null => exact .inl rfl
      | text email => exact .inr ⟨payload, htoken, huuid, email, hemail, rfl⟩
    | turnOn =>
      obtain ⟨rfl, secret, hsecret, rfl⟩ := hendpoint
      have hid : payload.sub = some r.id := of_decide_eq_true hselects
      exact .inr ⟨payload, htoken, hid, secret, hsecret, rfl⟩
    | logOut =>
      -- the key is `undefined`, and the update is refused
      obtain rfl : criteria = .key none := hendpoint
      simp [Users.update, Users.refuses] at hupdate
    | _ => exact hendpoint.elim

theorem Fills.id {dto : SignUpDto} {obj : NewUser} (h : Fills opens dto obj) : obj.id = dto.id := by
  rw [h.body]

/-- A row that `save` adds is the row of what is saved. -/
theorem mem_save_cases {obj : NewUser} (h : r' ∈ (db.save obj).rows) :
    (∃ r ∈ db.rows, r.id = r'.id) ∨ r' = obj.toRow r'.id := by
  have hadded : ∀ id, r' ∈ db.rows ++ [obj.toRow id] →
      (∃ r ∈ db.rows, r.id = r'.id) ∨ r' = obj.toRow r'.id := by
    intro id hr
    rcases List.mem_append.mp hr with hr | hr
    · exact .inl ⟨r', hr, rfl⟩
    · obtain rfl := List.mem_singleton.mp hr
      exact .inr rfl
  unfold Users.save at h
  split at h
  · exact hadded _ h
  · split at h
    · obtain ⟨r, hr, rfl⟩ := Table.mem_modify.mp h
      refine .inl ⟨r, hr, ?_⟩
      split <;> rfl
    · split at h
      · exact hadded _ h
      · exact hadded _ h

/-- What the turn of a request may do to the users. -/
structure Authorised (opens : String → String → Prop) (named : Nat → String → Prop)
    (c : Call J.Token) (db db' : Users) : Prop where
  changed : ∀ r ∈ db.rows, ∃ r' ∈ db'.rows, r'.id = r.id ∧ (r' = r ∨ May opens named r r' c)
  added : ∀ r' ∈ db'.rows, (∃ r ∈ db.rows, r.id = r'.id) ∨ Adds opens r' c

theorem Authorised.refl (opens : String → String → Prop) (named : Nat → String → Prop)
    (c : Call J.Token) (db : Users) :
    Authorised opens named c db db :=
  ⟨fun r hr => ⟨r, hr, rfl, .inl rfl⟩, fun r hr => .inl ⟨r, hr, rfl⟩⟩

theorem authorised_update {criteria : Criteria} {data : UserData}
    (hcovers : Covers opens named c (.update criteria data : Op J))
    (hupdate : db.update criteria data = some db') : Authorised opens named c db db' where
  changed := by
    intro r hr
    refine ⟨_, (Users.mem_update hupdate).mpr ⟨r, hr, rfl⟩, ?_⟩
    split
    · next hselects => exact ⟨data.id_write r, may_update hcovers hupdate hselects⟩
    · exact ⟨rfl, .inl rfl⟩
  added := by
    intro r' hr'
    obtain ⟨r, hr, rfl⟩ := (Users.mem_update hupdate).mp hr'
    refine .inl ⟨r, hr, ?_⟩
    split
    · exact (data.id_write r).symm
    · rfl

theorem authorised_save {dto : SignUpDto} {obj : NewUser} (hfills : Fills opens dto obj) :
    Authorised opens named (.register dto : Call J.Token) db (db.save obj) where
  changed := by
    intro r hr
    by_cases hid : obj.id = some r.id
    · have hrow : obj.write r ∈ (db.save obj).rows := by
        unfold Users.save
        rw [hid]
        dsimp only
        rw [dif_pos (List.mem_map_of_mem hr)]
        exact Table.mem_modify_self hr rfl
      exact ⟨_, hrow, rfl, .inr ⟨hfills.id.symm.trans hid, obj, hfills, rfl⟩⟩
    · exact ⟨r, Users.mem_save hr hid, rfl, .inl rfl⟩
  added := fun r' hr' => (mem_save_cases hr').imp_right fun hrow => ⟨obj, hfills, hrow⟩

/-- A call that the request may make does to the users what the request may do. -/
theorem authorised_perform {o : Op J} (hcovers : Covers opens named c o) (a : Answers J)
    (db : Users) : Authorised opens named c db (Users.perform a o db).2 := by
  rcases perform_cases a db o with hdb | ⟨criteria, data, rfl, -, hdb⟩ | ⟨obj, rfl, -, hdb⟩
  · rw [hdb]
    exact Authorised.refl opens named c db
  · exact authorised_update hcovers hdb
  · rw [hdb]
    cases c with
    | register dto => exact authorised_save hcovers
    | _ => exact hcovers.elim

end Rows

/-! ## Runs -/

/-- The invariant of a run: the `i`-th program keeps to what the `i`-th request may call. -/
structure Held (opens : String → String → Prop) (named : Nat → String → Prop) (s : State J) :
    Prop where
  length : s.threads.length = s.world.arrived.length
  covered : ∀ (i : Nat) (p : Auth.Prog J Unit) (c : Call J.Token), s.threads[i]? = some p →
    s.world.arrived[i]? = some c → Reads opens named (Covers opens named c) p

/-- The libraries answer the turn, and the users have their emails. -/
structure AnsweredBy (opens : String → String → Prop) (named : Nat → String → Prop) (s : State J)
    (t : Turn J) : Prop where
  hashes : ∀ i a, t = .perform i a → Hashes opens a
  named : Named named s.world.db

section Steps

variable {opens : String → String → Prop} {named : Nat → String → Prop} {s s' : State J}
  {t : Turn J}

theorem Held.start (opens : String → String → Prop) (named : Nat → String → Prop) (db : Users) :
    Held opens named (State.start db : State J) := by
  refine ⟨rfl, fun i p c hi => ?_⟩
  simp [State.start] at hi

/-- The request behind a program. -/
theorem Held.arrived (h : Held opens named s) {i : Nat} {p : Auth.Prog J Unit}
    (hi : s.threads[i]? = some p) : ∃ c, s.world.arrived[i]? = some c := by
  have hlt := (List.getElem?_eq_some_iff.mp hi).1
  exact ⟨_, List.getElem?_eq_getElem (h.length ▸ hlt)⟩

theorem Steps.held (hstep : (loop J).Steps s t s') (h : Held opens named s)
    (hok : AnsweredBy opens named s t) : Held opens named s' := by
  cases hstep with
  | idle => exact h
  | @happen c w started hc =>
    cases hc
    refine ⟨by simp [h.length], fun i p c' hi hc' => ?_⟩
    rcases Nat.lt_or_ge i s.threads.length with hlt | hge
    · rw [List.getElem?_append_left hlt] at hi
      rw [List.getElem?_append_left (h.length ▸ hlt)] at hc'
      exact h.covered i p c' hi hc'
    · rw [List.getElem?_append_right hge, List.getElem?_singleton] at hi
      rw [List.getElem?_append_right (h.length ▸ hge), List.getElem?_singleton, ← h.length] at hc'
      split at hi
      · next hlast =>
        rw [if_pos hlast] at hc'
        cases hi
        cases hc'
        exact covers_request c
      · cases hi
  | @perform i a o k r w hi ho hanswer =>
    cases hanswer
    refine ⟨by simp [h.length], fun j p c hj hc => ?_⟩
    by_cases hij : i = j
    · subst hij
      rw [getElem?_set_eq hi] at hj
      cases hj
      exact (h.covered i _ c hi hc).2 _ ((hok.hashes i a rfl).honest o hok.named)
    · rw [List.getElem?_set_ne hij] at hj
      exact h.covered j p c hj hc
  | resume hi ho => cases ho

/-- The turn leaves the users alone, or changes them as the request whose call it answers may. -/
def KeepsAuthority (opens : String → String → Prop) (named : Nat → String → Prop) (s : State J)
    (t : Turn J) : Prop :=
  ((loop J).step s t).world.db = s.world.db ∨
    ∃ i a c, t = .perform i a ∧ s.world.arrived[i]? = some c ∧
      Authorised opens named c s.world.db ((loop J).step s t).world.db

theorem Held.authorised (h : Held opens named s) (t : Turn J) : KeepsAuthority opens named s t := by
  unfold KeepsAuthority
  have hstep := (loop J).step_cases s t
  generalize (loop J).step s t = s' at hstep
  cases hstep with
  | idle => exact .inl rfl
  | happen hc =>
    cases hc
    exact .inl rfl
  | @perform i a o k r w hi ho hanswer =>
    cases hanswer
    obtain ⟨c, hc⟩ := h.arrived hi
    have hcovers : Covers opens named c o := (h.covered i _ c hi hc).1
    exact .inr ⟨i, a, c, rfl, hc, authorised_perform hcovers a s.world.db⟩
  | resume hi ho => cases ho

end Steps

variable {opens : String → String → Prop} {named : Nat → String → Prop}

theorem run_held (db : Users) {turns : List (Turn J)}
    (hturns : ∀ t ∈ turns, ∀ i a, t = .perform i a → Hashes opens a)
    (hnamed : ∀ before, before <+: turns →
      Named named ((loop J).run (State.start db) before).world.db) :
    Held opens named ((loop J).run (State.start db) turns) := by
  have hmeets : (loop J).Meets (AnsweredBy opens named) (State.start db) turns := by
    refine Loop.Meets.of_prefixes _ fun before t hbefore => ⟨?_, ?_⟩
    · exact hturns t (hbefore.subset (by simp))
    · exact hnamed before ((List.prefix_append before [t]).trans hbefore)
  exact hmeets.along (loop J) Steps.held (Held.start opens named db)

/-- A user with this id had this email at some time of the run. -/
def Had (db : Users) (turns : List (Turn J)) (id : Nat) (email : String) : Prop :=
  ∃ before, before <+: turns ∧ ∃ r ∈ ((loop J).run (State.start db) before).world.db.rows,
    r.id = id ∧ r.email = email

/-- **Authority.** In every run, under every order of requests, calls and failures, a turn
leaves the users alone or answers a call of a request that may make the change: a
login stamps the row of a user who had its email, a registration writes the row of the id in
its body or adds one, and a guarded request writes the columns of its endpoint in the row
that its token names. -/
theorem changes_authorised (db : Users) (turns : List (Turn J)) (t : Turn J)
    (hturns : ∀ t ∈ turns, ∀ i a, t = .perform i a → Hashes opens a) :
    KeepsAuthority opens (Had db turns) ((loop J).run (State.start db) turns) t := by
  have hnamed : ∀ before, before <+: turns →
      Named (Had db turns) ((loop J).run (State.start db) before).world.db :=
    fun before hbefore r hr => ⟨before, hbefore, r, hr, rfl, rfl⟩
  exact (run_held db hturns hnamed).authorised t

/-- The string beside the hash of a password is one that opens the account. -/
def ClearText (opens : String → String → Prop) (db : Users) : Prop :=
  ∀ r ∈ db.rows, opens r.zasper_id r.password

theorem opens_of_may {c : Call J.Token} {r r' : User} (h : May opens named r r' c)
    (hr : opens r.zasper_id r.password) : opens r'.zasper_id r'.password := by
  cases c with
  | login dto =>
    rw [h.2]
    exact hr
  | register dto =>
    obtain ⟨-, obj, hfills, rfl⟩ := h
    change opens obj.zasper_id obj.password
    rw [hfills.clear]
    exact hfills.hash
  | refresh token => exact h.elim
  | guarded endpoint token post =>
    obtain ⟨payload, -, hendpoint⟩ := h
    cases endpoint with
    | changePassword =>
      obtain ⟨-, password, hash, -, hopens, rfl⟩ := hendpoint
      exact hopens
    | changeEmail =>
      obtain ⟨-, email, -, rfl⟩ := hendpoint
      exact hr
    | turnOn =>
      obtain ⟨-, secret, -, rfl⟩ := hendpoint
      exact hr
    | _ => exact hendpoint.elim

theorem Authorised.clearText {c : Call J.Token} {db db' : Users}
    (h : Authorised opens named c db db') (hdb : ClearText opens db) : ClearText opens db' := by
  intro r' hr'
  rcases h.added r' hr' with ⟨r, hr, hid⟩ | hadds
  · obtain ⟨r'', hr'', hid', hmay⟩ := h.changed r hr
    obtain rfl : r'' = r' := Table.eq_of_key hr'' hr' (hid'.trans hid)
    rcases hmay with rfl | hmay
    · exact hdb r'' hr
    · exact opens_of_may hmay (hdb r hr)
  · cases c with
    | register dto =>
      obtain ⟨obj, hfills, hrow⟩ := hadds
      rw [hrow]
      change opens obj.zasper_id obj.password
      rw [hfills.clear]
      exact hfills.hash
    | _ => exact hadds.elim

/-- **Passwords in the clear.** In every state of every run each row keeps, beside the hash
of its password, a string that the hash was made of: whatever is registered, changed or
overwritten, and however the requests interleave, the table itself opens every account. -/
theorem clearText_opens (db : Users) (turns : List (Turn J))
    (hturns : ∀ t ∈ turns, ∀ i a, t = .perform i a → Hashes opens a)
    (hdb : ClearText opens db) :
    ClearText opens ((loop J).run (State.start db) turns).world.db := by
  induction turns using List.reverseRecOn with
  | nil => exact hdb
  | append_singleton turns t ih =>
    have hbefore : ∀ t ∈ turns, ∀ i a, t = .perform i a → Hashes opens a :=
      fun t ht => hturns t (List.mem_append_left _ ht)
    have hclear := ih hbefore
    change ClearText opens (List.foldl (loop J).step (State.start db) (turns ++ [t])).world.db
    rw [List.foldl_append]
    have hheld : Held opens (fun _ _ => True) ((loop J).run (State.start db) turns) :=
      run_held db hbefore fun _ _ _ _ => trivial
    rcases hheld.authorised t with hsame | ⟨i, a, c, -, -, hauthorised⟩
    · change ClearText opens ((loop J).step ((loop J).run (State.start db) turns) t).world.db
      rw [hsame]
      exact hclear
    · exact hauthorised.clearText hclear

/-! ## A registration under an id -/

/-- A hash says what it was made of. -/
def prefixed (data hash : String) : Prop := ∃ salt, hash = salt ++ data

def hashing : Answers plain := { answers 0 with hash := fun data salt => salt ++ data }

/-- Somebody registers with another email and the id of Ann. -/
def overwriteAnn : Call plain.Token :=
  .register { ann.toSignUpDto with
    id := some 1, email := "eve@mail.com", phone_number := .text "222", password := "mine" }

/-- The registration, up to its `save`. -/
def overwriting : List (Turn plain) :=
  .happen overwriteAnn :: List.replicate 6 (.perform 0 hashing)

def opened : Users :=
  (Table.empty User.id).insert ({ ann with password := "salt" ++ "pass" }.toRow 1) rfl

theorem hashing_hashes : Hashes prefixed hashing := fun _ salt => ⟨salt, rfl⟩

theorem overwriting_answered : ∀ t ∈ overwriting, ∀ i a, t = .perform i a → Hashes prefixed a := by
  rintro t ht i a rfl
  obtain h | h := List.mem_cons.mp ht
  · cases h
  · cases List.eq_of_mem_replicate h
    exact hashing_hashes

theorem authorised_overwriting :
    KeepsAuthority prefixed (Had opened overwriting)
      ((loop plain).run (State.start opened) overwriting) (.perform 0 hashing) :=
  changes_authorised opened overwriting (.perform 0 hashing) overwriting_answered

theorem clearText_overwritten :
    ClearText prefixed
      ((loop plain).run (State.start opened) (overwriting ++ [.perform 0 hashing])).world.db := by
  apply clearText_opens
  · intro t ht
    rcases List.mem_append.mp ht with ht | ht
    · exact overwriting_answered t ht
    · rintro i a rfl
      cases List.mem_singleton.mp ht
      exact hashing_hashes
  · intro r hr
    obtain rfl := List.mem_singleton.mp hr
    exact ⟨"salt", rfl⟩

end Exchange.Auth.Authority
