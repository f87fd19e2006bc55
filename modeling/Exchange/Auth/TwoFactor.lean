import Exchange.Auth.Sessions

/-!
# The second factor

A login answers with an access token before any one-time code is asked for, and
the guard asks for no more than the token. So the password alone opens every
guarded endpoint, `2fa/turn-on` among them, which checks the code against a
secret of the same request.

`gated_of_barred`: the second factor holds in the runs in which nobody presents
the access token of such a login, and nobody registers under the id of the account
(`password_is_enough`).
-/

namespace Exchange.Auth

open Async Async.Proc Store Wallets

variable {J : Jwt}

/-- The payload is that of the account, for one of the handlers. -/
def Payload.Names (payload : Payload) (account : User) : Prop :=
  payload.sub = some account.id ∨ payload.uuid = some account.uuid

namespace Event

/-- A guarded request other than `2fa/verify` is let in for the account. -/
def Accepted (z : Event J) (account : User) : Prop :=
  ∃ endpoint token post payload, z.call = .guarded endpoint token post ∧ endpoint ≠ .verify ∧
    J.verify token token_secret z.now = some payload ∧ payload.Names account ∧
    z.reply ≠ .error unauthorized

/-- The access token is issued to the user, who logs in. -/
def Signs (x : Event J) (user : User) (token : J.Token) : Prop :=
  ∃ dto refreshToken, x.call = .login dto ∧ x.reply = .ok (.signedIn token refreshToken user)

end Event

/-- The account is behind its second factor. -/
structure Gated (account : User) (s : State J) : Prop where
  refused : ∀ z ∈ s.events, ¬ z.Accepted account
  unchanged : ∃ r ∈ s.db.rows, r.id = account.id ∧ r.twofa_secret = account.twofa_secret ∧
    r.password = account.password

/-- A token that verifies has been issued: nobody else can sign. -/
def Unforged (s : State J) (req : Answers J × Call J.Token) : Prop :=
  ∀ endpoint token post payload, req.2 = .guarded endpoint token post →
    J.verify token token_secret req.1.now = some payload →
    ∃ x ∈ s.events, (∃ user, x.Signs user token) ∨ ∃ refreshToken, x.Refreshes refreshToken token

/-- No access token that a login to the account was given is presented within its day,
but to `2fa/verify`, and a registration under the id of the account finds a user who
has its email or its phone number. -/
structure Barred (account : User) (s : State J) (req : Answers J × Call J.Token) : Prop where
  presented : ∀ endpoint token post, req.2 = .guarded endpoint token post → endpoint ≠ .verify →
    ∀ x ∈ s.events, ∀ user, x.Signs user token →
      user.id = account.id ∨ user.uuid = account.uuid → x.now + token_expiration ≤ req.1.now
  registered : ∀ dto, req.2 = .register dto → dto.id = some account.id →
    (s.db.taken dto).1.isSome ∨ (s.db.taken dto).2.isSome

/-- Every request of the run meets `ok` in the state in which it is served. -/
def Meets (ok : State J → Answers J × Call J.Token → Prop) :
    State J → List (Answers J × Call J.Token) → Prop
  | _, [] => True
  | s, req :: reqs => ok s req ∧ Meets ok (serve s req) reqs

/-- The induction over a run. -/
theorem Meets.run {ok : State J → Answers J × Call J.Token → Prop} {Inv : State J → Prop}
    (hstep : ∀ s req, Inv s → ok s req → Inv (serve s req)) {s : State J}
    {reqs : List (Answers J × Call J.Token)} (h : Meets ok s reqs) (hs : Inv s) :
    Inv (serveAll s reqs) := by
  induction reqs generalizing s with
  | nil => exact hs
  | cons req reqs ih => exact ih h.2 (hstep s req hs h.1)

theorem Meets.and {ok ok' : State J → Answers J × Call J.Token → Prop} {s : State J}
    {reqs : List (Answers J × Call J.Token)} (h : Meets ok s reqs) (h' : Meets ok' s reqs) :
    Meets (fun s req => ok s req ∧ ok' s req) s reqs := by
  induction reqs generalizing s with
  | nil => trivial
  | cons req reqs ih => exact ⟨⟨h.1, h'.1⟩, ih h.2 h'.2⟩

/-! ## What keeps the account -/

section Kept

variable {account : User}

/-- The row of the account, with its secret and its password. -/
def Users.Keeps (account : User) (db : Users) : Prop :=
  ∃ r ∈ db.rows, r.id = account.id ∧ r.uuid = account.uuid ∧
    r.twofa_secret = account.twofa_secret ∧ r.password = account.password

/-- The data touches neither the secret nor the password. -/
def UserData.Mild : UserData → Prop
  | .logged_in_at _ | .refreshToken _ | .email _ => True
  | .password .. | .twofa _ => False

/-- The row of the account is not selected. -/
def Criteria.Misses (account : User) (c : Criteria) : Prop :=
  ∀ r : User, r.id = account.id → r.uuid = account.uuid → c.selects r = false

/-- A call that keeps the account. -/
def Harmless (account : User) : Op J → Prop
  | .update c data => data.Mild ∨ c.Misses account
  | .save obj => obj.id ≠ some account.id
  | _ => True

theorem UserData.Mild.write {data : UserData} (h : data.Mild) (r : User) :
    (data.write r).twofa_secret = r.twofa_secret ∧ (data.write r).password = r.password := by
  rcases data with _ | _ | _ | (_ | _ | _) | _
  · exact ⟨rfl, rfl⟩
  · exact ⟨rfl, rfl⟩
  · exact h.elim
  · exact ⟨rfl, rfl⟩
  · exact ⟨rfl, rfl⟩
  · exact ⟨rfl, rfl⟩
  · exact h.elim

theorem keeps_update {db db' : Users} {c : Criteria} {data : UserData}
    (h : data.Mild ∨ c.Misses account) (hupdate : db.update c data = some db')
    (hdb : db.Keeps account) : db'.Keeps account := by
  obtain ⟨r, hr, hid, huuid, hsecret, hpassword⟩ := hdb
  refine ⟨_, (Users.mem_update hupdate).mpr ⟨r, hr, rfl⟩, ?_⟩
  split
  · rename_i hselects
    rcases h with hmild | hmisses
    · obtain ⟨hsame, hsame'⟩ := hmild.write r
      exact ⟨by simp [hid], by simp [huuid], by rw [hsame, hsecret], by rw [hsame', hpassword]⟩
    · rw [hmisses r hid huuid] at hselects
      cases hselects
  · exact ⟨hid, huuid, hsecret, hpassword⟩

theorem keeps_perform (a : Answers J) (o : Op J) (db : Users) (ho : Harmless account o)
    (hdb : db.Keeps account) : (Users.perform a o db).2.Keeps account := by
  rcases perform_cases a db o with h | ⟨c, data, rfl, -, h⟩ | ⟨obj, rfl, -, h⟩
  · rw [h]
    exact hdb
  · exact keeps_update ho h hdb
  · obtain ⟨r, hr, hid, hrest⟩ := hdb
    rw [h]
    exact ⟨r, Users.mem_save hr (hid ▸ ho), hid, hrest⟩

/-! ## What the handlers call -/

theorem harmless_signIn (email pass : String) :
    Calls (Harmless account) (AuthService.signIn email pass : Prog J _) := by
  refine Calls.bind (Calls.call trivial) fun user => ?_
  cases user with
  | none => trivial
  | some user =>
    refine Calls.bind (Calls.call trivial) fun isMatch => ?_
    split
    · refine Calls.bind (Calls.call trivial) fun accessToken => ?_
      refine Calls.bind (Calls.call trivial) fun refreshToken => ?_
      refine Calls.bind (Calls.call trivial) fun now => ?_
      refine Calls.bind (Calls.call (.inl trivial)) fun _ => ?_
      refine Calls.bind ?_ fun _ => trivial
      refine Calls.bind (Calls.call trivial) fun salt => ?_
      exact Calls.bind (Calls.call trivial) fun hash => Calls.call (.inl trivial)
    · trivial

theorem harmless_signUp {dto : SignUpDto} (h : dto.id ≠ some account.id) :
    Calls (Harmless account) (AuthController.signUp dto : Prog J _) := by
  refine (signUp_calls dto).mono fun o ho => ?_
  cases o with
  | update c data => exact ho.elim
  | save obj =>
    change obj.id ≠ some account.id
    rw [ho]
    exact h
  | _ => trivial

theorem harmless_changeEmail (post : Post) (user : ReqUser) :
    Calls (Harmless account) (AuthController.changeEmail post user : Prog J _) := by
  refine (changeEmail_calls post user).mono fun o ho => ?_
  cases o with
  | update c data =>
    refine .inl ?_
    rw [ho.2]
    trivial
  | save obj => exact ho.elim
  | _ => trivial

theorem harmless_checkOtp (token secret : Field) :
    Calls (Harmless account) (AuthController.checkOtp token secret : Prog J _) := by
  cases secret with
  | undefined => trivial
  | null => trivial
  | text secret => exact Calls.call trivial

theorem harmless_verify (post : Post) (user : ReqUser) :
    Calls (Harmless account) (AuthController.verifyTwoFaCode post user : Prog J _) := by
  refine Calls.bind (Calls.call trivial) fun userInfo => ?_
  cases userInfo with
  | none => trivial
  | some userInfo =>
    refine Calls.bind (harmless_checkOtp _ _) fun resp => ?_
    split <;> trivial

/-- For another user, whatever the endpoint is. -/
theorem harmless_handle (endpoint : Endpoint) (post : Post) {user : ReqUser}
    (hid : user.userId ≠ some account.id) (huuid : user.uuid ≠ some account.uuid) :
    Calls (Harmless account) (AuthController.handle endpoint post user : Prog J _) := by
  have hmisses : (Criteria.uuid user.uuid).Misses account := by
    intro r _ hr
    exact decide_eq_false (hr ▸ huuid)
  cases endpoint with
  | profile =>
    refine Calls.bind (Calls.call trivial) fun existuser => ?_
    cases existuser <;> trivial
  | changePassword =>
    refine Calls.bind (Calls.call trivial) fun salt => ?_
    split
    · refine Calls.bind (Calls.call trivial) fun hash => ?_
      exact Calls.bind (Calls.call (.inr hmisses)) fun _ => trivial
    · trivial
  | changeEmail => exact harmless_changeEmail post user
  | logOut => exact Calls.bind (Calls.call (.inl trivial)) fun _ => trivial
  | turnOn =>
    refine Calls.bind (harmless_checkOtp _ _) fun verify_resp => ?_
    split
    · split
      · refine Calls.bind (Calls.call (.inr ?_)) fun _ => trivial
        intro r hr _
        exact decide_eq_false (hr ▸ hid)
      · trivial
    · trivial
  | verify => exact harmless_verify post user
  | other => trivial

end Kept

/-! ## Runs -/

/-- The invariant of a run. -/
structure Behind (account : User) (s : State J) : Prop where
  refused : ∀ z ∈ s.events, ¬ z.Accepted account
  served : ∀ z ∈ s.events, z.Served
  keeps : s.db.Keeps account

section Steps

variable {account : User} {s : State J} {req : Answers J × Call J.Token}

/-- The access token of a login is signed for its user. -/
theorem Event.Served.signed {x : Event J} {user : User} {token : J.Token} (h : x.Served)
    (hx : x.Signs user token) :
    token = J.sign ⟨some user.id, some user.uuid⟩ token_secret x.now token_expiration := by
  obtain ⟨dto, refreshToken, hcall, hreply⟩ := hx
  obtain ⟨user', -, hsigned⟩ := h.signedIn hcall hreply
  cases hsigned
  rfl

/-- A refreshed access token is signed for nobody. -/
theorem Event.Served.refreshedSigned {x : Event J} {token refreshToken : J.Token} (h : x.Served)
    (hx : x.Refreshes refreshToken token) :
    token = J.sign ⟨none, none⟩ token_secret x.now token_expiration := by
  have hreply := h.refreshed hx.1
  rw [hx.2] at hreply
  cases hverify : J.verify refreshToken refresh_token_secret x.now with
  | none =>
    rw [hverify] at hreply
    cases hreply
  | some payload =>
    rw [hverify] at hreply
    cases hreply
    rfl

/-- A token that is presented, other than to `2fa/verify`, is not the account's. -/
theorem Behind.not_names (h : Behind account s) (hunforged : Unforged s req)
    (hbarred : Barred account s req) {endpoint : Endpoint} {token : J.Token} {post : Post}
    {payload : Payload} (hcall : req.2 = .guarded endpoint token post) (hend : endpoint ≠ .verify)
    (hverify : J.verify token token_secret req.1.now = some payload) :
    ¬ payload.Names account := by
  obtain ⟨x, hx, ⟨user, hsigns⟩ | ⟨refreshToken, hrefreshes⟩⟩ :=
    hunforged endpoint token post payload hcall hverify
  · rw [(h.served x hx).signed hsigns, J.verify_sign] at hverify
    split at hverify
    · rename_i htime
      cases hverify
      intro hnames
      have huser : user.id = account.id ∨ user.uuid = account.uuid :=
        hnames.imp Option.some.inj Option.some.inj
      exact Nat.not_lt.mpr (hbarred.presented endpoint token post hcall hend x hx user hsigns huser)
        htime.2
    · cases hverify
  · rw [(h.served x hx).refreshedSigned hrefreshes, J.verify_sign] at hverify
    split at hverify
    · cases hverify
      rintro (hsub | huuid)
      · cases hsub
      · cases huuid
    · cases hverify

theorem Behind.serve (h : Behind account s) (hunforged : Unforged s req)
    (hbarred : Barred account s req) : Behind account (serve s req) := by
  refine ⟨forall_mem_snoc h.refused ?_, serve_served h.served req, ?_⟩
  · rintro ⟨endpoint, token, post, payload, hcall, hend, hverify, hnames, -⟩
    exact h.not_names hunforged hbarred hcall hend hverify hnames
  · obtain ⟨a, call⟩ := req
    cases call with
    | login dto => exact (harmless_signIn _ _).run (keeps_perform a) h.keeps
    | register dto =>
      by_cases hid : dto.id = some account.id
      · change Users.Keeps account ((AuthController.signUp dto).run _ s.db).2
        rw [signUp_refused a s.db (hbarred.registered dto rfl hid)]
        exact h.keeps
      · exact (harmless_signUp hid).run (keeps_perform a) h.keeps
    | refresh token =>
      change Users.Keeps account ((AuthController.program (.refresh token)).run _ s.db).2
      rw [refresh_run]
      exact h.keeps
    | guarded endpoint token post =>
      change Users.Keeps account
        ((AuthController.program (.guarded endpoint token post)).run _ s.db).2
      rw [guarded_run]
      cases hverify : J.verify token token_secret a.now with
      | none => exact h.keeps
      | some payload =>
        by_cases hend : endpoint = .verify
        · subst hend
          exact (harmless_verify post _).run (keeps_perform a) h.keeps
        · have hnames := h.not_names hunforged hbarred rfl hend hverify
          have hid : payload.sub ≠ some account.id := fun hsub => hnames (.inl hsub)
          have huuid : payload.uuid ≠ some account.uuid := fun hsub => hnames (.inr hsub)
          exact (harmless_handle endpoint post hid huuid).run (keeps_perform a) h.keeps

end Steps

/-- **The second factor is a gate**, in every state of a run in which nobody presents
the access token of a login to the account, or registers under its id. -/
theorem gated_of_barred (db : Users) (account : User) (reqs : List (Answers J × Call J.Token))
    (haccount : account ∈ db.rows ∧ account.is_two_fa_enabled = .YES)
    (hunforged : Meets Unforged (State.start db) reqs)
    (hbarred : Meets (Barred account) (State.start db) reqs) :
    Gated account (serveAll (State.start db) reqs) := by
  have hstep : ∀ (s : State J) req, Behind account s → Unforged s req ∧ Barred account s req →
      Behind account (serve s req) :=
    fun s req hs hok => hs.serve hok.1 hok.2
  have hstart : Behind account (State.start db : State J) := by
    refine ⟨fun z hz => ?_, fun z hz => ?_, account, haccount.1, rfl, rfl, rfl, rfl⟩
    · cases hz
    · cases hz
  have hbehind := (hunforged.and hbarred).run hstep hstart
  obtain ⟨r, hr, hid, -, hrest⟩ := hbehind.keeps
  exact ⟨hbehind.refused, r, hr, hid, hrest⟩

/-! ## A password and nothing else -/

/-- The access token of Ann, signed at time 0. -/
def annToken : plain.Token :=
  plain.sign ⟨some 1, some "u-1"⟩ token_secret 0 token_expiration

/-- Ann logs in, and her code is wrong. -/
def wrongCode : List (Answers plain × Call plain.Token) :=
  [(answers 0, annSignsIn), (answers 60, .guarded .verify annToken ⟨.null, .null, .null, .null⟩)]

theorem gated_wrongCode : Gated (ann.toRow 1) (serveAll (State.start onlyAnn) wrongCode) := by
  apply gated_of_barred _ _ _ ⟨List.mem_singleton.mpr rfl, rfl⟩
  · refine ⟨?_, ?_, trivial⟩
    · rintro endpoint token post payload ⟨⟩
    · rintro endpoint token post payload ⟨⟩ -
      exact ⟨_, List.mem_singleton.mpr rfl, .inl ⟨ann.toRow 1, _, _, rfl, rfl⟩⟩
  · refine ⟨⟨?_, ?_⟩, ⟨?_, ?_⟩, trivial⟩
    · rintro endpoint token post ⟨⟩
    · rintro dto ⟨⟩
    · rintro endpoint token post ⟨⟩ hend
      exact absurd rfl hend
    · rintro dto ⟨⟩

/-- The client passes no check against the secret of the account. -/
def NeverPasses (account : User) (reqs : List (Answers J × Call J.Token)) : Prop :=
  ∀ req ∈ reqs, ∀ otp secret, account.twofa_secret = some secret → req.1.checkOtp otp secret = false

/-- Somebody who has the password of Ann logs in and changes it. -/
def newPassword : List (Answers plain × Call plain.Token) :=
  [(answers 0, annSignsIn),
    (answers 60, .guarded .changePassword annToken ⟨.null, .text "new", .null, .null⟩)]

theorem password_is_enough :
    (ann.toRow 1 ∈ onlyAnn.rows ∧ (ann.toRow 1).is_two_fa_enabled = .YES) ∧
      NeverPasses (ann.toRow 1) newPassword ∧
      ¬ Gated (ann.toRow 1) (serveAll (State.start onlyAnn) newPassword) := by
  refine ⟨⟨List.mem_singleton.mpr rfl, rfl⟩, ?_, fun h => ?_⟩
  · intro req hreq otp secret _
    rcases List.mem_cons.mp hreq with rfl | hreq
    · rfl
    · obtain rfl := List.mem_singleton.mp hreq
      rfl
  · refine h.refused _ (List.mem_cons_of_mem _ (List.mem_singleton.mpr rfl)) ?_
    refine ⟨.changePassword, annToken, _, ⟨some 1, some "u-1"⟩, rfl, by decide, by decide,
      .inl rfl, ?_⟩
    rintro ⟨⟩

end Exchange.Auth
