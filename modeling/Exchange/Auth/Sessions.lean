import Exchange.Auth.Service

/-!
# Refresh tokens

A refresh token is verified and nothing else: whose it is, whether its user has
logged out and whether another one has replaced it is not looked at, and the
access token that it gives is signed for nobody.

`sessionsSound_iff`: sessions are sound in the runs in which no refresh token is
presented in its time, and in no others (`refreshed_for_nobody`).
-/

namespace Exchange.Auth

open Async Store Wallets

variable {J : Jwt}

namespace Event

/-- The refresh token is issued to the user, who logs in. -/
def Issues (x : Event J) (user : User) (token : J.Token) : Prop :=
  ∃ dto accessToken, x.call = .login dto ∧ x.reply = .ok (.signedIn accessToken token user)

/-- The access token is obtained by presenting the refresh token. -/
def Refreshes (z : Event J) (token accessToken : J.Token) : Prop :=
  z.call = .refresh token ∧ z.reply = .ok (.accessToken accessToken)

/-- The user logs out, whatever the answer is. -/
def LogsOut (y : Event J) (user : User) : Prop :=
  ∃ token post payload, y.call = .guarded .logOut token post ∧
    J.verify token token_secret y.now = some payload ∧ payload.sub = some user.id

/-- The user logs in, and another refresh token is issued. -/
def Replaces (y : Event J) (user : User) (token : J.Token) : Prop :=
  ∃ user' token', y.Issues user' token' ∧ user'.id = user.id ∧ token' ≠ token

end Event

/-- Identity and revocation, for the requests in their order. -/
structure SessionsSound (events : List (Event J)) : Prop where
  identity : ∀ x z, [x, z].Sublist events → ∀ user token accessToken, x.Issues user token →
    z.Refreshes token accessToken →
    J.verify accessToken token_secret z.now = some ⟨some user.id, some user.uuid⟩
  revoked : ∀ x y z, [x, y, z].Sublist events → ∀ user token, x.Issues user token →
    y.LogsOut user ∨ y.Replaces user token → ∀ accessToken, ¬ z.Refreshes token accessToken

/-- No refresh token is presented before its time is over. -/
def PresentedLate (events : List (Event J)) : Prop :=
  ∀ x z, [x, z].Sublist events → ∀ user token, x.Issues user token → z.call = .refresh token →
    x.now + refresh_token_expiration ≤ z.now

/-- The request was answered by the service. -/
def Event.Served (z : Event J) : Prop :=
  ∃ a : Answers J, z.now = a.now ∧
    z.reply = ((AuthController.program z.call).run (Users.perform a) z.before).1

section Served

variable {x z : Event J} {user : User} {token accessToken : J.Token}

theorem serve_served {s : State J} (h : ∀ z ∈ s.events, z.Served)
    (req : Answers J × Call J.Token) : ∀ z ∈ (serve s req).events, z.Served :=
  forall_mem_snoc h ⟨req.1, rfl, rfl⟩

theorem serveAll_served {s : State J} (h : ∀ z ∈ s.events, z.Served)
    (reqs : List (Answers J × Call J.Token)) : ∀ z ∈ (serveAll s reqs).events, z.Served := by
  induction reqs generalizing s with
  | nil => exact h
  | cons req reqs ih => exact ih (serve_served h req)

/-- What a login is answered. -/
theorem Event.Served.signedIn {dto : SignInDto} {reply : Reply J.Token} (h : x.Served)
    (hcall : x.call = .login dto) (hreply : x.reply = .ok reply) :
    ∃ user, x.before.findOne { email := some dto.email } = some user ∧
      reply = signedIn J x.now user := by
  obtain ⟨a, hnow, hserved⟩ := h
  rw [hnow]
  apply signIn_spec a x.before dto.email dto.password reply
  rw [← hreply, hserved, hcall]
  rfl

/-- What an issued token is. -/
theorem Event.Served.issued (h : x.Served) (hx : x.Issues user token) :
    token = J.sign ⟨some user.id, some user.uuid⟩ refresh_token_secret x.now
      refresh_token_expiration := by
  obtain ⟨dto, accessToken, hcall, hreply⟩ := hx
  obtain ⟨user', -, hsigned⟩ := h.signedIn hcall hreply
  cases hsigned
  rfl

/-- What a token gives. -/
theorem Event.Served.refreshed (h : z.Served) (hcall : z.call = .refresh token) :
    z.reply = (J.verify token refresh_token_secret z.now).elim (.error unauthorized) fun _ =>
      .ok (.accessToken (J.sign ⟨none, none⟩ token_secret z.now token_expiration)) := by
  obtain ⟨a, hnow, hreply⟩ := h
  rw [hreply, hcall, refresh_run, hnow]

/-- A token that gives an access token is presented in its time. -/
theorem Event.Served.inTime (hx : x.Served) (hz : z.Served) (hissues : x.Issues user token)
    (hrefreshes : z.Refreshes token accessToken) : z.now < x.now + refresh_token_expiration := by
  obtain ⟨hcall, hreply⟩ := hrefreshes
  rw [hz.refreshed hcall, hx.issued hissues, J.verify_sign] at hreply
  split at hreply
  · rename_i htime
    exact htime.2
  · cases hreply

/-- A token that is presented in its time gives an access token for nobody. -/
theorem Event.Served.forNobody (hx : x.Served) (hz : z.Served) (hissues : x.Issues user token)
    (hcall : z.call = .refresh token) (htime : z.now < x.now + refresh_token_expiration) :
    ∃ accessToken, z.Refreshes token accessToken ∧
      J.verify accessToken token_secret z.now = some ⟨none, none⟩ := by
  refine ⟨J.sign ⟨none, none⟩ token_secret z.now token_expiration, ⟨hcall, ?_⟩, ?_⟩
  · rw [hz.refreshed hcall, hx.issued hissues, J.verify_sign, if_pos ⟨rfl, htime⟩]
    rfl
  · rw [J.verify_sign, if_pos]
    refine ⟨rfl, ?_⟩
    unfold token_expiration
    omega

end Served

/-- **Session identity and revocation** hold in exactly the runs in which no refresh
token is presented before its time is over. -/
theorem sessionsSound_iff (db : Users) (reqs : List (Answers J × Call J.Token)) :
    SessionsSound (serveAll (State.start db) reqs).events ↔
      PresentedLate (serveAll (State.start db) reqs).events := by
  have hserved : ∀ z ∈ (serveAll (State.start db) reqs).events, z.Served := by
    apply serveAll_served
    intro z hz
    cases hz
  constructor
  · intro h x z hxz user token hissues hcall
    by_contra hlate
    have hx := hserved x (hxz.subset (by simp))
    have hz := hserved z (hxz.subset (by simp))
    obtain ⟨accessToken, hrefreshes, hnobody⟩ :=
      hx.forNobody hz hissues hcall (Nat.lt_of_not_le hlate)
    have hidentity := h.identity x z hxz user token accessToken hissues hrefreshes
    rw [hnobody] at hidentity
    cases hidentity
  · intro h
    have hnone : ∀ x z, [x, z].Sublist (serveAll (State.start db) reqs).events →
        ∀ user token accessToken, x.Issues user token → ¬ z.Refreshes token accessToken := by
      intro x z hxz user token accessToken hissues hrefreshes
      have hx := hserved x (hxz.subset (by simp))
      have hz := hserved z (hxz.subset (by simp))
      have htime := hx.inTime hz hissues hrefreshes
      exact absurd htime (Nat.not_lt.mpr (h x z hxz user token hissues hrefreshes.1))
    refine ⟨?_, ?_⟩
    · intro x z hxz user token accessToken hissues hrefreshes
      exact absurd hrefreshes (hnone x z hxz user token accessToken hissues)
    · intro x y z hxyz user token hissues _ accessToken
      refine hnone x z (List.Sublist.trans ?_ hxyz) user token accessToken hissues
      exact .cons_cons x (.cons y (List.Sublist.refl _))

/-! ## A token that is refreshed -/

/-- Tokens that say what was signed. -/
def plain : Jwt where
  Token := (Payload × String) × Nat
  text := fun _ => ""
  sign := fun payload secret iat expiresIn => ((payload, secret), iat + expiresIn)
  verify := fun token secret now =>
    if secret = token.1.2 ∧ now < token.2 then some token.1.1 else none
  verify_sign := by
    intro payload secret iat expiresIn secret' now
    rfl

/-- The libraries, when every password is right. -/
def answers (now : Nat) : Answers plain :=
  ⟨now, true, fun _ _ => true, "salt", fun _ _ => "hash", "u-2", fun _ _ => false, fun _ => false⟩

/-- A user of the start. -/
def ann : NewUser where
  id := none
  email := "ann@mail.com"
  name := "Ann"
  referral_id := .undefined
  password := "hash"
  phone_number := .text "111"
  refreshToken := .undefined
  twofa_secret := .text "SECRET"
  status := none
  email_verified := none
  is_two_fa_enabled := some .YES
  id_verified := none
  spot_wallet := none
  fund_wallet := none
  ip_address := .undefined
  logged_in_at := none
  uuid := "u-1"
  zasper_id := "pass"

def onlyAnn : Users := (Table.empty User.id).insert (ann.toRow 1) rfl

def annSignsIn : Call plain.Token := .login ⟨"ann@mail.com", "pass"⟩

/-- The refresh token of Ann, signed at time 0. -/
def annRefreshes : Call plain.Token :=
  .refresh (plain.sign ⟨some 1, some "u-1"⟩ refresh_token_secret 0 refresh_token_expiration)

def loginAndRefresh : List (Answers plain × Call plain.Token) :=
  [(answers 0, annSignsIn), (answers 60, annRefreshes)]

theorem refreshed_for_nobody :
    ¬ SessionsSound (serveAll (State.start onlyAnn) loginAndRefresh).events := by
  intro h
  have hidentity := h.identity _ _ (List.Sublist.refl _) (ann.toRow 1) _ _ ⟨_, _, rfl, rfl⟩
    ⟨rfl, rfl⟩
  exact absurd hidentity (by decide)

end Exchange.Auth
