import Screego.Access
import Screego.Lib.Ip
import Screego.Lib.Simulation
import Screego.Origins
import Screego.UsersFile

/-!
# Logins

The sessions of `auth/auth.go`, the routes of `router/router.go` that use them, and `Rooms.Upgrade`: from a
password to a room.

* `CookieStore`: the package that signs cookies, by what is promised of it;
* `currentUser`, `logout`, `authenticate`: the handlers; `StreamRequest`, `upgrade`;
* `Site`, `Site.step`, `site`: the main loop with the routes in front of it;
* `Unforged`: no cookie is presented that the server has not set;
* `SiteOk`: where the connections come from;
* **`rooms_go_back_to_a_login`**: who has a room that needs a login, or a TURN user name, is backed by one.
-/

set_option autoImplicit false

namespace Screego

open Lib Outgoing

/-- A Go string as the text of a log line. -/
def logText (s : GoString) : String :=
  String.ofList (s.map fun
    | .char c => c
    | .stray _ => '\uFFFD')

/-! ## Sessions -/

/-- **`sessions.CookieStore`**, with its secret. All that a session holds is the name of a user, if that. -/
structure CookieStore where
  Cookie : Type
  /-- `Save`, at a time: the cookie it sets. -/
  save : (user : Option GoString) → (now : ℕ) → Except String Cookie
  /-- `Get`, at a time, unless the cookie is rejected. -/
  get : (cookie : Cookie) → (now : ℕ) → Option (Option GoString)
  /-- For how long a cookie is accepted. -/
  maxAge : ℕ
  get_save : ∀ user t c now, save user t = .ok c → t ≤ now → now ≤ t + maxAge → get c now = some user
  eq_of_get : ∀ user t c now user', save user t = .ok c → get c now = some user' → user' = user

/-- **`Users`**, with the session store. -/
structure Auth.Accounts where
  users : Users
  bcrypt : Bcrypt
  store : CookieStore
  sessionTimeout : ℤ

/-- What the handlers answer: the status, the cookie that is set with its `MaxAge`, and the message. -/
structure Auth.Answer (A : Accounts) where
  status : ℕ
  setCookie : Option (A.store.Cookie × ℤ)
  message : Option String

namespace Auth.Accounts

variable (A : Accounts)

/-- `Users.CurrentUser`, of the cookie of the request. -/
def currentUser (cookie : Option A.store.Cookie) (now : ℕ) : GoString × Bool :=
  match cookie.bind fun c => A.store.get c now with
  | some (some user) => (user, true)
  | _ => (goString "guest", false)

/-- `Users.Logout`. The new session has no user; nothing is done about the old one. -/
def logout (now : ℕ) : Answer A :=
  match A.store.save none now with
  | .error err => ⟨500, none, some err⟩
  | .ok c => ⟨200, some (c, 0), none⟩

/-- `Users.Authenticate`, of the form values. -/
def authenticate (user pass : GoString) (now : ℕ) : Answer A :=
  if A.users.validate A.bcrypt user pass then
    match A.store.save (some user) now with
    | .error err => ⟨500, none, some err⟩
    | .ok c => ⟨200, some (c, A.sessionTimeout), some "authenticated"⟩
  else ⟨401, none, some "could not authenticate"⟩

end Auth.Accounts

/-! ## Connections -/

/-- A request for `/stream`. -/
structure StreamRequest (A : Auth.Accounts) where
  cookie : Option A.store.Cookie
  origin : GoString
  host : GoString
  /-- The `X-Real-IP` header. -/
  realIP : String
  remoteAddr : IP

/-- The settings that the routes read. -/
structure SiteConfig where
  corsAllowedOrigins : List GoString
  trustProxyHeaders : Bool

section Site

variable (env : Env) (lib : Packages) (A : Auth.Accounts) (conf : SiteConfig)

/-- The address that `newClient` notes. -/
def StreamRequest.addr (req : StreamRequest A) : IP :=
  if conf.trustProxyHeaders && req.realIP ≠ "" then (parseIP req.realIP).getD [] else req.remoteAddr

/-- **`Rooms.Upgrade`**, of a request that asks for a WebSocket: the connection that reaches the main loop,
if the origin is accepted. -/
def upgrade (req : StreamRequest A) (now : ℕ) : Option Input :=
  if lib.checks conf.corsAllowedOrigins req.origin req.host = some true then
    let (user, loggedIn) := A.currentUser req.cookie now
    some (.upgrade (req.addr A conf) (logText user) loggedIn)
  else none

/-- **The server with its routes.** -/
structure Site where
  world : World
  /-- The cookies it has set: kept for the statements. -/
  cookies : List A.store.Cookie
  /-- The names and passwords it has accepted: kept for the statements. -/
  logins : List (GoString × GoString)

/-- What reaches the server. -/
inductive Visit where
  | login (user pass : GoString) (now : ℕ)
  | logout (now : ℕ)
  | stream (ch : Choice) (req : StreamRequest A) (now : ℕ)
  | receive (ch : Choice) (c : XID) (e : Event) (fromClient : e.fromClient = true)
  | count (ch : Choice)

variable {A} in
/-- The message that reaches the main loop. -/
def Visit.input : Visit A → Option (Choice × Input)
  | login _ _ _ => none
  | logout _ => none
  | stream ch req now => (upgrade lib A conf req now).map fun i => (ch, i)
  | receive ch c e he => some (ch, .receive c e he)
  | count ch => some (ch, .count)

namespace Site

def init : Site A := ⟨World.init env, [], []⟩

variable {A}

/-- The site after an answer. -/
def answered (s : Site A) (a : Auth.Answer A) : Site A :=
  { s with cookies := s.cookies ++ (a.setCookie.map Prod.fst).toList }

/-- **One request, or one message of the main loop.** -/
def step (s : Site A) (v : Visit A) : Option (Site A) :=
  match v with
  | .login user pass now =>
    let a := A.authenticate user pass now
    some { s.answered a with logins := if a.status = 200 then s.logins ++ [(user, pass)] else s.logins }
  | .logout now => some (s.answered (A.logout now))
  | v =>
    match v.input lib conf with
    | none => some s
    | some i => (s.world.step env i).map fun w => { s with world := w }

end Site

/-- **The server with its routes**, as a machine. -/
def site : Machine (Site A) (Visit A) where
  init := Site.init env A
  step := Site.step env lib conf

end Site

variable {env : Env} {lib : Packages} {A : Auth.Accounts} {conf : SiteConfig} {s s' : Site A} {v : Visit A}

/-! ## The main loop in it -/

/-- What a request or a message does to the main loop. -/
theorem world_of_step (hs : s.step env lib conf v = some s') :
    (v.input lib conf = none ∧ s'.world = s.world) ∨
      ∃ i, v.input lib conf = some i ∧ s.world.step env i = some s'.world ∧ s'.cookies = s.cookies ∧
        s'.logins = s.logins := by
  have hloop : ∀ {v : Visit A}, (match v.input lib conf with
      | none => some s
      | some i => (s.world.step env i).map fun w => { s with world := w }) = some s' →
      (v.input lib conf = none ∧ s'.world = s.world) ∨
        ∃ i, v.input lib conf = some i ∧ s.world.step env i = some s'.world ∧ s'.cookies = s.cookies ∧
          s'.logins = s.logins := by
    intro v hs
    cases hi : v.input lib conf with
    | none =>
      rw [hi] at hs
      obtain rfl := Option.some.inj hs
      exact Or.inl ⟨rfl, rfl⟩
    | some i =>
      rw [hi] at hs
      obtain ⟨w, hw, rfl⟩ := Option.map_eq_some_iff.mp hs
      exact Or.inr ⟨i, rfl, hw, rfl, rfl⟩
  cases v with
  | login user pass now =>
    obtain rfl := Option.some.inj hs
    exact Or.inl ⟨rfl, rfl⟩
  | logout now =>
    obtain rfl := Option.some.inj hs
    exact Or.inl ⟨rfl, rfl⟩
  | stream => exact hloop hs
  | receive => exact hloop hs
  | count => exact hloop hs

/-- **The main loop runs inside the site.** -/
theorem component_loop : (server env).Component (site env lib A conf) Site.world
    fun _ v => (v.input lib conf).toList where
  init := rfl
  step s v s' w _ hw hs _ := by
    subst hw
    rcases world_of_step hs with ⟨hi, hw⟩ | ⟨i, hi, hw, -⟩
    · exact ⟨_, by rw [hi]; rfl, hw⟩
    · refine ⟨_, ?_, rfl⟩
      rw [hi]
      exact (Machine.runFrom_singleton _ _).trans hw

/-! ## What the handlers do -/

theorem Auth.Accounts.authenticate_cases (user pass : GoString) (now : ℕ) :
    (∃ c, A.authenticate user pass now = ⟨200, some (c, A.sessionTimeout), some "authenticated"⟩ ∧
        A.users.validate A.bcrypt user pass = true ∧ A.store.save (some user) now = .ok c) ∨
      ((A.authenticate user pass now).status ≠ 200 ∧ (A.authenticate user pass now).setCookie = none) := by
  unfold Auth.Accounts.authenticate
  split_ifs with hvalid
  · split
    · exact Or.inr ⟨(by decide : 500 ≠ 200), rfl⟩
    case h_2 c hc => exact Or.inl ⟨c, rfl, hvalid, hc⟩
  · exact Or.inr ⟨(by decide : 401 ≠ 200), rfl⟩

theorem Auth.Accounts.logout_cases (now : ℕ) :
    (∃ c, A.store.save none now = .ok c ∧ (A.logout now).setCookie = some (c, 0)) ∨
      (A.logout now).setCookie = none := by
  unfold Auth.Accounts.logout
  split
  · exact Or.inr rfl
  case h_2 c hc => exact Or.inl ⟨c, hc, rfl⟩

/-- Who is logged in has a cookie that says so. -/
theorem Auth.Accounts.currentUser_eq_true {cookie : Option A.store.Cookie} {now : ℕ} {user : GoString}
    (h : A.currentUser cookie now = (user, true)) :
    ∃ c, cookie = some c ∧ A.store.get c now = some (some user) := by
  unfold Auth.Accounts.currentUser at h
  split at h
  case h_1 name hname =>
    obtain ⟨c, hc, hget⟩ := Option.bind_eq_some_iff.mp hname
    exact ⟨c, hc, hget.trans (congrArg (some ∘ some) (Prod.mk.inj h).1)⟩
  · exact absurd (Prod.mk.inj h).2 Bool.false_ne_true

/-- A connection that is let in. -/
theorem upgrade_eq_some {req : StreamRequest A} {now : ℕ} {i : Input}
    (h : upgrade lib A conf req now = some i) :
    lib.checks conf.corsAllowedOrigins req.origin req.host = some true ∧
      i = .upgrade (req.addr A conf) (logText (A.currentUser req.cookie now).1)
        (A.currentUser req.cookie now).2 := by
  unfold upgrade at h
  split_ifs at h with horigin
  exact ⟨horigin, (Option.some.inj h).symm⟩

/-! ## Where the connections come from -/

/-- **No cookie is forged**: one that is accepted has been set by the server. -/
def Unforged (s : Site A) (v : Visit A) : Prop :=
  ∀ ch req now c, v = .stream ch req now → req.cookie = some c → A.store.get c now ≠ none →
    c ∈ s.cookies

/-- **The cookies and the connections go back to logins.** -/
structure SiteOk (s : Site A) : Prop where
  valid : ∀ p ∈ s.logins, A.users.validate A.bcrypt p.1 p.2 = true
  cookie : ∀ c ∈ s.cookies, ∃ user now, A.store.save user now = .ok c ∧
    ∀ name, user = some name → ∃ pass, (name, pass) ∈ s.logins
  client : ∀ c info, s.world.clients.lookup c = some info → info.authenticated = true →
    ∃ p ∈ s.logins, info.authenticatedUser = logText p.1

theorem SiteOk.login (h : SiteOk s) (user pass : GoString) (now : ℕ)
    (hs : s.step env lib conf (.login user pass now) = some s') : SiteOk s' := by
  obtain rfl := Option.some.inj hs
  rcases Auth.Accounts.authenticate_cases (A := A) user pass now with
    ⟨c, ha, hvalid, hsave⟩ | ⟨hstatus, hcookie⟩
  · have hgrow : ∀ {q : GoString × GoString}, q ∈ s.logins → q ∈ s.logins ++ [(user, pass)] :=
      fun hq => List.mem_append_left _ hq
    simp only [ha, if_true, Site.answered, Option.map_some, Option.toList_some]
    refine ⟨fun p hp => ?_, fun c' hc' => ?_, fun c' info hinfo hyes => ?_⟩
    · rcases List.mem_append.mp hp with hp | hp
      · exact h.valid p hp
      · obtain rfl := List.mem_singleton.mp hp
        exact hvalid
    · rcases List.mem_append.mp hc' with hc' | hc'
      · obtain ⟨user', now', hsave', hname⟩ := h.cookie c' hc'
        exact ⟨user', now', hsave', fun name e => (hname name e).imp fun _ => hgrow⟩
      · obtain rfl := List.mem_singleton.mp hc'
        refine ⟨some user, now, hsave, fun name e => ⟨pass, List.mem_append_right _ ?_⟩⟩
        obtain rfl := Option.some.inj e
        exact List.mem_singleton_self _
    · obtain ⟨p, hp, huser⟩ := h.client c' info hinfo hyes
      exact ⟨p, hgrow hp, huser⟩
  · simp only [if_neg hstatus, Site.answered, hcookie, Option.map_none, Option.toList_none,
      List.append_nil]
    exact h

theorem SiteOk.logout (h : SiteOk s) (now : ℕ)
    (hs : s.step env lib conf (.logout now) = some s') : SiteOk s' := by
  obtain rfl := Option.some.inj hs
  rcases Auth.Accounts.logout_cases (A := A) now with ⟨c, hsave, hcookie⟩ | hcookie
  · simp only [Site.answered, hcookie, Option.map_some, Option.toList_some]
    refine ⟨h.valid, fun c' hc' => ?_, h.client⟩
    rcases List.mem_append.mp hc' with hc' | hc'
    · exact h.cookie c' hc'
    · obtain rfl := List.mem_singleton.mp hc'
      exact ⟨none, now, hsave, fun _ e => nomatch e⟩
  · simp only [Site.answered, hcookie, Option.map_none, Option.toList_none, List.append_nil]
    exact h

/-- A connection that says it is logged in comes with a cookie of a login. -/
theorem SiteOk.of_currentUser (h : SiteOk s) {ch : Choice} {req : StreamRequest A} {now : ℕ}
    (hun : Unforged s (.stream ch req now)) (hyes : (A.currentUser req.cookie now).2 = true) :
    ∃ p ∈ s.logins, (A.currentUser req.cookie now).1 = p.1 := by
  obtain ⟨c, hc, hget⟩ := Auth.Accounts.currentUser_eq_true (Prod.ext rfl hyes)
  have hmem := hun ch req now c rfl hc (by rw [hget]; exact Option.some_ne_none _)
  obtain ⟨user, t, hsave, hname⟩ := h.cookie c hmem
  have huser := A.store.eq_of_get user t c now _ hsave hget
  obtain ⟨pass, hp⟩ := hname _ huser.symm
  exact ⟨_, hp, rfl⟩

/-- The connections after a message of the main loop: a new one, and those that were there. -/
theorem World.Ok.clients_of_step {w w' : World} {ch : Choice} {i : Input} {c : XID} {info : ClientInfo}
    (h : w.Ok env) (hs : w.step env (ch, i) = some w') (hc : w'.clients.lookup c = some info) :
    w.clients.lookup c = some info ∨
      i = .upgrade info.addr info.authenticatedUser info.authenticated := by
  cases h.change_of_step hs with
  | upgrade addr user authenticated =>
    rcases GoMap.lookup_insert_eq_some.mp hc with ⟨rfl, rfl⟩ | ⟨-, hc⟩
    · exact Or.inr rfl
    · exact Or.inl hc
  | stranger | message | count => exact Or.inl hc

/-- **One step keeps it**, if no cookie is forged. -/
theorem SiteOk.step (h : SiteOk s) (hok : s.world.Ok env) (hun : Unforged s v)
    (hs : s.step env lib conf v = some s') : SiteOk s' := by
  -- a message of the main loop
  have hloop : ∀ ch i, s.world.step env (ch, i) = some s'.world → s'.cookies = s.cookies →
      s'.logins = s.logins → (∀ addr user, i = .upgrade addr user true →
        ∃ p ∈ s.logins, user = logText p.1) → SiteOk s' := by
    intro ch i hw hcookies hlogins hnew
    refine ⟨hlogins ▸ h.valid, fun c hc => ?_, fun c info hinfo hyes => ?_⟩
    · rw [hlogins]
      exact h.cookie c (hcookies ▸ hc)
    · rw [hlogins]
      rcases hok.clients_of_step hw hinfo with hold | hi
      · exact h.client c info hold hyes
      · exact hnew _ _ (hyes ▸ hi)
  cases v with
  | login user pass now => exact h.login user pass now hs
  | logout now => exact h.logout now hs
  | stream ch req now =>
    cases hi : upgrade lib A conf req now with
    | none =>
      simp only [Site.step, Visit.input, hi, Option.map_none, Option.some.injEq] at hs
      exact hs ▸ h
    | some i =>
      rcases world_of_step hs with ⟨hnone, -⟩ | ⟨_, hi', hw, hcookies, hlogins⟩
      · simp [Visit.input, hi] at hnone
      · simp only [Visit.input, hi, Option.map_some, Option.some.injEq] at hi'
        subst hi'
        refine hloop ch i hw hcookies hlogins fun addr user e => ?_
        obtain ⟨-, rfl⟩ := upgrade_eq_some hi
        simp only [Input.upgrade.injEq] at e
        obtain ⟨p, hp, hname⟩ := h.of_currentUser hun e.2.2
        exact ⟨p, hp, by rw [← hname, e.2.1]⟩
  | receive ch c e he =>
    rcases world_of_step hs with ⟨hnone, -⟩ | ⟨_, hi, hw, hcookies, hlogins⟩
    · cases hnone
    · obtain rfl := Option.some.inj hi
      exact hloop ch _ hw hcookies hlogins fun _ _ e => nomatch e
  | count ch =>
    rcases world_of_step hs with ⟨hnone, -⟩ | ⟨_, hi, hw, hcookies, hlogins⟩
    · cases hnone
    · obtain rfl := Option.some.inj hi
      exact hloop ch _ hw hcookies hlogins fun _ _ e => nomatch e

variable {is : List (Visit A)}

theorem site_world : (site env lib A conf).Safe fun s => s.world.Ok env :=
  component_loop.safe (server_ok env)

/-- **Every run in which no cookie is forged.** -/
theorem site_ok (hm : (site env lib A conf).Meets Unforged is)
    (hs : (site env lib A conf).run is = some s) : SiteOk s := by
  refine Machine.Safe.of_meets site_world ?_ (fun _ _ _ hok h hun hs => h.step hok hun hs) hm hs
  exact ⟨fun _ h => (List.not_mem_nil h).elim, fun _ h => (List.not_mem_nil h).elim,
    fun _ _ h => nomatch h⟩

/-! ## Rooms that need a login -/

/-- The mode needs a login: every mode does in auth mode `all`, and TURN in auth mode `turn`. -/
def NeedsLogin (env : Env) (mode : ConnectionMode) : Prop :=
  env.config.authMode = Config.authModeAll ∨
    (env.config.authMode = Config.authModeTurn ∧ mode = connectionTURN)

/-- A user name that the TURN server admits is one of a session of a TURN room. -/
theorem Inv.admitted {t : Rooms} {name : String} (h : Inv env t)
    (hname : (t.turnServer.authenticate name).isSome = true) :
    ∃ R r, t.rooms.lookup R = some r ∧ r.mode = connectionTURN ∧ ∃ sid, sid ∈ r.sessions ∧
      UsernameOf env sid name := by
  cases hext : env.config.turnExternal with
  | false => exact (h.granted hext name).mp hname
  | true =>
    have hi := h.internal
    cases ht : t.turnServer with
    | internal lookup => simp [ht, Turn.Server.isInternal, hext] at hi
    | external => simp [ht, Turn.Server.authenticate] at hname

/-- A room of such a mode is there. -/
def Site.Guarded (env : Env) (R : String) (s : Site A) : Prop :=
  ∃ r, s.world.rooms.rooms.lookup R = some r ∧ NeedsLogin env r.mode

/-- **A client backed by a login opens the room**: its connection is logged in, and the name and password
are valid and have been given to the server. -/
def OpensByLogin (R : String) (s : Site A) (v : Visit A) : Prop :=
  ∃ ch c q he info p, v = .receive ch c (.create q) he ∧ s.world.clients.lookup c = some info ∧
    normalizeRoomID q.id = .ok R ∧ R ∉ s.world.rooms.rooms ∧ info.authenticated = true ∧ p ∈ s.logins ∧
    info.authenticatedUser = logText p.1 ∧ A.users.validate A.bcrypt p.1 p.2 = true

/-- **A guarded room after a message** was one before, or a logged-in client has asked for it. -/
theorem RoomStep.needsLogin {ch : Choice} {t : Rooms} {info : ClientInfo} {e : Event} {R : String}
    {r' : Screego.Room} (hstep : RoomStep env ch t info e R r') (hneeds : NeedsLogin env r'.mode) :
    (∃ r, t.rooms.lookup R = some r ∧ NeedsLogin env r.mode) ∨
      (info.authenticated = true ∧ R ∉ t.rooms ∧ ∃ q, e = .create q ∧ normalizeRoomID q.id = .ok R) := by
  cases hr : t.rooms.lookup R with
  | some r => exact Or.inl ⟨r, rfl, hstep.mode_eq hr ▸ hneeds⟩
  | none =>
    have hnone : ∀ {r₀}, t.rooms.lookup R ≠ some r₀ := fun h => by rw [hr] at h; cases h
    cases hstep with
    | same hr' => exact absurd hr' hnone
    | @created q he hc hR hnew ha hr' =>
      subst hr'
      refine Or.inr ⟨?_, hnew, q, he, hR⟩
      rcases hneeds with hall | ⟨hturn, hmode⟩
      · exact authenticated_of_all hall ha
      · exact authenticated_of_turn hturn hmode ha
    | joined hc he hr' => exact absurd hr' hnone
    | flagged hin => exact absurd hin.room hnone
    | left hin => exact absurd hin.room hnone

/-- A message of a connection is no request. -/
theorem Visit.eq_receive {ch : Choice} {c : XID} {e : Event} {he : e.fromClient = true}
    (h : v.input lib conf = some (ch, .receive c e he)) : v = .receive ch c e he := by
  cases v with
  | login | logout => cases h
  | stream ch' req now =>
    obtain ⟨i, hi, heq⟩ := Option.map_eq_some_iff.mp h
    obtain ⟨-, rfl⟩ := upgrade_eq_some hi
    cases heq
  | receive => cases h; rfl
  | count => cases h

/-- One step to a guarded room. -/
theorem Site.Guarded.of_step {R : String} (h : SiteOk s) (hok : s.world.Ok env)
    (hs : s.step env lib conf v = some s') (hg : s'.Guarded env R) :
    s.Guarded env R ∨ OpensByLogin R s v := by
  obtain ⟨r', hr', hneeds⟩ := hg
  rcases world_of_step hs with ⟨-, hw⟩ | ⟨⟨ch, i⟩, hi, hw, -⟩
  · rw [hw] at hr'
    exact Or.inl ⟨r', hr', hneeds⟩
  generalize s'.world = w at hw hr'
  cases hok.change_of_step hw with
  | upgrade | stranger | count => exact Or.inl ⟨r', hr', hneeds⟩
  | @message c info e he t sent hinfo hch =>
    obtain ⟨rfl, -⟩ := hok.info c info hinfo
    obtain rfl := Visit.eq_receive hi
    rcases (hch.roomStep hr').needsLogin hneeds with hold | ⟨hyes, hnew, q, rfl, hR⟩
    · exact Or.inl hold
    · obtain ⟨p, hp, hname⟩ := h.client info.id info hinfo hyes
      exact Or.inr ⟨ch, info.id, q, he, info, p, rfl, hinfo, hR, hnew, hyes, hp, hname, h.valid p hp⟩

/-- **Rooms go back to a login.** In a run in which no cookie is forged, every room whose mode needs a
login was opened by a logged-in client that is backed by a valid name and password, and is there since; and
in the auth modes `all` and `turn`, so is the room of every user name that the TURN server admits. -/
theorem rooms_go_back_to_a_login (env : Env) (lib : Packages) (A : Auth.Accounts) (conf : SiteConfig)
    {is : List (Visit A)} (hm : (site env lib A conf).Meets Unforged is) {s : Site A}
    (hs : (site env lib A conf).run is = some s) :
    (∀ R, s.Guarded env R → (site env lib A conf).Began (OpensByLogin R) (Site.Guarded env R) is) ∧
      (env.config.authMode = Config.authModeAll ∨ env.config.authMode = Config.authModeTurn →
        ∀ name, (s.world.rooms.turnServer.authenticate name).isSome = true →
          ∃ R r sid, s.world.rooms.rooms.lookup R = some r ∧ sid ∈ r.sessions ∧ UsernameOf env sid name ∧
            (site env lib A conf).Began (OpensByLogin R) (Site.Guarded env R) is) := by
  have hrooms : ∀ R, s.Guarded env R →
      (site env lib A conf).Began (OpensByLogin R) (Site.Guarded env R) is := by
    intro R hR
    refine Machine.Began.of_meets (fun is s hm hs => And.intro (site_ok hm hs) (site_world is s hs)) ?_
      (fun s v s' h hst hg => Site.Guarded.of_step h.1 h.2 hst hg) hm hs hR
    rintro ⟨r, hr, -⟩
    cases hr
  refine ⟨hrooms, fun hmode name hname => ?_⟩
  have hok := site_world _ _ hs
  obtain ⟨R, r, hr, hturn, sid, hsid, husername⟩ := hok.inv.admitted hname
  refine ⟨R, r, sid, hr, hsid, husername, hrooms R ⟨r, hr, ?_⟩⟩
  exact hmode.imp id fun h => ⟨h, hturn⟩

/-! ## A run -/

/-- Cookies that hold their user and the time they were set. -/
def plainCookies : CookieStore where
  Cookie := Option GoString × ℕ
  save user now := .ok (user, now)
  get c now := if c.2 ≤ now ∧ now ≤ c.2 + 2592000 then some c.1 else none
  maxAge := 2592000
  get_save user t c now h hle hage := by
    cases h
    exact if_pos ⟨hle, hage⟩
  eq_of_get user t c now user' h hget := by
    cases h
    split_ifs at hget
    exact (Option.some.inj hget).symm

/-- One account, of which the password is known. -/
def opsAccount : Auth.Accounts where
  users := ⟨(∅ : GoMap GoString GoString).insert (goString "ops") (goString knownHash)⟩
  bcrypt := onePassword
  store := plainCookies
  sessionTimeout := 0

/-- The request of a browser that has logged in. -/
def opsRequest : StreamRequest opsAccount where
  cookie := some (some (goString "ops"), 1)
  origin := []
  host := []
  realIP := ""
  remoteAddr := [10, 0, 0, 2]

/-- A server whose TURN rooms need a login. -/
def turnServer : Env := Env.counting ⟨Config.authModeTurn, "3478", false⟩

/-- A user logs in and opens a TURN room. -/
def loginAndCreate : List (Visit opsAccount) :=
  [.login (goString "ops") (goString "abc123xyz") 1, .stream Choice.plain opsRequest 2,
    .receive Choice.plain ⟨0⟩ (.create ⟨"room", connectionTURN, false, "", "a", false⟩) rfl]

def opsSite : Machine (Site opsAccount) (Visit opsAccount) :=
  site turnServer simplePackages opsAccount ⟨[], false⟩

theorem unforged_loginAndCreate : opsSite.Meets Unforged loginAndCreate := by
  rintro pre v post s his hs ch req now c rfl hc -
  -- the one request for a connection is the second
  match pre, his, hs with
  | [], his, _ => exact nomatch (List.cons.inj his).1
  | [_], his, hs =>
    simp only [loginAndCreate, List.cons_append, List.nil_append, List.cons.injEq] at his
    obtain ⟨rfl, hreq, -⟩ := his
    cases hreq
    cases hc
    obtain rfl := Option.some.inj hs
    have hvalid : opsAccount.users.validate opsAccount.bcrypt (goString "ops") (goString "abc123xyz") =
        true := by decide +kernel
    show _ ∈ [] ++ ((opsAccount.authenticate (goString "ops") (goString "abc123xyz") 1).setCookie.map
      Prod.fst).toList
    rw [Auth.Accounts.authenticate, if_pos hvalid]
    exact List.mem_singleton_self _
  | [_, _], his, _ =>
    simp [loginAndCreate] at his
  | _ :: _ :: _ :: pre, his, _ =>
    have hlen := congrArg List.length his
    simp [loginAndCreate] at hlen

theorem rooms_go_back_to_a_login_loginAndCreate : ∃ s, opsSite.run loginAndCreate = some s ∧
    s.Guarded turnServer "room" ∧
    opsSite.Began (OpensByLogin "room") (Site.Guarded turnServer "room") loginAndCreate := by
  have hrun : (opsSite.run loginAndCreate).bind (fun s =>
      (s.world.rooms.rooms.lookup "room").map Screego.Room.mode) = some connectionTURN := by
    decide +kernel
  obtain ⟨s, hs, hroom⟩ := Option.bind_eq_some_iff.mp hrun
  obtain ⟨r, hr, hmode⟩ := Option.map_eq_some_iff.mp hroom
  have hguarded : s.Guarded turnServer "room" := ⟨r, hr, Or.inr ⟨rfl, hmode⟩⟩
  exact ⟨s, hs, hguarded, (rooms_go_back_to_a_login turnServer simplePackages opsAccount ⟨[], false⟩
    unforged_loginAndCreate hs).1 "room" hguarded⟩

end Screego
