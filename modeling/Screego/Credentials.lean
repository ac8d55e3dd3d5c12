import Screego.Protocol

/-!
# TURN credentials and their sessions

The main loop with the internal TURN server.

* `Rooms.ServesTURN`: a session of a TURN room;
* `Change.authenticate`: what one message does to the answer for one user name;
* `Credentials`: the two sides of a session were told the passwords it is admitted with;
* **`CredentialsLive`**, **`credentials_live_as_sessions`**.
-/

set_option autoImplicit false

namespace Screego

open Lib Outgoing

variable {env : Env} {ch : Choice} {s t : Rooms} {info : ClientInfo} {e : Event} {sent : List Send}
  {w w' : World} {i : Input} {c sid : XID} {x : RoomSession} {name : String}

/-- The session `sid` is the session `x` of a TURN room. -/
def Rooms.ServesTURN (s : Rooms) (sid : XID) (x : RoomSession) : Prop :=
  ∃ R r, s.rooms.lookup R = some r ∧ r.mode = connectionTURN ∧ r.sessions.lookup sid = some x

theorem Rooms.ServesTURN.serves (hx : s.ServesTURN sid x) : s.Serves sid x := by
  obtain ⟨R, r, hr, -, hx⟩ := hx
  exact ⟨R, r, hr, hx⟩

theorem Rooms.ServesTURN.admits (hx : s.ServesTURN sid x) (hn : UsernameOf env sid name) :
    s.Admits env name := by
  obtain ⟨R, r, hr, hm, hx⟩ := hx
  exact ⟨R, r, hr, hm, sid, Finmap.mem_of_lookup_eq_some hx, hn⟩

/-- A user name admitted for a session is admitted for this session in a TURN room. -/
theorem Rooms.servesTURN_of_admits (ha : s.Admits env name)
    (hn : UsernameOf env sid name) : ∃ x, s.ServesTURN sid x := by
  obtain ⟨R, r, hr, hm, sid', hmem, hn'⟩ := ha
  obtain rfl := hn.unique hn'
  obtain ⟨x, hx⟩ := Finmap.mem_iff.mp hmem
  exact ⟨x, R, r, hr, hm, hx⟩

/-! ## The table of the TURN server -/

/-- The table of the internal TURN server is the one of a server so configured. -/
theorem Inv.turnExternal_eq (h : Inv env s) {lookup : GoMap String Turn.Entry}
    (ht : s.turnServer = .internal lookup) : env.config.turnExternal = false := by
  have hi := h.internal
  rw [ht] at hi
  simpa [Turn.Server.isInternal] using hi.symm

/-- **The names in the table of the internal TURN server** are those of the sessions of TURN rooms. -/
theorem Inv.mem_lookup (h : Inv env s) {lookup : GoMap String Turn.Entry}
    (ht : s.turnServer = .internal lookup) (name : String) : name ∈ lookup ↔ s.Admits env name := by
  rw [← h.granted (h.turnExternal_eq ht) name, ht, Turn.Server.authenticate, Option.isSome_map,
    Finmap.lookup_isSome]

/-! ## One message -/

/-- A user name whose password is set by a message that begins its session. -/
def Fresh (env : Env) (s : Rooms) (name : String) : Prop :=
  ∃ sid, ¬ env.Drawn s.drawn sid ∧ UsernameOf env sid name

/-- What can become of the answer for a user name: nothing, it goes, or it is new. -/
def Answers (env : Env) (ch : Choice) (s : Rooms) (turn : Turn.Server) (name : String) : Prop :=
  turn.authenticate name = s.turnServer.authenticate name ∨ turn.authenticate name = none ∨
    (turn.authenticate name = some (keyOf env ch name) ∧ Fresh env s name)

theorem answers_opened (h : Inv env s) (hext : env.config.turnExternal = false)
    (mode : ConnectionMode) (users : GoMap XID User) (ps : List RoomSession) (name : String) :
    Answers env ch s ((newEntries env s.drawn ps).foldl (grantSession env ch mode users) s.turnServer)
      name := by
  have hi : s.turnServer.isInternal = true := by rw [h.internal, hext, Bool.not_false]
  rw [Answers, authenticate_grants mode users _ hi name]
  split_ifs with hA
  · obtain ⟨a, ha, -, hn⟩ := hA
    exact Or.inr (Or.inr ⟨rfl, a.1, not_drawn_of_mem_newEntries ha, hn⟩)
  · exact Or.inl rfl

theorem answers_closed (env : Env) (ch : Choice) (s : Rooms) (mode : ConnectionMode)
    (ids : List XID) (name : String) :
    Answers env ch s (ids.foldl (revokeSession env mode) s.turnServer) name := by
  rw [Answers, authenticate_revokes]
  split_ifs
  · exact Or.inr (Or.inl rfl)
  · exact Or.inl rfl

/-- **What one message does to the answer for a user name.** -/
theorem Change.authenticate (h : Inv env s) (hext : env.config.turnExternal = false)
    (hch : Change env ch s info e t sent) (name : String) : Answers env ch s t.turnServer name := by
  cases hch with
  | skip | name | stale | relay | bounce => exact Or.inl rfl
  | create => exact Or.inl rfl
  | join hc he hr hget hr' hA =>
    subst hA
    exact answers_opened h hext _ _ _ _
  | share hc hu hget hr' hA =>
    subst hA
    exact answers_opened h hext _ _ _ _
  | unshare => exact answers_closed env ch s _ _ _
  | depart d hd =>
    cases hd with
    | idle => exact Or.inl rfl
    | stays => exact answers_closed env ch s _ _ _
    | closes =>
      rw [Rooms.finished, ← List.foldl_append]
      exact answers_closed env ch s _ _ _

/-! ## The passwords -/

/-- **The sides of a session were told the passwords it is admitted with.** -/
def Credentials (env : Env) (w : World) (sid : XID) (x : RoomSession) : Prop :=
  ∃ urls hostPW clientPW,
    w.sends.filter (Send.Announces sid) =
      [.write ⟨x.host⟩ (.hostSession ⟨sid, x.client, [⟨urls, hostPW, hostUsername env sid⟩]⟩),
        .write ⟨x.client⟩
          (.clientSession ⟨sid, x.host, [⟨urls, clientPW, clientUsername env sid⟩]⟩)] ∧
    w.rooms.turnServer.authenticate (hostUsername env sid) =
      some (env.generateAuthKey (hostUsername env sid) Turn.realm hostPW) ∧
    w.rooms.turnServer.authenticate (clientUsername env sid) =
      some (env.generateAuthKey (clientUsername env sid) Turn.realm clientPW)

/-- The announcements of a new session in a TURN room, for the internal TURN server. -/
theorem announce_turn (v4 v6 : Option IP) {turn : Turn.Server} (ht : turn.isInternal = true)
    (a : XID × RoomSession) :
    announce env ch v4 v6 connectionTURN turn a =
      [.write ⟨a.2.host⟩ (.hostSession ⟨a.1, a.2.client, [⟨addresses env "turn" v4 v6 true,
          Turn.randString (ch.draw (hostUsername env a.1)) 20, hostUsername env a.1⟩]⟩),
        .write ⟨a.2.client⟩ (.clientSession ⟨a.1, a.2.host, [⟨addresses env "turn" v4 v6 true,
          Turn.randString (ch.draw (clientUsername env a.1)) 20, clientUsername env a.1⟩]⟩)] := by
  have hTL : connectionTURN ≠ connectionLocal := by decide
  have hTS : connectionTURN ≠ connectionSTUN := by decide
  cases turn with
  | external => exact absurd ht Bool.false_ne_true
  | internal lookup =>
    simp only [announce, iceFor, if_neg hTL, if_neg hTS, if_true]
    rfl

section Message

variable (h : Inv env s) (ht : Inv env t) (hext : env.config.turnExternal = false)
  (hans : Answers env ch s t.turnServer name)

include h ht hext hans

/-- The name of a session that is new is admitted with its new key. -/
theorem Answers.eq_keyOf (hx : t.ServesTURN sid x) (hnew : ¬ env.Drawn s.drawn sid)
    (hn : UsernameOf env sid name) :
    t.turnServer.authenticate name = some (keyOf env ch name) := by
  have hsome := (ht.granted hext name).mpr (hx.admits hn)
  rcases hans with hsame | hnone | ⟨hkey, -⟩
  · rw [hsame, h.granted hext name] at hsome
    obtain ⟨y, hy⟩ := Rooms.servesTURN_of_admits hsome hn
    exact absurd (h.serves_drawn hy.serves) hnew
  · rw [hnone] at hsome
    cases hsome
  · exact hkey

/-- The name of a session that goes on is admitted as before, and it was one of a TURN room. -/
theorem Answers.eq_of_serves (hx : t.ServesTURN sid x) (hold : s.Serves sid x)
    (hn : UsernameOf env sid name) :
    t.turnServer.authenticate name = s.turnServer.authenticate name ∧ s.ServesTURN sid x := by
  have hsome := (ht.granted hext name).mpr (hx.admits hn)
  rcases hans with hsame | hnone | ⟨-, sid', hnew, hn'⟩
  · rw [hsame, h.granted hext name] at hsome
    obtain ⟨y, hy⟩ := Rooms.servesTURN_of_admits hsome hn
    exact ⟨hsame, h.serves_unique hold hy.serves ▸ hy⟩
  · rw [hnone] at hsome
    cases hsome
  · exact absurd (hn.unique hn' ▸ h.serves_drawn hold) hnew

end Message

/-- Every session of a TURN room has its credentials. -/
def CredentialsOk (env : Env) (w : World) : Prop :=
  ∀ sid x, w.rooms.ServesTURN sid x → Credentials env w sid x

theorem CredentialsOk.message (h : w.Ok env) (hs : StoryOk env w) (hcr : CredentialsOk env w)
    (hext : env.config.turnExternal = false) (hc : w.clients.lookup c = some info)
    (hch : Screego.Change env ch w.rooms info e t sent) :
    CredentialsOk env (w.after [.got c e] (t, sent)) := by
  obtain ⟨rfl, hw⟩ := h.info c info hc
  have ht : Inv env t := h.inv.change hw hch
  obtain ⟨A, L, heff⟩ := hch.effect h.inv
  have hans := hch.authenticate h.inv hext
  intro sid x hx
  change t.ServesTURN sid x at hx
  have hhost : UsernameOf env sid (hostUsername env sid) := Or.inl rfl
  have hclient : UsernameOf env sid (clientUsername env sid) := Or.inr rfl
  rw [Credentials, sends_after, List.filter_append]
  rcases (heff.serves sid x).mp hx.serves with ⟨hold, -⟩ | hA
  · obtain ⟨hkh, hx'⟩ := (hans _).eq_of_serves h.inv ht hext hx hold hhost
    obtain ⟨hkc, -⟩ := (hans _).eq_of_serves h.inv ht hext hx hold hclient
    obtain ⟨urls, pw, pw', hf, hauth, hauth'⟩ := hcr sid x hx'
    refine ⟨urls, pw, pw', ?_, hkh.trans hauth, hkc.trans hauth'⟩
    rw [heff.filter_eq_nil h.inv hold, List.append_nil, hf]
  · have hnew := (heff.new _ hA).1
    have hkh := (hans _).eq_keyOf h.inv ht hext hx hnew hhost
    have hkc := (hans _).eq_keyOf h.inv ht hext hx hnew hclient
    obtain ⟨R, r, v4, v6, hr, hxr, hf⟩ := heff.begun _ hA
    have hmode : r.mode = connectionTURN := by
      obtain ⟨R', r', hr', hm, hx'⟩ := hx
      obtain rfl := ht.apart R R' r r' sid hr hr' (Finmap.mem_of_lookup_eq_some hxr)
        (Finmap.mem_of_lookup_eq_some hx')
      rw [hr] at hr'
      cases hr'
      exact hm
    have hnone : w.sends.filter (Send.Announces sid) = [] :=
      List.filter_eq_nil_iff.mpr fun y hy => by
        rw [decide_eq_true_eq]
        exact hs.fresh sid hnew y hy
    have hint : w.rooms.turnServer.isInternal = true := by
      rw [h.inv.internal, hext, Bool.not_false]
    rw [hnone, hf, hmode, announce_turn v4 v6 hint]
    exact ⟨_, _, _, rfl, hkh, hkc⟩

theorem CredentialsOk.change (h : w.Ok env) (hs : StoryOk env w) (hcr : CredentialsOk env w)
    (hext : env.config.turnExternal = false) (hch : w.Change env ch i w') :
    CredentialsOk env w' := by
  cases hch with
  | upgrade | stranger => exact hcr
  | message hc hch => exact hcr.message h hs hext hc hch
  | count =>
    intro sid x hx
    obtain ⟨urls, pw, pw', hf, hauth, hauth'⟩ := hcr sid x hx
    refine ⟨urls, pw, pw', ?_, hauth, hauth'⟩
    rw [sends_count, List.filter_append, hf]
    rfl

/-! ## Every run -/

/-- **The TURN server, with the table `lookup`, admits exactly the users of live sessions**, with the
passwords their sides were told. -/
structure CredentialsLive (env : Env) (w : World) (lookup : GoMap String Turn.Entry) : Prop where
  table : ∀ name, name ∈ lookup ↔
    ∃ R r, w.rooms.rooms.lookup R = some r ∧ r.mode = connectionTURN ∧ ∃ sid, sid ∈ r.sessions ∧
      (name = env.xidString sid ++ "host" ∨ name = env.xidString sid ++ "client")
  admits : ∀ name, (w.rooms.turnServer.authenticate name).isSome = true ↔
    ∃ R r, w.rooms.rooms.lookup R = some r ∧ r.mode = connectionTURN ∧ ∃ sid, sid ∈ r.sessions ∧
      (name = env.xidString sid ++ "host" ∨ name = env.xidString sid ++ "client")
  keys : ∀ R r sid x, w.rooms.rooms.lookup R = some r → r.mode = connectionTURN →
    r.sessions.lookup sid = some x → Credentials env w sid x

/-- The credentials in every state of a run. -/
theorem server_credentialsOk (env : Env) : (server env).Always fun w =>
    (w.Ok env ∧ LogOk w ∧ StoryOk env w) ∧
      (env.config.turnExternal = false → CredentialsOk env w) :=
  server_story_always (fun _ _ _ hx => absurd hx.serves not_serves_init)
    fun _ _ _ _ h hs hcr hch hext => (hcr hext).change h hs hext hch

/-- **TURN credentials live as long as their session.** -/
theorem credentials_live_as_sessions (env : Env) : (server env).Always fun w =>
    w.rooms.turnServer.isInternal = !env.config.turnExternal ∧
      ∀ lookup, w.rooms.turnServer = .internal lookup → CredentialsLive env w lookup := by
  refine (server_credentialsOk env).mono fun w hw => ⟨hw.1.1.inv.internal, fun lookup ht => ?_⟩
  obtain ⟨⟨h, -⟩, hcr⟩ := hw
  have hext := h.inv.turnExternal_eq ht
  exact ⟨h.inv.mem_lookup ht, h.inv.granted hext,
    fun R r sid x hr hm hx => hcr hext sid x ⟨R, r, hr, hm, hx⟩⟩

end Screego
