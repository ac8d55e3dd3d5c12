import Screego.Effect
import Screego.RoomStep
import Screego.Xid

/-!
# Who may enter, and who gets TURN credentials

The auth modes `all` and `turn`, along the runs of the main loop.

* `AllLoggedIn`: the users of all rooms are logged in; `LetsIn`: a client that is not logged in asks
  to join a room; **`login_is_required_iff`**: in auth mode `all`, the first holds throughout a run
  if and only if the second never happens;
* `strangerJoins`: a run in which it happens;
* `OpenedByUser`: a TURN room that goes back to a request of a logged-in client;
* **`turn_needs_login`**: in auth mode `turn`, all TURN rooms and all credentials go back to one.
-/

set_option autoImplicit false

namespace Screego

open Lib Outgoing

variable {env : Env} {ch : Choice} {s t : Rooms} {info : ClientInfo} {e : Event} {sent : List Send}
  {w w' : World} {i : Input} {c : XID} {R : String} {r r' : Screego.Room}

/-! ## Login for everything -/

/-- The connection `c` is logged in. -/
def World.LoggedIn (w : World) (c : XID) : Prop :=
  ∃ info, w.clients.lookup c = some info ∧ info.authenticated = true

/-- **Every user of every room is logged in.** -/
def AllLoggedIn (w : World) : Prop :=
  ∀ R r c, w.rooms.rooms.lookup R = some r → c ∈ r.users → w.LoggedIn c

/-- **A connection that is not logged in asks to join a room** that exists, and the server knows
an address. -/
def LetsIn (w : World) (i : Choice × Input) : Prop :=
  ∃ c e he info R v, i.2 = .receive c e he ∧ w.clients.lookup c = some info ∧
    info.authenticated = false ∧ w.rooms.connected.lookup c = some "" ∧ e.Joins R v ∧
    R ∈ w.rooms.rooms ∧ ∃ ips, i.1.get = .ok ips

/-- A new connection changes nothing about the others. -/
theorem World.Ok.lookup_upgrade (h : w.Ok env) (hc : c ∈ w.clients) (info : ClientInfo) :
    Finmap.lookup c (w.clients.insert (env.xidNew w.rooms.drawn) info) = w.clients.lookup c := by
  refine Finmap.lookup_insert_of_ne _ ?_
  rintro rfl
  have := Env.drawn_xidNew.mp (h.drawn _ hc)
  omega

/-- In auth mode `all` only a logged-in client creates a room. -/
theorem authenticated_of_all (hall : env.config.authMode = Config.authModeAll) {q : Create}
    (ha : q.authError env info = none) : info.authenticated = true := by
  have hne : Config.authModeAll ≠ Config.authModeNone := by decide
  simp only [Create.authError, hall, if_neg hne, if_true] at ha
  by_contra hno
  rw [if_neg hno] at ha
  cases ha

/-- **Who is in a room after a message**: who was there before, a client whose request to create it
was granted, or one that joined it. -/
theorem RoomStep.mem_users (h : Inv env s) (hstep : RoomStep env ch s info e R r')
    (hc : c ∈ r'.users) : (∃ r, s.rooms.lookup R = some r ∧ c ∈ r.users) ∨
      (c = info.id ∧ ∃ q : Create, q.authError env info = none) ∨
      (c = info.id ∧ s.connected.lookup info.id = some "" ∧ ∃ v, e.Joins R v ∧ R ∈ s.rooms ∧
        ∃ ips, ch.get = .ok ips) := by
  cases hstep with
  | same hr => exact Or.inl ⟨r', hr, hc⟩
  | created he hidle hR hnew ha hr' =>
    subst hr'
    refine Or.inr (Or.inl ⟨?_, _, ha⟩)
    simpa [createRoom, Finmap.notMem_empty] using hc
  | @joined r v hidle he hr hget hlike husers =>
    rw [husers] at hc
    rcases (mem_put r _ c).mp hc with rfl | hc
    · exact Or.inr (Or.inr ⟨rfl, hidle, v, he, Finmap.mem_of_lookup_eq_some hr, hget⟩)
    · exact Or.inl ⟨r, hr, hc⟩
  | @flagged r u b hin hu hlike husers =>
    have hid := ((h.room R r hin.room).user _ _ hu).1
    rw [husers] at hc
    exact Or.inl ⟨r, hin.room,
      (h.member_put (u := { u with streaming := b }) hin hid c).mp hc⟩
  | @left r u hin hu hcl hlike husers =>
    rw [husers] at hc
    exact Or.inl ⟨r, hin.room, ((mem_without r _ c).mp hc).2⟩

/-- **One input**: everybody stays logged in exactly when nobody else is let in. -/
theorem AllLoggedIn.change_iff (hall : env.config.authMode = Config.authModeAll) (h : w.Ok env)
    (hlog : AllLoggedIn w) (hs : w.step env (ch, i) = some w') (hch : w.Change env ch i w') :
    AllLoggedIn w' ↔ ¬ LetsIn w (ch, i) := by
  constructor
  · rintro hlog' ⟨c, e, he, info, R, v, hi, hinfo, hno, hidle, hjoins, hR, ips, hget⟩
    obtain rfl : i = .receive c e he := hi
    obtain ⟨rfl, hw⟩ := h.info c info hinfo
    obtain ⟨r, hr⟩ := Finmap.mem_iff.mp hR
    obtain ⟨sent, hhandle⟩ := handle_joins h.inv hw hidle hjoins hr hget
    simp only [World.step, hinfo, hhandle, Option.map_some, Option.some.injEq] at hs
    subst hs
    obtain ⟨info', hinfo', hyes⟩ := hlog' R _ info.id (Finmap.lookup_insert _)
      ((mem_put r (joinUser env ch info r v) info.id).mpr (Or.inl rfl))
    rw [show w.clients.lookup info.id = some info' from hinfo'] at hinfo
    cases hinfo
    rw [hno] at hyes
    cases hyes
  · intro hno
    cases hch with
    | upgrade addr user authenticated =>
      intro R r c hr hc
      obtain ⟨info, hinfo, hyes⟩ := hlog R r c hr hc
      refine ⟨info, ?_, hyes⟩
      rw [h.lookup_upgrade (Finmap.mem_of_lookup_eq_some hinfo), hinfo]
    | stranger | count => exact hlog
    | @message c info e he s sent hinfo hch =>
      intro R r' c' hr' hc'
      obtain ⟨rfl, hw⟩ := h.info c info hinfo
      rcases (hch.roomStep hr').mem_users h.inv hc' with
        ⟨r, hr, hc⟩ | ⟨rfl, q, ha⟩ | ⟨rfl, hidle, v, hjoins, hR, hget⟩
      · exact hlog R r c' hr hc
      · exact ⟨info, hinfo, authenticated_of_all hall ha⟩
      · refine ⟨info, hinfo, ?_⟩
        by_contra hfalse
        exact hno ⟨info.id, e, he, info, R, v, rfl, hinfo, by simpa using hfalse, hidle, hjoins,
          hR, hget⟩

/-- **Login for all access.** In auth mode `all`, every user of every room is logged in throughout
a run if and only if no connection that is not logged in joins a room in it. -/
theorem login_is_required_iff (env : Env) (hall : env.config.authMode = Config.authModeAll)
    (is : List (Choice × Input)) : (server env).Throughout AllLoggedIn is ↔
      (server env).Meets (fun w i => ¬ LetsIn w i) is := by
  refine Machine.meets_iff (server_ok env) (fun R r c hr => ?_) ?_ is
  · simp [server, World.init, newRooms] at hr
  · rintro w ⟨ch, i⟩ w' h hlog hs
    exact hlog.change_iff hall h hs (h.change_of_step hs)

/-- A server on which login is required. -/
def loginServer : Env := Env.counting ⟨Config.authModeAll, "3478", false⟩

/-- A logged-in client creates a room, and one that is not logged in joins it. -/
def strangerJoins : List (Choice × Input) :=
  [.upgrade [] "user" true,
    .create ⟨0⟩ ⟨"room", connectionLocal, false, "", "a", false⟩,
    .upgrade [] "" false, .join ⟨1⟩ ⟨"room", "", "b"⟩].map
    fun i => (Choice.plain, i)

theorem login_is_required_iff_strangerJoins :
    (server loginServer).Throughout AllLoggedIn strangerJoins ↔
      (server loginServer).Meets (fun w i => ¬ LetsIn w i) strangerJoins :=
  login_is_required_iff loginServer rfl strangerJoins

/-- **A client that is not logged in enters a room** in auth mode `all`. -/
theorem stranger_enters_room : loginServer.config.authMode = Config.authModeAll ∧ ∃ w r info,
    (server loginServer).run strangerJoins = some w ∧ w.rooms.rooms.lookup "room" = some r ∧
      ⟨1⟩ ∈ r.users ∧ w.clients.lookup ⟨1⟩ = some info ∧ info.authenticated = false ∧
      ¬ AllLoggedIn w := by
  have hrun : ((server loginServer).run strangerJoins).bind (fun w =>
      (w.rooms.rooms.lookup "room").bind fun r => (w.clients.lookup ⟨1⟩).map fun info =>
        (decide (⟨1⟩ ∈ r.users), info.authenticated)) = some (true, false) := by
    decide +kernel
  obtain ⟨w, hw, hrun⟩ := Option.bind_eq_some_iff.mp hrun
  obtain ⟨r, hr, hrun⟩ := Option.bind_eq_some_iff.mp hrun
  obtain ⟨info, hinfo, hrun⟩ := Option.map_eq_some_iff.mp hrun
  simp only [Prod.mk.injEq, decide_eq_true_eq] at hrun
  obtain ⟨hmem, hno⟩ := hrun
  refine ⟨rfl, w, r, info, hw, hr, hmem, hinfo, hno, fun hlog => ?_⟩
  obtain ⟨info', hinfo', hyes⟩ := hlog "room" r ⟨1⟩ hr hmem
  rw [hinfo] at hinfo'
  cases hinfo'
  rw [hno] at hyes
  cases hyes

/-! ## Login for TURN -/

/-- The room is there and uses TURN. -/
def World.HasTURN (w : World) (R : String) : Prop :=
  ∃ r, w.rooms.rooms.lookup R = some r ∧ r.mode = connectionTURN

/-- A logged-in client, in no room, asks for the new TURN room. -/
def OpensTURN (R : String) (w : World) (i : Choice × Input) : Prop :=
  ∃ c q he info, i.2 = .receive c (.create q) he ∧ w.clients.lookup c = some info ∧
    info.authenticated = true ∧ w.rooms.connected.lookup c = some "" ∧
    normalizeRoomID q.id = .ok R ∧ R ∉ w.rooms.rooms ∧ q.mode = connectionTURN

/-- **The room goes back to a logged-in client**: such a request was made in the run, and the room
is a TURN room since. -/
def OpenedByUser (env : Env) (is : List (Choice × Input)) (R : String) : Prop :=
  (server env).Began (OpensTURN R) (World.HasTURN · R) is

/-- In auth mode `turn` only a logged-in client creates a TURN room. -/
theorem authenticated_of_turn (hturn : env.config.authMode = Config.authModeTurn) {q : Create}
    (hq : q.mode = connectionTURN) (ha : q.authError env info = none) :
    info.authenticated = true := by
  have hnone : Config.authModeTurn ≠ Config.authModeNone := by decide
  have hall : Config.authModeTurn ≠ Config.authModeAll := by decide
  have hstun : connectionTURN ≠ connectionSTUN := by decide
  have hlocal : connectionTURN ≠ connectionLocal := by decide
  by_contra hno
  simp [Create.authError, hturn, hnone, hall, hq, hstun, hlocal, hno] at ha

/-- **The mode of a room stays.** -/
theorem RoomStep.mode_eq (hstep : RoomStep env ch s info e R r')
    (hr : s.rooms.lookup R = some r) : r'.mode = r.mode := by
  have hsame : ∀ {r₀ : Screego.Room}, s.rooms.lookup R = some r₀ → r'.Like r₀ →
      r'.mode = r.mode := by
    intro r₀ hr₀ hlike
    rw [hr] at hr₀
    cases hr₀
    exact hlike.mode
  cases hstep with
  | same hr' => exact hsame hr' ⟨rfl, rfl, rfl⟩
  | created he hc hR hnew => exact absurd (Finmap.mem_of_lookup_eq_some hr) hnew
  | joined hc he hr' hget hlike => exact hsame hr' hlike
  | flagged hin hu hlike => exact hsame hin.room hlike
  | left hin hu hcl hlike => exact hsame hin.room hlike

/-- **A TURN room after a message** was one before, or a logged-in client has asked for it. -/
theorem RoomStep.turn (hturn : env.config.authMode = Config.authModeTurn)
    (hstep : RoomStep env ch s info e R r') (hm : r'.mode = connectionTURN) :
    (∃ r, s.rooms.lookup R = some r ∧ r.mode = connectionTURN) ∨
      (info.authenticated = true ∧ s.connected.lookup info.id = some "" ∧ R ∉ s.rooms ∧
        ∃ q, e = .create q ∧ normalizeRoomID q.id = .ok R ∧ q.mode = connectionTURN) := by
  cases hr : s.rooms.lookup R with
  | some r => exact Or.inl ⟨r, rfl, (hstep.mode_eq hr).symm.trans hm⟩
  | none =>
    have hnone : ∀ {r₀}, s.rooms.lookup R ≠ some r₀ := fun h => by rw [hr] at h; cases h
    cases hstep with
    | same hr' => exact absurd hr' hnone
    | @created q he hc hR hnew ha hr' =>
      subst hr'
      exact Or.inr ⟨authenticated_of_turn hturn hm ha, hc, hnew, q, he, hR, hm⟩
    | joined hc he hr' => exact absurd hr' hnone
    | flagged hin => exact absurd hin.room hnone
    | left hin => exact absurd hin.room hnone

/-- **Every TURN room goes back to a logged-in client.** -/
theorem openedByUser (hturn : env.config.authMode = Config.authModeTurn)
    {is : List (Choice × Input)} (hrun : (server env).run is = some w) (hR : w.HasTURN R) :
    OpenedByUser env is R := by
  refine (server_ok env).began (fun hinit => ?_) ?_ hrun hR
  · obtain ⟨r, hr, -⟩ := hinit
    simp [server, World.init, newRooms] at hr
  rintro w ⟨ch, i⟩ w' h hs ⟨r', hr', hm⟩
  cases h.change_of_step hs with
  | upgrade | stranger | count => exact Or.inl ⟨r', hr', hm⟩
  | @message c info e he s sent hinfo hch =>
    obtain ⟨rfl, -⟩ := h.info c info hinfo
    rcases (hch.roomStep hr').turn hturn hm with hold | ⟨hyes, hidle, hnew, q, rfl, hq, hqm⟩
    · exact Or.inl hold
    · exact Or.inr ⟨info.id, q, he, info, rfl, hinfo, hyes, hidle, hq, hnew, hqm⟩

/-- The message gives credentials for the session: an ICE server with a user name. -/
def Outgoing.Message.Entitles (sid : XID) : Message → Prop
  | .hostSession m => m.id = sid ∧ ∃ ice ∈ m.iceServers, ice.username ≠ ""
  | .clientSession m => m.id = sid ∧ ∃ ice ∈ m.iceServers, ice.username ≠ ""
  | _ => False

/-- Credentials have a user name. -/
theorem Turn.Server.issued_ne_empty (draw : ℕ → ℕ) (now : ℕ) {id : String} (hid : id ≠ "")
    (turn : Turn.Server) : (turn.issued env draw now id).1 ≠ "" := by
  cases turn with
  | internal lookup => exact hid
  | external =>
    intro h
    exact hid (String.append_eq_empty_iff.mp h).2

/-- **Credentials are asked for in TURN rooms**, and in no others. -/
theorem iceFor_username_iff (v4 v6 : Option IP) (mode : ConnectionMode) (turn : Turn.Server)
    {username : String} (hname : username ≠ "") :
    (∃ ice ∈ iceFor env ch v4 v6 mode turn username, ice.username ≠ "") ↔
      mode = connectionTURN := by
  have hTL : connectionTURN ≠ connectionLocal := by decide
  have hTS : connectionTURN ≠ connectionSTUN := by decide
  unfold iceFor
  split_ifs with hlocal hstun hturn
  · exact iff_of_false (by simp) fun h => hTL (h.symm.trans hlocal)
  · exact iff_of_false (by simp) fun h => hTS (h.symm.trans hstun)
  · exact iff_of_true ⟨_, List.mem_singleton_self _, turn.issued_ne_empty _ _ hname⟩ hturn
  · exact iff_of_false (by simp) hturn

theorem username_ne_empty (sid : XID) :
    hostUsername env sid ≠ "" ∧ clientUsername env sid ≠ "" := by
  refine ⟨fun h => ?_, fun h => ?_⟩
  · exact absurd (String.append_eq_empty_iff.mp h).2 (by decide)
  · exact absurd (String.append_eq_empty_iff.mp h).2 (by decide)

theorem mode_of_announce {v4 v6 : Option IP} {mode : ConnectionMode} {turn : Turn.Server}
    {a : XID × RoomSession} {out : Chan} {m : Message} {sid : XID}
    (hm : .write out m ∈ announce env ch v4 v6 mode turn a) (hent : m.Entitles sid) :
    mode = connectionTURN := by
  obtain ⟨hhost, hclient⟩ := @username_ne_empty env a.1
  rcases List.mem_cons.mp hm with hm | hm
  · cases hm
    exact (iceFor_username_iff v4 v6 mode turn hhost).mp hent.2
  · cases List.mem_singleton.mp hm
    exact (iceFor_username_iff v4 v6 mode turn hclient).mp hent.2

/-- **Credentials are given for sessions of rooms that were there**, and are TURN rooms. -/
theorem Change.entitles (h : Inv env s) (hch : Change env ch s info e t sent) {out : Chan}
    {m : Message} {sid : XID} (hm : .write out m ∈ sent) (hent : m.Entitles sid) :
    ∃ R r r', s.rooms.lookup R = some r ∧ r.mode = connectionTURN ∧
      t.rooms.lookup R = some r' ∧ sid ∈ r'.sessions := by
  obtain ⟨A, L, heff⟩ := hch.effect h
  have hann : (Send.write out m).Announces sid := by
    cases m with
    | hostSession | clientSession => exact hent.1
    | _ => exact hent.elim
  obtain ⟨a, ha, rfl⟩ : ∃ a ∈ A, a.1 = sid := by
    by_contra hno
    push Not at hno
    exact heff.quiet sid hno _ hm hann
  obtain ⟨R, r', v4, v6, hr', hx, hfilter⟩ := heff.begun a ha
  have hm' : Send.write out m ∈ sent.filter (Send.Announces a.1) :=
    List.mem_filter.mpr ⟨hm, decide_eq_true hann⟩
  rw [hfilter] at hm'
  have hmode := mode_of_announce hm' hent
  have hstep := hch.roomStep hr'
  have hold : ∃ r, s.rooms.lookup R = some r := by
    cases hstep with
    | same hr => exact ⟨_, hr⟩
    | created he hc hR hnew hauth hr' =>
      -- a new room has no sessions
      subst hr'
      simp [createRoom] at hx
    | joined hc he hr => exact ⟨_, hr⟩
    | flagged hin => exact ⟨_, hin.room⟩
    | left hin => exact ⟨_, hin.room⟩
  obtain ⟨r, hr⟩ := hold
  exact ⟨R, r, r', hr, (hstep.mode_eq hr).symm.trans hmode, hr',
    Finmap.mem_of_lookup_eq_some hx⟩

/-- **TURN is for rooms of logged-in clients**, after the inputs `is`: such are all TURN rooms, the
rooms of the user names the TURN server admits, and those of the credentials the next message
hands out; no message changes the mode of a room, and the message of a client that is not logged
in makes no TURN room. -/
structure LoginForTURN (env : Env) (is : List (Choice × Input)) (w : World) : Prop where
  rooms : ∀ R, w.HasTURN R → OpenedByUser env is R
  admitted : ∀ name, (w.rooms.turnServer.authenticate name).isSome = true →
    ∃ R r sid, w.rooms.rooms.lookup R = some r ∧ sid ∈ r.sessions ∧ UsernameOf env sid name ∧
      OpenedByUser env is R
  message : ∀ ch c info e, w.clients.lookup c = some info → e.fromClient = true →
    ∃ t sent, w.rooms.handle env ch ⟨info, false, e⟩ = some (t, sent) ∧
      (∀ out m sid, .write out m ∈ sent → m.Entitles sid →
        ∃ R r, t.rooms.lookup R = some r ∧ sid ∈ r.sessions ∧ OpenedByUser env is R) ∧
      (∀ R r r', w.rooms.rooms.lookup R = some r → t.rooms.lookup R = some r' →
        r'.mode = r.mode) ∧
      (info.authenticated = false → ∀ R r', t.rooms.lookup R = some r' →
        r'.mode = connectionTURN → w.HasTURN R)

/-- **TURN needs a login** in auth mode `turn`. -/
theorem turn_needs_login (env : Env) (hturn : env.config.authMode = Config.authModeTurn)
    (is : List (Choice × Input)) :
    ∃ w, (server env).run is = some w ∧ LoginForTURN env is w := by
  obtain ⟨w, hrun, h⟩ := server_ok env is
  have hrooms : ∀ R, w.HasTURN R → OpenedByUser env is R := fun R => openedByUser hturn hrun
  refine ⟨w, hrun, hrooms, fun name hname => ?_, fun ch c info e hinfo he => ?_⟩
  · have hext : env.config.turnExternal = false := by
      by_contra hext
      have hi := h.inv.internal
      cases ht : w.rooms.turnServer with
      | internal lookup => simp [ht, Turn.Server.isInternal, hext] at hi
      | external => simp [ht, Turn.Server.authenticate] at hname
    obtain ⟨R, r, hr, hm, sid, hsid, hn⟩ := (h.inv.granted hext name).mp hname
    exact ⟨R, r, sid, hr, hsid, hn, hrooms R ⟨r, hr, hm⟩⟩
  · obtain ⟨rfl, hw⟩ := h.info c info hinfo
    obtain ⟨t, sent, hs, hch⟩ := handle_change ch h.inv hw he
    refine ⟨t, sent, hs, fun out m sid hm hent => ?_, fun R r r' hr hr' => ?_,
      fun hno R r' hr' hm => ?_⟩
    · obtain ⟨R, r, r', hr, hmode, hr', hsid⟩ := hch.entitles h.inv hm hent
      exact ⟨R, r', hr', hsid, hrooms R ⟨r, hr, hmode⟩⟩
    · exact (hch.roomStep hr').mode_eq hr
    · refine ((hch.roomStep hr').turn hturn hm).resolve_right fun hyes => ?_
      rw [hno] at hyes
      exact Bool.false_ne_true hyes.1

/-- A logged-in client creates a TURN room and shares; one that is not logged in joins. -/
def strangerWatches : List (Choice × Input) :=
  [.upgrade [] "user" true,
    .create ⟨0⟩ ⟨"room", connectionTURN, false, "", "a", false⟩,
    .receive ⟨0⟩ .startShare Event.fromClient_startShare,
    .upgrade [] "" false, .join ⟨1⟩ ⟨"room", "", "b"⟩].map
    fun i => (Choice.plain, i)

theorem turn_needs_login_strangerWatches :
    ∃ w, (server (Env.counting ⟨Config.authModeTurn, "3478", false⟩)).run strangerWatches = some w ∧
      LoginForTURN (Env.counting ⟨Config.authModeTurn, "3478", false⟩) strangerWatches w :=
  turn_needs_login _ rfl strangerWatches

end Screego
