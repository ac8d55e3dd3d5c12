import Screego.Conversation
import Screego.Proposals
import Screego.RoomErrors

/-!
# The start page

The `/config` route of `router/router.go`, `authModeToRoomMode` of `ui/src/useConfig.ts`, the form of
`ui/src/RoomManage.tsx` and the effect with which `useRoom` begins: which request a page makes, and what it
is told.

* `UIConfig`, `Router.uiConfig`; `Form`: `Form.create`, `Form.join`; `UIConfig.entry`: a link is opened;
* `Asking`: the requests of a page for a room; `UIConfig.answer`: what should come of them;
* **`start_page_is_answered`**: it comes, in every state of the server.
-/

set_option autoImplicit false

namespace Screego

open Lib Outgoing

/-! ## The configuration of a page -/

/-- The fields of `UIConfig` that are used for a request. -/
structure UIConfig where
  authMode : String
  loggedIn : Bool
  roomName : String
  closeRoomWhenOwnerLeaves : Bool

/-- The route `/config`, for a session that `CurrentUser` knows or does not know. -/
def Router.uiConfig (conf : Config) (loggedIn : Bool) (roomName : IdBytes) (closeRoomWhenOwnerLeaves : Bool) :
    UIConfig :=
  ⟨conf.authMode, loggedIn, newRoomName roomName, closeRoomWhenOwnerLeaves⟩

/-- **`authModeToRoomMode`.** -/
def authModeToRoomMode (authMode : String) (loggedIn : Bool) : ConnectionMode :=
  if loggedIn then connectionTURN
  else if authMode = "all" then connectionTURN
  else if authMode = "turn" then connectionSTUN
  else connectionTURN

namespace UIConfig

variable (config : UIConfig)

def canCreateRoom : Bool := config.authMode ≠ "all"

/-- The page shows the login, and not the form. -/
def loginVisible (showLogin : Bool) : Bool := !config.loggedIn && (showLogin || !config.canCreateRoom)

/-- **The effect of `useRoom`**: what is asked for when a link is opened. -/
def entry (location : Address) (visitorId : String) : Option Say :=
  match getRoomFromURL location with
  | none => none
  | some roomID =>
    if roomID = "" then none
    else
      let search := String.ofList location.search
      if getFromURL "create" search = some "true" then
        let closeOnOwnerLeave :=
          match getFromURL "closeOnOwnerLeave" search with
          | none => config.closeRoomWhenOwnerLeaves
          | some s => s = "true"
        some (.create ⟨roomID, authModeToRoomMode config.authMode config.loggedIn, closeOnOwnerLeave, "",
          visitorId, true⟩)
      else some (.join ⟨roomID, "", visitorId⟩)

end UIConfig

/-! ## The form -/

/-- The fields of `CreateRoom` that are sent. -/
structure Form where
  id : JsString
  ownerLeave : Bool

namespace Form

/-- What the form shows first. -/
def initial (config : UIConfig) (idFromURL : Option String) (drawn : IdBytes) : Form where
  id :=
    match idFromURL with
    | some id => if id = "" then proposal else utf16 id.toList
    | none => proposal
  ownerLeave := config.closeRoomWhenOwnerLeaves
where
  proposal := if config.roomName = "unknown" then createRoomId drawn else utf16 config.roomName.toList

def newRoom (f : Form) (drawn : IdBytes) : Form := { f with id := createRoomId drawn }

variable (f : Form)

/-- **`create`**, unless the id is refused. -/
def create (config : UIConfig) (visitorId : String) : Option Say :=
  match validateRoomId f.id with
  | .error _ => none
  | .ok trimmedId =>
    some (.create ⟨received trimmedId, authModeToRoomMode config.authMode config.loggedIn, f.ownerLeave, "",
      visitorId, false⟩)

/-- **`join`.** -/
def join (visitorId : String) : Option Say :=
  match validateRoomId f.id with
  | .error _ => none
  | .ok trimmedId => some (.join ⟨received trimmedId, "", visitorId⟩)

end Form

/-! ## What a page asks for -/

/-- **A page asks to enter the room `R`**: with the form, while it is shown, or because a link is opened. -/
inductive Asking (config : UIConfig) (R visitorId : String) : Say → Prop
  | create (f : Form) (showLogin : Bool) {say : Say} (hid : f.id = utf16 R.toList)
      (hshown : config.loginVisible showLogin = false) (h : f.create config visitorId = some say) :
      Asking config R visitorId say
  | join (f : Form) {say : Say} (hid : f.id = utf16 R.toList) (h : f.join visitorId = some say) :
      Asking config R visitorId say
  | entry (location : Address) {say : Say} (hroom : getRoomFromURL location = some R)
      (h : config.entry location visitorId = some say) : Asking config R visitorId say

/-- **What should come of it**: the page has entered, or a failure. -/
def UIConfig.answer (config : UIConfig) (there : Bool) : Say → Option RoomErrorKind
  | .create q =>
    if there then (if q.joinIfExist then none else some .alreadyExists)
    else if config.authMode = "all" ∧ config.loggedIn = false then some .unauthorized
    else none
  | .join _ => if there then none else some .notFound
  | _ => none

/-! ## Ids that can be asked for -/

/-- **An id for a room**: it is plain, and the failures with it are understood. -/
structure Fit (R : String) : Prop extends PlainId R where
  short : R.utf8ByteSize ≤ 91
  clear : ¬ Misleading R

/-- A proposed id is one, -/
theorem fit_newRoomName (bytes : IdBytes) : Fit (newRoomName bytes) where
  toPlainId := plainId_newRoomName bytes
  short := by
    rw [(plainId_newRoomName bytes).utf8ByteSize_eq, length_newRoomName]
    decide
  clear := by
    rintro ⟨p, hp, hin⟩
    have hletter : ∀ p ∈ earlierWords, 't' ∈ p.toList := by decide
    obtain ⟨c, hc, hlower⟩ := List.mem_map.mp (hin.subset (hletter p hp))
    obtain ⟨-, hself, hne⟩ := (idChar_of_mem hc).plain
    exact hne (hself.symm.trans hlower)

/-- and it is what a page shows first. -/
theorem initial_uiConfig (conf : Config) (loggedIn : Bool) (bytes : IdBytes) (leave : Bool)
    (drawn : IdBytes) : (Form.initial (Router.uiConfig conf loggedIn bytes leave) none drawn).id =
      utf16 (newRoomName bytes).toList := by
  refine if_neg fun hunknown => ?_
  have hlen := length_newRoomName bytes
  rw [show newRoomName bytes = "unknown" from hunknown] at hlen
  exact absurd hlen (by decide)

variable {config : UIConfig} {R visitorId : String} {say : Say}

/-- **The requests of a page**: the mode of a room that is created is that of the configuration, and the
form asks for one only where a login is not missing. -/
theorem Asking.cases (hR : PlainId R) (h : Asking config R visitorId say) :
    (∃ q : Create, say = .create q ∧ normalizeRoomID q.id = .ok R ∧
      q.mode = authModeToRoomMode config.authMode config.loggedIn ∧
      (q.joinIfExist = false → ¬ (config.authMode = "all" ∧ config.loggedIn = false))) ∨
    ∃ j : Join, say = .join j ∧ normalizeRoomID j.id = .ok R := by
  cases h with
  | create f showLogin hid hshown h =>
    rw [Form.create, hid, hR.validateRoomId_eq] at h
    obtain rfl := Option.some.inj h
    refine Or.inl ⟨_, rfl, ?_, rfl, ?_⟩
    · rw [PlainId.received_eq]
      exact hR.normalizeRoomID_eq
    · rintro - ⟨hall, hout⟩
      rw [UIConfig.loginVisible, UIConfig.canCreateRoom, hall, hout] at hshown
      cases showLogin <;> cases hshown
  | join f hid h =>
    rw [Form.join, hid, hR.validateRoomId_eq] at h
    obtain rfl := Option.some.inj h
    refine Or.inr ⟨_, rfl, ?_⟩
    rw [PlainId.received_eq]
    exact hR.normalizeRoomID_eq
  | entry location hroom h =>
    simp only [UIConfig.entry, hroom, if_neg hR.ne_empty] at h
    split_ifs at h
    · obtain rfl := Option.some.inj h
      exact Or.inl ⟨_, rfl, hR.normalizeRoomID_eq, rfl, fun hno => by cases hno⟩
    · obtain rfl := Option.some.inj h
      exact Or.inr ⟨_, rfl, hR.normalizeRoomID_eq⟩

/-! ## The answers -/

section Answers

variable {env : Env} {ch : Choice} {w w' : World} {c : XID} {info : ClientInfo} {T : CaseTable}

/-- **The mode that the page picks** is never refused, unless nobody may create a room without a login. -/
theorem authError_uiConfig {q : Create} (hmode : env.config.authMode = Config.authModeTurn ∨
      env.config.authMode = Config.authModeAll ∨ env.config.authMode = Config.authModeNone)
    (hauth : config.authMode = env.config.authMode) (hlogin : info.authenticated = config.loggedIn)
    (hq : q.mode = authModeToRoomMode config.authMode config.loggedIn) : q.authError env info =
      if config.authMode = "all" ∧ config.loggedIn = false then some "you need to login" else none := by
  rw [Create.authError, hq, hlogin, hauth]
  rcases hmode with hm | hm | hm <;> rw [hm] <;> cases config.loggedIn <;> decide

/-- A request that is refused for want of a login. -/
theorem execute_create_denied (ch : Choice) (hc : w.rooms.connected.lookup info.id = some "") {q : Create} {err : String}
    (hR : normalizeRoomID q.id = .ok R) (hr : R ∉ w.rooms.rooms) (ha : q.authError env info = some err) :
    (Event.create q).execute env ch w.rooms info = some (.fail w.rooms err) := by
  show q.execute env ch w.rooms info = _
  simp only [Create.execute, hc, Option.getD_some, ne_eq, not_true_eq_false, if_false, hR,
    Finmap.lookup_eq_none.mpr hr, ha]

theorem roomErrorKind_login (T : CaseTable) :
    roomErrorKind T (closeReason "you need to login") = .unauthorized := by
  have hreason : decode (JsString.trim (closeReason "you need to login")) = "you need to login".toList := by
    decide +kernel
  have hword : ∀ p ∈ ["not found", "does not exist", "you need to login"],
      includes (toLowerCase T "you need to login".toList) p =
        decide (p.toList <:+: "you need to login".toList.map Char.toLower) := by
    intro p hp
    have hplain : ∀ p ∈ ["not found", "does not exist", "you need to login"],
        Plainly p.toList ∧ p.toList ≠ [] := by decide
    rw [Bool.eq_iff_iff, includes_iff (hplain p hp).1 (hplain p hp).2, decide_eq_true_eq]
  have hne : toLowerCase T "you need to login".toList ≠ [] := toLowerCase_ne_nil (by decide)
  have hfound := hword "not found" (by decide)
  have hexist := hword "does not exist" (by decide)
  have hlogin := hword "you need to login" (by decide)
  rw [roomErrorKind, hreason]
  simp only [if_neg hne, hfound, hexist, hlogin]
  have hno : decide ("not found".toList <:+: "you need to login".toList.map Char.toLower) = false := by decide
  have hno' : decide ("does not exist".toList <:+: "you need to login".toList.map Char.toLower) = false := by
    decide
  have hyes : decide ("you need to login".toList <:+: "you need to login".toList.map Char.toLower) = true := by
    decide
  rw [hno, hno', hyes]
  simp only [Bool.or_false, Bool.or_true, Bool.false_eq_true, if_false, if_true]

/-- What a page is told that has entered. -/
theorem connectionResult_entered (h : w.Ok env) (hl : LogOk w) (hne : R ≠ "")
    (hat : w.rooms.connected.lookup c = some R) :
    connectionResult T (w.log c) = some .ok ∧ ∃ r, w.rooms.InRoom c R r := by
  obtain ⟨m, body, hlog, -⟩ := hl.user c (h.inv.seats_iff.mpr ⟨R, hne, hat⟩)
  refine ⟨by rw [connectionResult, hlog]; rfl, ?_⟩
  rcases h.inv.idle_or_inRoom (Finmap.mem_of_lookup_eq_some hat) with hidle | ⟨R', r, hin⟩
  · exact absurd (Option.some.inj (hat.symm.trans hidle)) hne
  · obtain rfl := Option.some.inj (hin.at_.symm.trans hat)
    exact ⟨r, hin⟩

/-- What a page is told that is refused. -/
theorem connectionResult_refused (h : w.Ok env) (hl : LogOk w) (hinfo : w.clients.lookup c = some info)
    (hc : w.rooms.connected.lookup c = some "") {e : Event} {he : e.fromClient = true} {reason : String}
    (hex : e.execute env ch w.rooms info = some (.fail w.rooms reason))
    (hs : w.step env (ch, .receive c e he) = some w') :
    connectionResult T (w'.log c) = some (roomError T (closeReason reason)) := by
  rw [log_fail_idle h hl hinfo hc hex hs]
  rfl

/-- The client is in the room that it created, -/
theorem at_after_create (h : w.Ok env) (hinfo : w.clients.lookup c = some info)
    (hc : w.rooms.connected.lookup c = some "") {q : Create} (hq : normalizeRoomID q.id = .ok R)
    (hr : R ∉ w.rooms.rooms) (ha : q.authError env info = none)
    (hs : w.step env (ch, .create c q) = some w') : w'.rooms.connected.lookup c = some R := by
  obtain ⟨rfl, -⟩ := h.info c info hinfo
  simp only [World.step, Input.create, hinfo, handle_eq (Finmap.mem_of_lookup_eq_some hc),
    execute_create ch hc hq hr ha, Option.map_some, Option.some.injEq] at hs
  rw [← hs]
  exact Finmap.lookup_insert _

/-- and in the room that it joined, when there is an address. -/
theorem at_after_join (h : w.Ok env) (hinfo : w.clients.lookup c = some info)
    (hc : w.rooms.connected.lookup c = some "") {e : Event} {he : e.fromClient = true} {v : String}
    {r : Room} {ips : Option IP × Option IP} (hjoin : e.Joins R v) (hr : w.rooms.rooms.lookup R = some r)
    (hget : ch.get = .ok ips) (hs : w.step env (ch, .receive c e he) = some w') :
    w'.rooms.connected.lookup c = some R := by
  obtain ⟨rfl, hw⟩ := h.info c info hinfo
  obtain ⟨sent, hhandle⟩ := handle_joins h.inv hw hc hjoin hr hget
  simp only [World.step, hinfo, hhandle, Option.map_some, Option.some.injEq] at hs
  rw [← hs]
  exact Finmap.lookup_insert _

end Answers

/-- **What a page is told.** -/
def Answered (T : CaseTable) (w : World) (c : XID) (R : String) : Option RoomErrorKind → Prop
  | none => connectionResult T (w.log c) = some .ok ∧ ∃ r, w.rooms.InRoom c R r
  | some kind => ∃ reason, connectionResult T (w.log c) = some (.failed kind reason)

theorem answered_failure {T : CaseTable} {w : World} {c : XID} {reason : String} {kind : RoomErrorKind}
    (h : connectionResult T (w.log c) = some (roomError T (closeReason reason)))
    (hkind : roomErrorKind T (closeReason reason) = kind) (R : String) : Answered T w c R (some kind) := by
  rw [roomError, hkind] at h
  exact ⟨_, h⟩

/-- **Every request of a page is answered as it should be**: in every state of every run of a server, a page
with the configuration of the server and of its session that asks to enter a room, with the form or because a
link is opened, enters, or is told that the room exists, does not exist, or cannot be created without a login;
and it is told so exactly when that is the case. The form never leads to the last. -/
theorem start_page_is_answered {env : Env} (hmode : env.config.authMode = Config.authModeTurn ∨
      env.config.authMode = Config.authModeAll ∨ env.config.authMode = Config.authModeNone)
    (T : CaseTable) (X : XidReader env) {R : String} (hR : Fit R) :
    (server env).Always fun w => ∀ ch c w' info config visitorId say,
      w.rooms.connected.lookup c = some "" → w.clients.lookup c = some info →
      config.authMode = env.config.authMode → info.authenticated = config.loggedIn →
      (∃ ips, ch.get = .ok ips) → Asking config R visitorId say →
      w.step env (ch, say.input X c) = some w' →
      Answered T w' c R (config.answer (decide (R ∈ w.rooms.rooms)) say) ∧
        ∀ q, say = .create q → q.joinIfExist = false →
          config.answer (decide (R ∈ w.rooms.rooms)) say ≠ some .unauthorized := by
  refine (server_storyOk env).mono fun w ⟨hok, hlog, _⟩ ch c w' info config visitorId say hc hinfo hauth
    hlogin hget hask hs => ?_
  obtain ⟨ips, hget⟩ := hget
  obtain ⟨hid, -⟩ := hok.info c info hinfo
  have hcid : w.rooms.connected.lookup info.id = some "" := hid.symm ▸ hc
  have hchange := hok.change_of_step hs
  have hok' := hok.change hchange
  have hlog' := hlog.change hok hchange
  rcases hask.cases hR.toPlainId with ⟨q, rfl, hq, hqmode, hform⟩ | ⟨j, rfl, hj⟩
  · by_cases hr : R ∈ w.rooms.rooms
    · obtain ⟨r, hroom⟩ := Finmap.mem_iff.mp hr
      rw [UIConfig.answer, if_pos (decide_eq_true hr)]
      cases hjoin : q.joinIfExist with
      | true =>
        refine ⟨connectionResult_entered hok' hlog' hR.ne_empty
          (at_after_join hok hinfo hc (e := .create q) ⟨hjoin, hq, rfl⟩ hroom hget hs), fun _ _ _ => by decide⟩
      | false =>
        refine ⟨answered_failure (connectionResult_exists hok hlog hc hq hjoin hr hs)
          ((roomErrorKind_exists T R).mpr ⟨hR.short, hR.clear⟩) R, fun _ _ _ => by decide⟩
    · rw [UIConfig.answer, if_neg (by simpa using hr)]
      have ha := authError_uiConfig hmode hauth hlogin hqmode
      split_ifs at ha ⊢ with hout
      · have hdenied := execute_create_denied ch hcid hq hr ha
        refine ⟨answered_failure (connectionResult_refused hok hlog hinfo hc hdenied hs) (roomErrorKind_login T) R,
          fun q' heq hno => ?_⟩
        cases heq
        exact absurd hout (hform hno)
      · exact ⟨connectionResult_entered hok' hlog' hR.ne_empty (at_after_create hok hinfo hc hq hr ha hs),
          fun _ _ _ => by decide⟩
  · refine ⟨?_, fun q heq => by cases heq⟩
    by_cases hr : R ∈ w.rooms.rooms
    · obtain ⟨r, hroom⟩ := Finmap.mem_iff.mp hr
      rw [UIConfig.answer, if_pos (decide_eq_true hr)]
      exact connectionResult_entered hok' hlog' hR.ne_empty
        (at_after_join hok hinfo hc (e := .join j) ⟨hj, rfl⟩ hroom hget hs)
    · rw [UIConfig.answer, if_neg (by simpa using hr)]
      exact answered_failure (connectionResult_missing hok hlog hc hj hr hs)
        ((roomErrorKind_missing T R).mpr (hR.short.trans (by decide))) R

/-- A page creates the room that is proposed to it. -/
theorem start_page_is_answered_proposal : ∃ w c say w',
    (server openServer).run [(Choice.plain, .upgrade [] "" false)] = some w ∧
      w.step openServer (Choice.plain, Say.input (.counting openServer.config) c say) = some w' ∧
      Answered CaseTable.plain w' c "00000000-0000-4000-8000-000000000000" none := by
  let bytes : IdBytes := Vector.replicate 16 0
  let config := Router.uiConfig openServer.config false bytes true
  have hid : newRoomName bytes = "00000000-0000-4000-8000-000000000000" := by decide +kernel
  have hfit : Fit "00000000-0000-4000-8000-000000000000" := hid ▸ fit_newRoomName bytes
  obtain ⟨w, hrun, hok⟩ := server_ok openServer ([] ++ [(Choice.plain, .upgrade [] "" false)])
  have hs : (World.init openServer).step openServer (Choice.plain, .upgrade [] "" false) = some w := by
    simpa only [Machine.run_concat, Machine.run_nil, Option.bind_some, server] using hrun
  obtain ⟨hrooms, c, hidle, hinfo⟩ := idle_after_upgrade World.Ok.init hs
  have hnew : "00000000-0000-4000-8000-000000000000" ∉ w.rooms.rooms := by
    rw [hrooms]
    exact Finmap.notMem_empty
  let say : Say := .create ⟨"00000000-0000-4000-8000-000000000000", connectionTURN, true, "", "", false⟩
  have hshows : (Form.initial config none bytes).id =
      utf16 "00000000-0000-4000-8000-000000000000".toList := by
    rw [initial_uiConfig, hid]
  have hask : Asking config "00000000-0000-4000-8000-000000000000" "" say := by
    refine .create (Form.initial config none bytes) false hshows rfl ?_
    rw [Form.create, hshows, hfit.validateRoomId_eq]
    dsimp only
    rw [PlainId.received_eq]
    rfl
  obtain ⟨w', hstep, -⟩ := hok.step_change Choice.plain (Say.input (.counting openServer.config) c say)
  obtain ⟨hans, -⟩ := (start_page_is_answered (Or.inr (Or.inr rfl)) CaseTable.plain
    (.counting openServer.config) hfit).of_run hrun Choice.plain c w' _ config "" say hidle hinfo rfl rfl
    ⟨_, rfl⟩ hask hstep
  rw [UIConfig.answer, if_neg (by simpa using hnew), if_neg (by decide)] at hans
  exact ⟨w, c, say, w', hrun, hstep, hans⟩

end Screego
