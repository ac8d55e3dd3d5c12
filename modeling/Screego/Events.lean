import Screego.Room

/-!
# Events

`ws/event_*.go`: the handlers of the messages that reach the main loop. A handler ends with an
`Outcome`: the server, the messages handed out and the error it returns, whose effects up to the
error stay; `none` is a nil dereference.

* `Create.execute`, `Join.execute`, `executeName`, `executeStartShare`, `executeStopShare`,
  `executeHostOffer` and its three siblings (`relay`), `Disconnected.execute`;
* `Event.execute`: the `Event` interface.
-/

namespace Screego

open Lib

/-- `websocket.CloseNormalClosure`. -/
def closeNormalClosure : ℕ := 1000

def closeOwnerLeft : String := "Owner Left"

/-- **How a handler ends.** -/
structure Outcome where
  rooms : Rooms
  sent : List Send
  err : Option String

/-- An error return before any effect. -/
def Outcome.fail (s : Rooms) (err : String) : Outcome := ⟨s, [], some err⟩

section Handlers

variable (env : Env) (ch : Choice)

/-! ## Entering a room -/

structure Join where
  id : String
  userName : String
  visitorID : String

/-- `Join.Execute`. -/
def Join.execute (e : Join) (s : Rooms) (current : ClientInfo) : Option Outcome :=
  if (s.connected.lookup current.id).getD "" ≠ "" then
    some (.fail s "cannot join room, you are already in one")
  else match normalizeRoomID e.id with
  | .error err => some (.fail s err)
  | .ok id =>
  match s.rooms.lookup id with
  | none => some (.fail s ("room with id " ++ id ++ " does not exist"))
  | some room => do
    let visitorID := normalizeVisitorID env e.visitorID current.id
    let name := room.nextGuestName ch visitorID
    let user : User :=
      { id := current.id, visitorID, name, streaming := false,
        owner := room.visitorOwner ch visitorID, addr := current.addr, write := current.write }
    let room := { room with users := room.users.insert current.id user }
    let counters := { s.counters with usersJoined := s.counters.usersJoined + 1 }
    let s := { s with connected := s.connected.insert current.id room.id, counters }
    let sent := room.notifyInfoChanged ch
    match ch.get with
    | .error err => some ⟨s.store id room, sent, some err⟩
    | .ok (v4, v6) => do
      let st ← (range (ch.order .join) room.users).foldlM
        (fun st user =>
          if current.id = user.2.id || !user.2.streaming then some st
          else st.newSession env ch user.2.id current.id v4 v6)
        (⟨room, s, sent⟩ : Live)
      some ⟨st.rooms.store id st.room, st.sent, none⟩

structure Create where
  id : String
  mode : ConnectionMode
  closeOnOwnerLeave : Bool
  userName : String
  visitorID : String
  joinIfExist : Bool

/-- The `switch` of `Create.Execute` over the configured auth mode: the error it returns. -/
def Create.authError (e : Create) (current : ClientInfo) : Option String :=
  if env.config.authMode = Config.authModeNone then none
  else if env.config.authMode = Config.authModeAll then
    if current.authenticated then none else some "you need to login"
  else if env.config.authMode = Config.authModeTurn then
    if e.mode ≠ connectionSTUN && e.mode ≠ connectionLocal && !current.authenticated then
      some "you need to login"
    else none
  else some ("invalid authmode:" ++ env.config.authMode)

/-- `Create.Execute`. -/
def Create.execute (e : Create) (s : Rooms) (current : ClientInfo) : Option Outcome :=
  if (s.connected.lookup current.id).getD "" ≠ "" then
    some (.fail s "cannot join room, you are already in one")
  else match normalizeRoomID e.id with
  | .error err => some (.fail s err)
  | .ok id =>
  match s.rooms.lookup id with
  | some _ =>
    if e.joinIfExist then
      Join.execute env ch ⟨id, e.userName, e.visitorID⟩ s current
    else some (.fail s ("room with id " ++ id ++ " does already exist"))
  | none =>
  match e.authError env current with
  | some err => some (.fail s err)
  | none =>
    let user : User :=
      { id := current.id, visitorID := normalizeVisitorID env e.visitorID current.id,
        name := guestName 1, streaming := false, owner := true, addr := current.addr,
        write := current.write }
    let room : Room :=
      { id, closeOnOwnerLeave := e.closeOnOwnerLeave, mode := e.mode, sessions := ∅,
        users := (∅ : GoMap XID User).insert current.id user }
    let counters := { s.counters with
      usersJoined := s.counters.usersJoined + 1, roomsCreated := s.counters.roomsCreated + 1 }
    let s := { s with connected := s.connected.insert current.id room.id, counters }
    some ⟨s.store id room, room.notifyInfoChanged ch, none⟩

/-! ## Inside a room -/

/-- `Name.Execute`: names are given by the server, so only the member list goes out again. -/
def executeName (s : Rooms) (current : ClientInfo) : Option Outcome :=
  match s.currentRoom current.id with
  | .error err => some (.fail s err)
  | .ok (_, room) => some ⟨s, room.notifyInfoChanged ch, none⟩

/-- `StartShare.Execute`. -/
def executeStartShare (s : Rooms) (current : ClientInfo) : Option Outcome :=
  match s.currentRoom current.id with
  | .error err => some (.fail s err)
  | .ok (roomID, room) => do
    let user ← room.users.lookup current.id
    let room := { room with users := room.users.insert current.id { user with streaming := true } }
    match ch.get with
    | .error err => some ⟨s.store roomID room, [], some err⟩
    | .ok (v4, v6) => do
      let st ← (range (ch.order .startShare) room.users).foldlM
        (fun st user =>
          if current.id = user.2.id then some st
          else st.newSession env ch current.id user.2.id v4 v6)
        (⟨room, s, []⟩ : Live)
      some ⟨st.rooms.store roomID st.room, st.sent ++ st.room.notifyInfoChanged ch, none⟩

/-- Tell `peer`, if it is still in the room, that the session `id` has ended. -/
def Live.endShareTo (peer id : XID) (st : Live) : Live :=
  match st.room.users.lookup peer with
  | some user => { st with sent := st.sent ++ [.write user.write (.endShare id)] }
  | none => st

/-- The body of the loop of `StopShare.Execute`. -/
def stopShareLoop (current : XID) (st : Live) (session : XID × RoomSession) : Live :=
  if session.2.host = current then
    (st.endShareTo session.2.client session.1).closeSession env session.1
  else st

/-- `StopShare.Execute`. -/
def executeStopShare (s : Rooms) (current : ClientInfo) : Option Outcome :=
  match s.currentRoom current.id with
  | .error err => some (.fail s err)
  | .ok (roomID, room) => do
    let user ← room.users.lookup current.id
    let room := { room with users := room.users.insert current.id { user with streaming := false } }
    let st := (range (ch.order .stopShare) room.sessions).foldl (stopShareLoop env current.id)
      (⟨room, s, []⟩ : Live)
    some ⟨st.rooms.store roomID st.room, st.sent ++ st.room.notifyInfoChanged ch, none⟩

/-! ## Signalling -/

/-- The four signalling handlers: only the `sender` side of a session of the current room may use
it, and the message goes to the other side. A session that is not there is ignored. -/
def relay (sender receiver : RoomSession → XID) (msg : Outgoing.P2PMessage → Outgoing.Message)
    (e : Outgoing.P2PMessage) (s : Rooms) (current : ClientInfo) : Option Outcome :=
  match s.currentRoom current.id with
  | .error err => some (.fail s err)
  | .ok (_, room) =>
  match room.sessions.lookup e.sid with
  | none => some ⟨s, [], none⟩
  | some session =>
    if sender session ≠ current.id then
      some (.fail s ("permission denied for session " ++ env.xidString e.sid))
    else do
      let user ← room.users.lookup (receiver session)
      some ⟨s, [.write user.write (msg e)], none⟩

/-- `HostOffer.Execute`. -/
def executeHostOffer := relay env RoomSession.host RoomSession.client .hostOffer
/-- `HostICE.Execute`. -/
def executeHostICE := relay env RoomSession.host RoomSession.client .hostICE
/-- `ClientAnswer.Execute`. -/
def executeClientAnswer := relay env RoomSession.client RoomSession.host .clientAnswer
/-- `ClientICE.Execute`. -/
def executeClientICE := relay env RoomSession.client RoomSession.host .clientICE

/-! ## Leaving -/

structure Disconnected where
  code : ℕ
  reason : String

/-- The body of the session loop of `Disconnected.executeNoError`. -/
def disconnectedLoop (current : XID) (st : Live) (session : XID × RoomSession) : Live :=
  let st :=
    if session.2.client = current then
      (st.endShareTo session.2.host session.1).closeSession env session.1
    else st
  if session.2.host = current then
    (st.endShareTo session.2.client session.1).closeSession env session.1
  else st

/-- The end of `Disconnected.executeNoError`, when `user` is out of the room and its sessions are
closed: an owner takes the room along, and the last user closes it. -/
def Live.afterLeave (roomID : String) (user : User) (st : Live) : Rooms × List Send :=
  let s := st.rooms.store roomID st.room
  if user.owner && st.room.closeOnOwnerLeave && !st.room.hasVisitor ch user.visitorID then
    let members := range (ch.order .ownerLeft) st.room.users
    let connected := members.foldl (fun m member => m.erase member.2.id) s.connected
    let closed : List Send := members.map fun member =>
      .write member.2.write (.closeWriter closeNormalClosure closeOwnerLeft)
    (({ s with connected } : Rooms).closeRoom env ch roomID, st.sent ++ closed)
  else if GoMap.len st.room.users = 0 then (s.closeRoom env ch roomID, st.sent)
  else (s, st.sent ++ st.room.notifyInfoChanged ch)

/-- **`Disconnected.executeNoError`.** -/
def Disconnected.executeNoError (e : Disconnected) (s : Rooms) (current : ClientInfo) :
    Rooms × List Send :=
  let roomID := (s.connected.lookup current.id).getD ""
  let s := { s with connected := s.connected.erase current.id }
  let sent : List Send := [.write current.write (.closeWriter e.code e.reason)]
  if roomID = "" then (s, sent)
  else match s.rooms.lookup roomID with
  | none => (s, sent)
  | some room =>
  match room.users.lookup current.id with
  | none => (s, sent)
  | some user =>
    let room := { room with users := room.users.erase current.id }
    let counters := { s.counters with usersLeft := s.counters.usersLeft + 1 }
    ((range (ch.order .disconnected) room.sessions).foldl (disconnectedLoop env current.id)
      (⟨room, { s with counters }, sent⟩ : Live)).afterLeave env ch roomID user

/-- `Disconnected.Execute`. -/
def Disconnected.execute (e : Disconnected) (s : Rooms) (current : ClientInfo) : Option Outcome :=
  let (s, sent) := e.executeNoError env ch s current
  some ⟨s, sent, none⟩

/-! ## Bookkeeping -/

/-- `Connected.Execute`. -/
def executeConnected (s : Rooms) (current : ClientInfo) : Option Outcome :=
  some ⟨{ s with connected := s.connected.insert current.id "" }, [], none⟩

/-- `Health.Execute`. -/
def executeHealth (s : Rooms) : Option Outcome :=
  some ⟨s, [.respond (GoMap.len s.connected)], none⟩

end Handlers

/-- **The events.** -/
inductive Event where
  | connected
  | create (e : Create)
  | join (e : Join)
  | name (userName : String)
  | startShare
  | stopShare
  | hostOffer (e : Outgoing.P2PMessage)
  | hostICE (e : Outgoing.P2PMessage)
  | clientAnswer (e : Outgoing.P2PMessage)
  | clientICE (e : Outgoing.P2PMessage)
  | disconnected (e : Disconnected)
  | health

/-- `Event.Execute`. -/
def Event.execute (env : Env) (ch : Choice) (s : Rooms) (current : ClientInfo) :
    Event → Option Outcome
  | connected => executeConnected s current
  | create e => e.execute env ch s current
  | join e => e.execute env ch s current
  | name _ => executeName ch s current
  | startShare => executeStartShare env ch s current
  | stopShare => executeStopShare env ch s current
  | hostOffer e => executeHostOffer env e s current
  | hostICE e => executeHostICE env e s current
  | clientAnswer e => executeClientAnswer env e s current
  | clientICE e => executeClientICE env e s current
  | disconnected e => e.execute env ch s current
  | health => executeHealth s

/-- The events that reach the main loop from a connection once it is upgraded: the types registered
for incoming messages, and the `Disconnected` of `CloseOnError`. -/
def Event.fromClient : Event → Bool
  | connected => false
  | health => false
  | _ => true

end Screego
