import Screego.Lib.Text
import Screego.State

/-!
# Rooms

`ws/room.go`, `ws/room_id.go`, `ws/visitor.go`: the methods of a room.

* `normalizeRoomID`, `normalizeVisitorID`, `Room.nextGuestName`, `Room.visitorOwner`,
  `Room.hasVisitor`;
* `Room.notifyInfoChanged`: the member list for every member;
* `newSession`, `closeSession` on a `Live` state: the room a handler works on, the server around it
  and the messages handed out so far. A lookup of a user that is not there is the nil dereference
  of the code: `none`.
-/

namespace Screego

open Lib

/-! ## Identifiers -/

def minRoomIDLength : ℕ := 4

/-- `normalizeRoomID`. -/
def normalizeRoomID (id : String) : Except String String :=
  let normalized := trimSpace id
  if normalized.utf8ByteSize < minRoomIDLength then
    .error ("room id must be at least " ++ toString minRoomIDLength ++ " characters")
  else .ok normalized

theorem normalizeRoomID_eq_ok {id R : String} :
    normalizeRoomID id = .ok R ↔ trimSpace id = R ∧ minRoomIDLength ≤ R.utf8ByteSize := by
  simp only [normalizeRoomID]
  split_ifs with hlen
  · simp only [false_iff, not_and, not_le]
    rintro rfl
    exact hlen
  · simp only [Except.ok.injEq, iff_self_and]
    rintro rfl
    omega

/-- A normalised room ID is its own normal form. -/
theorem normalizeRoomID_idem {id R : String} (h : normalizeRoomID id = .ok R) :
    normalizeRoomID R = .ok R := by
  obtain ⟨rfl, hlen⟩ := normalizeRoomID_eq_ok.mp h
  exact normalizeRoomID_eq_ok.mpr ⟨trimSpace_idem id, hlen⟩

/-- `normalizeVisitorID`. -/
def normalizeVisitorID (env : Env) (visitorID : String) (fallback : XID) : String :=
  let normalized := trimSpace visitorID
  if normalized = "" then env.xidString fallback else normalized

def guestName (index : ℕ) : String := "访客" ++ toString index

/-- The loop of `nextGuestName` from `index` on. Among `used.length + 1` names one is free, so the
loop ends within `used.length` further rounds. -/
def guestLoop (used : List String) : ℕ → ℕ → String
  | 0, index => guestName index
  | rounds + 1, index =>
    if guestName index ∈ used then guestLoop used rounds (index + 1) else guestName index

namespace Room

variable (env : Env) (ch : Choice) (r : Room)

/-- `Room.nextGuestName`. -/
def nextGuestName (visitorID : String) : String :=
  let users := (range (ch.order .nextGuestName) r.users).map Prod.snd
  let known : GoMap String String := users.foldl
    (fun known user => if user.visitorID ≠ "" then known.insert user.visitorID user.name else known) ∅
  let used := users.map User.name
  let name := (known.lookup visitorID).getD ""
  if name ≠ "" then name else guestLoop used used.length 1

/-- `Room.visitorOwner`. -/
def visitorOwner (visitorID : String) : Bool :=
  if visitorID = "" then false
  else (range (ch.order .visitorOwner) r.users).any fun e => e.2.visitorID = visitorID && e.2.owner

/-- `Room.hasVisitor`. -/
def hasVisitor (visitorID : String) : Bool :=
  if visitorID = "" then false
  else (range (ch.order .hasVisitor) r.users).any fun e => e.2.visitorID = visitorID

variable {ch r}

theorem visitorOwner_iff {v : String} : r.visitorOwner ch v = true ↔
    v ≠ "" ∧ ∃ c u, r.users.lookup c = some u ∧ u.visitorID = v ∧ u.owner = true := by
  unfold visitorOwner
  split_ifs with hv
  · simp [hv]
  · simp only [any_range, Bool.and_eq_true, decide_eq_true_eq, ne_eq, hv, not_false_eq_true,
      true_and]

theorem hasVisitor_iff {v : String} : r.hasVisitor ch v = true ↔
    v ≠ "" ∧ ∃ c u, r.users.lookup c = some u ∧ u.visitorID = v := by
  unfold hasVisitor
  split_ifs with hv
  · simp [hv]
  · simp only [any_range, decide_eq_true_eq, ne_eq, hv, not_false_eq_true, true_and]

variable (ch r)

/-! ## The member list -/

/-- `sameVisitor`, on map entries: two entries hold the same pointer when their keys are equal. -/
def sameVisitor (current user : XID × User) : Bool :=
  current.1 = user.1 || (current.2.visitorID ≠ "" && current.2.visitorID = user.2.visitorID)

/-- `user` as `current` sees it. -/
def outgoingUser (current user : XID × User) : Outgoing.User where
  id := user.2.id
  name := user.2.name
  visitorID := user.2.visitorID
  streaming := user.2.streaming
  you := sameVisitor current user
  owner := user.2.owner

/-- The order of the member list: owners, then streamers, then by name. -/
def lessUser (left right : Outgoing.User) : Bool :=
  if left.owner ≠ right.owner then left.owner
  else if left.streaming ≠ right.streaming then left.streaming
  else left.name < right.name

/-- The `Room` message for `current`. -/
def infoFor (current : XID × User) : Outgoing.Room where
  id := r.id
  mode := ""
  users := sortSlice (ch.ties current.1) lessUser
    ((range (ch.order (.notifyFor current.1)) r.users).map (outgoingUser current))

/-- **`Room.notifyInfoChanged`.** -/
def notifyInfoChanged : List Send :=
  (range (ch.order .notify) r.users).map fun current =>
    .write current.2.write (.room (r.infoFor ch current))

end Room

/-! ## Sessions -/

/-- `Rooms.addresses`. -/
def addresses (env : Env) (scheme : String) (v4 v6 : Option IP) (tcp : Bool) : List String :=
  let url (host : String) : List String :=
    let plain := scheme ++ ":" ++ host ++ ":" ++ env.config.turnPort
    if tcp then [plain, plain ++ "?transport=tcp"] else [plain]
  (match v4 with
    | some ip => url (env.ipString ip)
    | none => []) ++
  (match v6 with
    | some ip => url ("[" ++ env.ipString ip ++ "]")
    | none => [])

/-- The room a handler works on, the server around it, and the messages handed out so far. -/
structure Live where
  room : Room
  rooms : Rooms
  sent : List Send

namespace Live

variable (env : Env) (ch : Choice)

/-- The `switch` of `newSession`: the ICE servers for both sides and the TURN server after it. -/
def iceServers (v4 v6 : Option IP) (id host client : XID) (st : Live) :
    Option (List Outgoing.ICEServer × List Outgoing.ICEServer × Turn.Server) :=
  let turn := st.rooms.turnServer
  if st.room.mode = connectionLocal then some ([], [], turn)
  else if st.room.mode = connectionSTUN then
    let ice : Outgoing.ICEServer := ⟨addresses env "stun" v4 v6 false, "", ""⟩
    some ([ice], [ice], turn)
  else if st.room.mode = connectionTURN then do
    let hostID := env.xidString id ++ "host"
    let clientID := env.xidString id ++ "client"
    let hostUser ← st.room.users.lookup host
    let ((hostName, hostPW), turn) := turn.credentials env (ch.draw hostID) ch.now hostID hostUser.addr
    let clientUser ← st.room.users.lookup client
    let ((clientName, clientPW), turn) :=
      turn.credentials env (ch.draw clientID) ch.now clientID clientUser.addr
    some ([⟨addresses env "turn" v4 v6 true, hostPW, hostName⟩],
      [⟨addresses env "turn" v4 v6 true, clientPW, clientName⟩], turn)
  else some ([], [], turn)

/-- **`Room.newSession`.** -/
def newSession (host client : XID) (v4 v6 : Option IP) (st : Live) : Option Live := do
  let id := env.xidNew st.rooms.drawn
  let room := { st.room with sessions := st.room.sessions.insert id ⟨host, client⟩ }
  let counters := { st.rooms.counters with sessionCreated := st.rooms.counters.sessionCreated + 1 }
  let (iceHost, iceClient, turnServer) ← st.iceServers env ch v4 v6 id host client
  let hostUser ← room.users.lookup host
  let clientUser ← room.users.lookup client
  some {
    room
    rooms := { st.rooms with turnServer, counters, drawn := st.rooms.drawn + 1 }
    sent := st.sent ++ [.write hostUser.write (.hostSession ⟨id, client, iceHost⟩),
      .write clientUser.write (.clientSession ⟨id, host, iceClient⟩)] }

/-- **`Room.closeSession`.** -/
def closeSession (id : XID) (st : Live) : Live :=
  let turnServer :=
    if st.room.mode = connectionTURN then
      (st.rooms.turnServer.disallow (env.xidString id ++ "host")).disallow
        (env.xidString id ++ "client")
    else st.rooms.turnServer
  let counters := { st.rooms.counters with sessionClosed := st.rooms.counters.sessionClosed + 1 }
  { st with
    room := { st.room with sessions := st.room.sessions.erase id }
    rooms := { st.rooms with turnServer, counters } }

end Live

/-! ## The maps of `Rooms` -/

namespace Rooms

/-- `Rooms.CurrentRoom`, with the key of the room. -/
def currentRoom (s : Rooms) (current : XID) : Except String (String × Room) :=
  match s.connected.lookup current with
  | none => .error "not connected"
  | some roomID =>
    if roomID = "" then .error "not in a room"
    else match s.rooms.lookup roomID with
      | none => .error ("room with id " ++ roomID ++ " does not exist")
      | some room => .ok (roomID, room)

/-- What a handler did to the room it got from the map under `roomID`. -/
def store (s : Rooms) (roomID : String) (room : Room) : Rooms :=
  { s with rooms := s.rooms.insert roomID room }

/-- **`Rooms.closeRoom`.** -/
def closeRoom (env : Env) (ch : Choice) (roomID : String) (s : Rooms) : Rooms :=
  match s.rooms.lookup roomID with
  | none => s
  | some room =>
    let counters := { s.counters with usersLeft := s.counters.usersLeft + GoMap.len room.users }
    let st := (range (ch.order .closeRoom) room.sessions).foldl
      (fun st e => st.closeSession env e.1) (⟨room, { s with counters }, []⟩ : Live)
    let counters := { st.rooms.counters with roomsClosed := st.rooms.counters.roomsClosed + 1 }
    { st.rooms with rooms := st.rooms.rooms.erase roomID, counters }

end Rooms

end Screego
