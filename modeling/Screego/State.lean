import Screego.Outgoing
import Screego.Turn

/-!
# The state of the main loop

`ws/room.go`, `ws/rooms.go`, `ws/client.go`, `ws/prometheus.go`: rooms with their users and
sessions, the maps of `Rooms`, the counters, and what the handling of one message reads and leaves.

* `Room`, `User`, `RoomSession`, `Rooms`, `ClientInfo`;
* `Choice`: everything the handling of one message does not determine: the result of
  `TurnIPProvider.Get`, the order of every `range` over a map, how `sort.Slice` orders ties, the
  random numbers and the clock;
* `Send`: a message handed to a channel.
-/

namespace Screego

open Lib

/-- A `RoomSession`: `host` streams to `client`. -/
structure RoomSession where
  host : XID
  client : XID
deriving DecidableEq

/-- A `User` of a room: one connection. -/
structure User where
  id : XID
  visitorID : String
  addr : IP
  name : String
  streaming : Bool
  owner : Bool
  write : Chan
deriving DecidableEq

abbrev ConnectionMode : Type := String

def connectionLocal : ConnectionMode := "local"
def connectionSTUN : ConnectionMode := "stun"
def connectionTURN : ConnectionMode := Config.authModeTurn

structure Room where
  id : String
  closeOnOwnerLeave : Bool
  mode : ConnectionMode
  users : GoMap XID User
  sessions : GoMap XID RoomSession
deriving DecidableEq

/-- The Prometheus counters of the process. -/
structure Counters where
  roomsCreated : ℕ := 0
  roomsClosed : ℕ := 0
  usersJoined : ℕ := 0
  usersLeft : ℕ := 0
  sessionCreated : ℕ := 0
  sessionClosed : ℕ := 0
deriving DecidableEq

/-- **`Rooms`**, with the process-wide counters and the number of ids `xid.New` has returned. -/
structure Rooms where
  rooms : GoMap String Room
  connected : GoMap XID String
  turnServer : Turn.Server
  counters : Counters
  drawn : ℕ

/-- `NewRooms`. -/
def newRooms (env : Env) : Rooms where
  rooms := ∅
  connected := ∅
  turnServer := Turn.start env
  counters := {}
  drawn := 0

/-- `ClientInfo`. -/
structure ClientInfo where
  id : XID
  authenticated : Bool
  authenticatedUser : String
  write : Chan
  addr : IP
deriving DecidableEq

/-- The `range` statements over the maps of a room. -/
inductive Loop where
  | notify
  | notifyFor (current : XID)
  | nextGuestName
  | visitorOwner
  | hasVisitor
  | join
  | startShare
  | stopShare
  | disconnected
  | ownerLeft
  | closeRoom
deriving DecidableEq

/-- **What the handling of one message does not determine.** No `range` statement runs twice over
the same keys while one message is handled, so an order for every statement and set of keys is any
order at all. -/
structure Choice where
  /-- `TurnIPProvider.Get`. -/
  get : Except String (Option IP × Option IP)
  order : Loop → RangeOrder XID
  /-- How `sort.Slice` permutes ties in the list made for a recipient. -/
  ties : XID → Shuffle Outgoing.User
  /-- The numbers drawn for the password of a TURN user. -/
  draw : String → ℕ → ℕ
  /-- `time.Now().Unix()`. -/
  now : ℕ

/-- A message handed to a channel. -/
inductive Send where
  /-- To a client's write channel. -/
  | write (ch : Chan) (msg : Outgoing.Message)
  /-- To the response channel of a health check. -/
  | respond (count : ℕ)
deriving DecidableEq

end Screego
