import Screego.Events
import Screego.Lib.Past
import Screego.Lib.System

/-!
# The main loop and its runs

`ws/rooms.go`: the loop of `Rooms.Start`, the connections `Upgrade` feeds to it, and the history of
what the clients said and were told.

* `Rooms.handle`: the body of the loop;
* `World`, `World.step`: a new connection, a message of a connection, or a health check;
* `server env`: the machine whose runs are the runs of the main loop;
* `World.view`, `World.log`: what one client said and heard, and what it heard.
-/

namespace Screego

open Lib Outgoing

/-- `ClientMessage`. -/
structure ClientMessage where
  info : ClientInfo
  skipConnectedCheck : Bool
  incoming : Event

/-- **The body of the loop of `Rooms.Start`.** -/
def Rooms.handle (env : Env) (ch : Choice) (s : Rooms) (msg : ClientMessage) :
    Option (Rooms × List Send) :=
  if !msg.skipConnectedCheck && (s.connected.lookup msg.info.id).isNone then some (s, [])
  else do
    let out ← msg.incoming.execute env ch s msg.info
    match out.err with
    | none => some (out.rooms, out.sent)
    | some reason =>
      let dis : Disconnected := ⟨closeNormalClosure, reason⟩
      let (s, sent) := dis.executeNoError env ch out.rooms msg.info
      some (s, out.sent ++ sent)

/-- What happened, in the order of the main loop. -/
inductive Item where
  | got (c : XID) (e : Event)
  | sent (send : Send)

/-- **The server with its connections**: `clients` are the infos held by the goroutines of the
connections upgraded so far. -/
structure World where
  rooms : Rooms
  clients : GoMap XID ClientInfo
  history : List Item

/-- What reaches the main loop next. -/
inductive Input where
  /-- A connection is upgraded; its `Connected` is the first message it sends. -/
  | upgrade (addr : IP) (user : String) (authenticated : Bool)
  /-- A message of a connection. -/
  | receive (c : XID) (e : Event) (fromClient : e.fromClient = true)
  /-- `Rooms.Count`. -/
  | count

/-- The info `newClient` makes. -/
def newClientInfo (id : XID) (addr : IP) (user : String) (authenticated : Bool) : ClientInfo where
  id := id
  authenticated := authenticated
  authenticatedUser := user
  write := ⟨id⟩
  addr := addr

/-- The zero `ClientInfo` of a health check. -/
def noClientInfo : ClientInfo := newClientInfo default [] "" false

namespace World

variable (env : Env)

def init : World := ⟨newRooms env, ∅, []⟩

/-- The world after the main loop has handled a message. -/
def after (w : World) (items : List Item) (result : Rooms × List Send) : World where
  rooms := result.1
  clients := w.clients
  history := w.history ++ items ++ result.2.map .sent

/-- **One message of the main loop.** -/
def step (w : World) (i : Choice × Input) : Option World :=
  match i.2 with
  | .upgrade addr user authenticated =>
    let info := newClientInfo (env.xidNew w.rooms.drawn) addr user authenticated
    let s := { w.rooms with drawn := w.rooms.drawn + 1 }
    (s.handle env i.1 ⟨info, true, .connected⟩).map
      ({ w with clients := w.clients.insert info.id info }.after [])
  | .receive c e _ =>
    match w.clients.lookup c with
    | none => some w
    | some info => (w.rooms.handle env i.1 ⟨info, false, e⟩).map (w.after [.got c e])
  | .count => (w.rooms.handle env i.1 ⟨noClientInfo, true, .health⟩).map (w.after [])

end World

/-- **The main loop.** -/
def server (env : Env) : Machine World (Choice × Input) where
  init := World.init env
  step := World.step env

/-! ## The view of one client -/

/-- What one client said or heard. -/
inductive Seen where
  | said (e : Event)
  | heard (m : Message)

/-- The message, when it went to the write channel of `u`. -/
def Send.heardBy (u : XID) : Send → Option Message
  | .write ch m => if ch = ⟨u⟩ then some m else none
  | .respond _ => none

/-- The message of an item, when it went to the write channel of `u`. -/
def Item.heardBy (u : XID) : Item → Option Message
  | .got _ _ => none
  | .sent x => x.heardBy u

/-- The part of an item that is the client `u`'s. -/
def Item.seenBy (u : XID) : Item → Option Seen
  | .got c e => if c = u then some (.said e) else none
  | .sent x => (x.heardBy u).map .heard

/-- **What `u` said and heard**, in order. -/
def World.view (w : World) (u : XID) : List Seen := w.history.filterMap (Item.seenBy u)

/-- **The log of `u`**: the messages handed to its write channel, in order. -/
def World.log (w : World) (u : XID) : List Message := w.history.filterMap (Item.heardBy u)

/-- Everything handed to channels, in order. -/
def World.sends (w : World) : List Send :=
  w.history.filterMap fun
    | .got _ _ => none
    | .sent x => some x

end Screego
