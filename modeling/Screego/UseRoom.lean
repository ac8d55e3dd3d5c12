import Screego.Aggregate
import Screego.Lib.System

/-!
# The hook that holds a room

`useRoom` of `ui/src/useRoom.ts`: its refs and its state, the handlers of the sockets that `room` opens,
the calls of `hostSession` and `clientSession`, and sharing. `HookInput` is what can happen between two
runs of the browser's event loop; the values of the negotiation between peers are left out.

* `Frame`, `Socket`, `Session`, `Stream`: the frames, and the objects that handlers close over;
* `Hook`: the refs `conn`, `host`, `client`, `stream`, the `RoomState`, and these objects;
* `Hook.onMessage`, `Hook.onClose`, `Hook.onError`, `Hook.share`, `Hook.stopShare`, `Hook.leaveRoom`;
* `Hook.step`, `hook`: one input, and the machine.
-/

set_option autoImplicit false

namespace Screego.UseRoom

open Lib

/-! ## Frames -/

/-- `RoomInfo`, without the `share` that no server sends. -/
structure RoomInfo where
  id : String
  mode : String
  users : List RoomUser
deriving DecidableEq

/-- **`IncomingMessage`**, as `message.ts` types it. -/
inductive Frame where
  | room (payload : RoomInfo)
  | error (message : String)
  | hostSession (id peer : String)
  | clientSession (id peer : String)
  | hostICE (sid : String)
  | clientICE (sid : String)
  | hostOffer (sid : String)
  | clientAnswer (sid : String)
  | endShare (id : String)
deriving DecidableEq

/-! ## Sockets, peers and streams -/

/-- `WebSocket.readyState`. -/
inductive ReadyState where
  | connecting
  | opened
  | closing
  | closed
deriving DecidableEq

/-- A `WebSocket`, with what the handlers of one call of `room` keep. -/
structure Socket where
  readyState : ReadyState
  first : Bool
  /-- The close event has been handled. -/
  gone : Bool
  /-- The frames that have been handled. -/
  frames : List Frame
deriving DecidableEq

/-- `new WebSocket`. -/
def Socket.new : Socket := ⟨.connecting, true, false, []⟩

/-- `ws.close`. -/
def Socket.close (ws : Socket) : Socket :=
  if ws.readyState = .closed then ws else { ws with readyState := .closing }

inductive Side where
  | host
  | client
deriving DecidableEq

/-- What a call of `hostSession` or `clientSession` waits for. -/
inductive Phase where
  | applySenderQuality
  | createOffer
  | setLocalDescription
  /-- The peer was returned, and `then` is to store it. -/
  | fulfilled
  /-- The peer was stored, or the call has failed. -/
  | settled
deriving DecidableEq

/-- **A call of `hostSession` or `clientSession`**, with its `RTCPeerConnection`: the socket `ws` has
announced it. -/
structure Session where
  side : Side
  sid : String
  peerID : String
  ws : ℕ
  phase : Phase
  notified : Bool
  closed : Bool
deriving DecidableEq

/-- `peer.close`. -/
def Session.close (σ : Session) : Session := { σ with closed := true }

/-- What the call waits for next: operations on a closed peer fail. -/
def Session.next (σ : Session) : Phase :=
  match σ.phase with
  | .applySenderQuality => if σ.closed then .settled else .createOffer
  | .createOffer => if σ.closed then .settled else .setLocalDescription
  | .setLocalDescription => if σ.closed then .settled else .fulfilled
  | phase => phase

/-- A `MediaStream` of `getDisplayMedia`: which of its tracks have ended, the first video track first,
and the socket that was `conn.current` when it was captured. -/
structure Stream where
  tracks : List Bool
  room : Option ℕ
deriving DecidableEq

/-- `stream.getTracks().forEach((track) => track.stop())`. -/
def Stream.stop (S : Stream) : Stream := { S with tracks := S.tracks.map fun _ => true }

/-! ## The hook -/

/-- A `ClientStream`, with the call of `clientSession` that has made its `MediaStream`. -/
structure ClientStream where
  id : String
  session : ℕ
  peerID : String
deriving DecidableEq

/-- A `ConnectedRoom`. -/
structure ConnectedRoom where
  ws : ℕ
  info : RoomInfo
  hostStream : Option ℕ
  clientStreams : List ClientStream
deriving DecidableEq

/-- **The refs and the state of `useRoom`**, with the objects they point to. -/
structure Hook where
  conn : Option ℕ
  host : GoMap String ℕ
  client : GoMap String ℕ
  stream : Option ℕ
  /-- The `RoomState`: `none` is `false`. -/
  state : Option ConnectedRoom
  sockets : List Socket
  sessions : List Session
  streams : List Stream
  /-- The calls of `share` that wait for `getDisplayMedia`. -/
  shares : ℕ
  /-- For every call of `stopShare`, how many sessions there were. -/
  stops : List ℕ
  /-- For every `endshare`, its payload and how many sessions there were. -/
  ends : List (String × ℕ)
deriving DecidableEq

namespace Hook

def init : Hook := ⟨none, ∅, ∅, none, none, [], [], [], 0, [], []⟩

section Handlers

variable (b : Hook)

/-- `setState((current) => (current ? f(current) : current))`. -/
def setState (f : ConnectedRoom → ConnectedRoom) : Hook := { b with state := b.state.map f }

def setSocket (k : ℕ) (f : Socket → Socket) : Hook := { b with sockets := b.sockets.modify k f }

def setSession (n : ℕ) (f : Session → Session) : Hook :=
  { b with sessions := b.sessions.modify n f }

/-- `refs[key]?.close()`. -/
def closeRef (refs : GoMap String ℕ) (key : String) : Hook :=
  match refs.lookup key with
  | some n => b.setSession n Session.close
  | none => b

/-- The streams without those of the session. -/
def dropStreams (sid : String) : Hook :=
  b.setState fun current =>
    { current with clientStreams := current.clientStreams.filter fun s => s.id ≠ sid }

/-! ### Frames -/

/-- `ws.onmessage` after the first frame: the `switch` over the type. -/
def handle (k : ℕ) : Frame → Hook
  | .room payload => b.setState fun current => { current with info := payload }
  | .hostSession id peer =>
    if b.stream.isNone then b
    else { b with sessions := b.sessions ++
      [⟨.host, id, peer, k, .applySenderQuality, false, false⟩] }
  | .clientSession id peer =>
    { b with sessions := b.sessions ++ [⟨.client, id, peer, k, .fulfilled, false, false⟩] }
  | .endShare id =>
    { ((b.closeRef b.client id).closeRef b.host id).dropStreams id with
      ends := b.ends ++ [(id, b.sessions.length)] }
  -- candidates and descriptions go to the peer of the session, if there is one
  | .hostICE _ | .clientICE _ | .hostOffer _ | .clientAnswer _ | .error _ => b

/-- The first frame: a room, or an error. -/
def handleFirst (k : ℕ) : Frame → Hook
  | .room payload => { b with state := some ⟨k, payload, none, []⟩ }
  | _ => b.setSocket k Socket.close

/-- **`ws.onmessage`.** A socket that is not open delivers no frame. -/
def onMessage (k : ℕ) (event : Frame) : Hook :=
  match b.sockets[k]? with
  | none => b
  | some ws =>
    if ws.readyState ≠ .opened then b
    else
      let b := b.setSocket k fun ws => { ws with first := false, frames := ws.frames ++ [event] }
      if ws.first then b.handleFirst k event else b.handle k event

/-- `ws.onopen`: the request to enter the room goes out. -/
def onOpen (k : ℕ) : Hook :=
  b.setSocket k fun ws =>
    if ws.readyState = .connecting then { ws with readyState := .opened } else ws

/-- **`ws.onclose`.** -/
def onClose (k : ℕ) : Hook :=
  match b.sockets[k]? with
  | none => b
  | some ws =>
    if ws.gone then b
    else { b.setSocket k fun ws => { ws with readyState := .closed, first := false, gone := true } with
      state := none }

/-- **`ws.onerror`.** The socket is closed by then; its close event comes next. -/
def onError (k : ℕ) : Hook :=
  match b.sockets[k]? with
  | none => b
  | some ws =>
    if ws.readyState = .closed then b
    else { b.setSocket k fun ws => { ws with readyState := .closed, first := false } with
      state := none }

/-- `room`: the landing page calls it, or the page itself when it is loaded. -/
def room : Hook :=
  if b.state.isSome then b
  else { b with sockets := b.sockets ++ [Socket.new], conn := some b.sockets.length }

/-! ### Sessions -/

/-- `host.current[id] = peer`, `client.current[id] = peer`. -/
def register (n : ℕ) (σ : Session) : Hook :=
  match σ.side with
  | .host => { b with host := b.host.insert σ.sid n }
  | .client => { b with client := b.client.insert σ.sid n }

/-- **The promise that the `n`-th call waits for is fulfilled**, in the end the call itself. -/
def resume (n : ℕ) : Hook :=
  match b.sessions[n]? with
  | none => b
  | some σ =>
    if σ.phase = .fulfilled then (b.register n σ).setSession n fun σ => { σ with phase := .settled }
    else b.setSession n fun σ => { σ with phase := σ.next }

/-- The promise that the `n`-th call waits for is rejected. -/
def reject (n : ℕ) : Hook :=
  match b.sessions[n]? with
  | none => b
  | some σ =>
    if σ.phase = .fulfilled then b else b.setSession n fun σ => { σ with phase := .settled }

/-- `done`. -/
def done (σ : Session) : Hook :=
  match σ.side with
  | .host => { b with host := b.host.erase σ.sid }
  | .client => { b with client := b.client.erase σ.sid }.dropStreams σ.sid

/-- `peer.onconnectionstatechange`, when the connection is lost: a closed peer has no events. -/
def connectionLost (n : ℕ) : Hook :=
  match b.sessions[n]? with
  | none => b
  | some σ => if σ.closed then b else (b.setSession n Session.close).done σ

/-- `peer.ontrack` of a `clientSession`. -/
def track (n : ℕ) : Hook :=
  match b.sessions[n]? with
  | none => b
  | some σ =>
    if σ.closed || σ.notified || σ.side = .host then b
    else (b.setSession n fun σ => { σ with notified := true }).setState fun current =>
      { current with clientStreams := current.clientStreams ++ [(⟨σ.sid, n, σ.peerID⟩ : ClientStream)] }

/-! ### Sharing -/

/-- `share`, up to `getDisplayMedia`. -/
def share : Hook := { b with shares := b.shares + 1 }

/-- **`share`, when `getDisplayMedia` has captured a stream** of a video track and some others. -/
def captured (others : ℕ) : Hook :=
  if b.shares = 0 then b
  else
    { b with
      shares := b.shares - 1
      streams := b.streams ++ [(⟨List.replicate (others + 1) false, b.conn⟩ : Stream)]
      stream := some b.streams.length }.setState fun current =>
        { current with hostStream := some b.streams.length }

/-- `share`, when `getDisplayMedia` has failed. -/
def captureFailed : Hook := { b with shares := b.shares - 1 }

/-- `conn.current?.send` throws. -/
def sendThrows : Bool :=
  match b.conn.bind fun k => b.sockets[k]? with
  | some ws => ws.readyState = .connecting
  | none => false

/-- **`stopShare`.** -/
def stopShare : Hook :=
  let peers := (range RangeOrder.increasing b.host).map Prod.snd
  let b : Hook := { b with
    sessions := peers.foldl (fun sessions n => sessions.modify n Session.close) b.sessions
    host := ∅
    streams := match b.stream with
      | some s => b.streams.modify s Stream.stop
      | none => b.streams
    stream := none
    stops := b.stops ++ [b.sessions.length] }
  -- the exception leaves the rest of the function out
  if b.sendThrows then b else b.setState fun current => { current with hostStream := none }

/-- `leaveRoom` of `ui/src/Room.tsx`. An exception in `stopShare`, which is `async`, does not reach it. -/
def leaveRoom : Hook :=
  match b.state with
  | none => b
  | some current => b.stopShare.setSocket current.ws Socket.close

/-- A track ends; with the first video track, sharing does. -/
def trackEnded (s i : ℕ) : Hook :=
  match b.streams[s]? with
  | none => b
  | some S =>
    if S.tracks[i]? = some false then
      let b := { b with streams := b.streams.modify s fun S => { S with tracks := S.tracks.set i true } }
      if i = 0 then b.stopShare else b
    else b

end Handlers

end Hook

/-! ## Runs -/

/-- **What happens to the hook**: a call, an event of a socket, of a session or of a stream. -/
inductive HookInput where
  | room
  | opened (k : ℕ)
  | message (k : ℕ) (event : Frame)
  | error (k : ℕ)
  | close (k : ℕ)
  | resume (n : ℕ)
  | reject (n : ℕ)
  | connectionLost (n : ℕ)
  | track (n : ℕ)
  | share
  | captured (others : ℕ)
  | captureFailed
  | trackEnded (s i : ℕ)
  | stopShare
  | leaveRoom
deriving DecidableEq

/-- **One input.** -/
def Hook.step (b : Hook) : HookInput → Hook
  | .room => b.room
  | .opened k => b.onOpen k
  | .message k event => b.onMessage k event
  | .error k => b.onError k
  | .close k => b.onClose k
  | .resume n => b.resume n
  | .reject n => b.reject n
  | .connectionLost n => b.connectionLost n
  | .track n => b.track n
  | .share => b.share
  | .captured others => b.captured others
  | .captureFailed => b.captureFailed
  | .trackEnded s i => b.trackEnded s i
  | .stopShare => b.stopShare
  | .leaveRoom => b.leaveRoom

/-- **The machine of the hook.** -/
def hook : Machine Hook HookInput where
  init := Hook.init
  step b i := some (b.step i)

end Screego.UseRoom
