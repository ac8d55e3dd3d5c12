import Screego.Frames
import Screego.UseRoom

/-!
# From the server to the hook

`JSON.parse` of a frame in `ws.onmessage`: the frames that `toTypedOutgoing` makes, as the browser reads
them.

* `Frame.ofTyped`: a frame with the types of `message.ts`;
* `frame`: what a message of the server is to the hook; **`ofTyped_toTypedOutgoing`**.
-/

set_option autoImplicit false

namespace Screego

open Lib Outgoing UseRoom

/-! ## Frames -/

/-- A `RoomUser` out of an object. -/
def RoomUser.ofJson (j : Json) : Option RoomUser := do
  some
    { id := ← (← j.field "id").asString
      name := ← (← j.field "name").asString
      visitorId := (j.field "visitorId").bind Json.asString
      streaming := ← (← j.field "streaming").asBool
      you := ← (← j.field "you").asBool
      owner := ← (← j.field "owner").asBool }

/-- A `RoomInfo` out of an object. -/
def UseRoom.RoomInfo.ofJson (j : Json) : Option RoomInfo := do
  some
    { id := ← (← j.field "id").asString
      mode := ← (← j.field "mode").asString
      users := ← (← (← j.field "users").asArray).mapM RoomUser.ofJson }

/-- The `id` and the `peer` of a `P2PSession`. -/
def sessionOfJson (j : Json) : Option (String × String) := do
  some (← (← j.field "id").asString, ← (← j.field "peer").asString)

/-- The `sid` of a `P2PMessage`. -/
def sidOfJson (j : Json) : Option String := do (← j.field "sid").asString

/-- **An `IncomingMessage`.** The payload of an `EndShare` is used as a property key only. -/
def UseRoom.Frame.ofTyped (event : Typed) : Option Frame :=
  match event.type with
  | "room" => (RoomInfo.ofJson event.payload).map .room
  | "Error" => do some (.error (← (← event.payload.field "message").asString))
  | "hostsession" => (sessionOfJson event.payload).map fun p => .hostSession p.1 p.2
  | "clientsession" => (sessionOfJson event.payload).map fun p => .clientSession p.1 p.2
  | "hostice" => (sidOfJson event.payload).map .hostICE
  | "clientice" => (sidOfJson event.payload).map .clientICE
  | "hostoffer" => (sidOfJson event.payload).map .hostOffer
  | "clientanswer" => (sidOfJson event.payload).map .clientAnswer
  | "endshare" => some (.endShare event.payload.text)
  | _ => none

variable (env : Env) (raw : String → Json)

/-- The member list as the browser parses it. -/
def roomInfo (m : Outgoing.Room) : RoomInfo := ⟨m.id, m.mode, m.users.map (roomUser env)⟩

/-- **What a message of the server is to the hook.** -/
def frame : Message → Option Frame
  | .room m => some (.room (roomInfo env m))
  | .hostSession m => some (.hostSession (env.xidString m.id) (env.xidString m.peer))
  | .clientSession m => some (.clientSession (env.xidString m.id) (env.xidString m.peer))
  | .hostICE m => some (.hostICE (env.xidString m.sid))
  | .clientICE m => some (.clientICE (env.xidString m.sid))
  | .hostOffer m => some (.hostOffer (env.xidString m.sid))
  | .clientAnswer m => some (.clientAnswer (env.xidString m.sid))
  | .endShare id => some (.endShare ((endShareType env).marshal id).text)
  | .closeWriter _ _ => none

theorem ofJson_userType (y : Outgoing.User) :
    RoomUser.ofJson ((userType env).marshal y) = some (roomUser env y) := rfl

theorem ofJson_roomType (m : Outgoing.Room) :
    RoomInfo.ofJson ((roomType env).marshal m) = some (roomInfo env m) := by
  have husers : (m.users.map (userType env).marshal).mapM RoomUser.ofJson =
      some (m.users.map (roomUser env)) := by
    induction m.users with
    | nil => rfl
    | cons y users ih => simp [ofJson_userType, ih]
  have hfields : RoomInfo.ofJson ((roomType env).marshal m) =
      ((m.users.map (userType env).marshal).mapM RoomUser.ofJson).map (RoomInfo.mk m.id m.mode) := by
    cases h : (m.users.map (userType env).marshal).mapM RoomUser.ofJson <;>
      simp [RoomInfo.ofJson, roomType, GoType.plain, GoType.marshal, Json.field, Json.asString,
        Json.asArray, h, List.lookup_cons]
  rw [hfields, husers]
  rfl

/-- **Every message is read as it is meant.** -/
theorem ofTyped_toTypedOutgoing (m : Message) :
    Frame.ofTyped (toTypedOutgoing env raw m) = frame env m := by
  cases m with
  | room m => exact congrArg (Option.map Frame.room) (ofJson_roomType env m)
  | _ => rfl

theorem frame_eq_none {m : Message} : frame env m = none ↔ m.IsClose := by
  cases m <;> simp [frame, Message.IsClose]

end Screego
