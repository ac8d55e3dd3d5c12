import Screego.Lib.Json
import Screego.Outgoing

/-!
# Frames

`ToTypedOutgoing` of `ws/readwrite.go`: an outgoing message as a frame, with the types of
`ws/outgoing/messages.go` as `encoding/json` sees them.

* `xidType`: `xid.ID` marshals as its text; `endShareType` is a new type defined from it;
* `Message.payload`, `toTypedOutgoing`;
* `payload_endShare`, `id_hostSession`, `id_clientSession`: how a session is named.
-/

set_option autoImplicit false

namespace Screego

open Lib

namespace Outgoing

/-! ## The Go types -/

section Types

variable (env : Env)

/-- `xid.ID`: twelve bytes, with a marshalling method that gives the text. -/
def xidType : GoType XID where
  kind id := .arr ((List.finRange 12).map fun i => .num (env.xidBytes id i).toNat)
  marshalJSON := some fun id => .str (env.xidString id)

/-- A `[]string`: a slice that nothing was appended to is nil, and `null`. -/
def stringsType : GoType (List String) := .plain fun
  | [] => .null
  | l => .arr (l.map .str)

def iceServerType : GoType ICEServer := .plain fun m =>
  .obj [("urls", stringsType.marshal m.urls), ("credential", .str m.credential),
    ("username", .str m.username)]

/-- `HostSession` and `ClientSession`. -/
def sessionType : GoType P2PSession := .plain fun m =>
  .obj [("id", (xidType env).marshal m.id), ("peer", (xidType env).marshal m.peer),
    ("iceServers", .arr (m.iceServers.map iceServerType.marshal))]

/-- `P2PMessage`: the value is text that is passed on, `raw` what it parses to. -/
def p2pMessageType (raw : String → Json) : GoType P2PMessage := .plain fun m =>
  .obj [("sid", (xidType env).marshal m.sid), ("value", raw m.value)]

def userType : GoType User := .plain fun m =>
  .obj [("id", (xidType env).marshal m.id), ("name", .str m.name), ("visitorId", .str m.visitorID),
    ("streaming", .bool m.streaming), ("you", .bool m.you), ("owner", .bool m.owner)]

def roomType : GoType Room := .plain fun m =>
  .obj [("id", .str m.id), ("mode", .str m.mode), ("users", .arr (m.users.map (userType env).marshal))]

/-- `type EndShare xid.ID`. -/
def endShareType : GoType XID := (xidType env).defined

/-! ## Frames -/

variable (raw : String → Json)

/-- `json.Marshal` of a message. -/
def Message.payload : Message → Json
  | room m => (roomType env).marshal m
  | hostSession m => (sessionType env).marshal m
  | clientSession m => (sessionType env).marshal m
  | hostICE m => (p2pMessageType env raw).defined.marshal m
  | clientICE m => (p2pMessageType env raw).defined.marshal m
  | clientAnswer m => (p2pMessageType env raw).defined.marshal m
  | hostOffer m => (p2pMessageType env raw).defined.marshal m
  | endShare id => (endShareType env).marshal id
  | closeWriter code reason => .obj [("Code", .num code), ("Reason", .str reason)]

end Types

end Outgoing

open Outgoing

/-- `Typed`. -/
structure Typed where
  type : String
  payload : Json

section Frames

variable (env : Env) (raw : String → Json)

/-- **`ToTypedOutgoing`.** No message fails to marshal: a raw value was part of a text that parsed. -/
def toTypedOutgoing (m : Message) : Typed := ⟨m.type, m.payload env raw⟩

/-- An `EndShare` is its bytes. -/
theorem payload_endShare (sid : XID) : (toTypedOutgoing env raw (.endShare sid)).payload =
    .arr ((List.finRange 12).map fun i => .num (env.xidBytes sid i).toNat) := rfl

/-- A `HostSession` names its session by its text. -/
theorem id_hostSession (m : P2PSession) :
    (toTypedOutgoing env raw (.hostSession m)).payload.field "id" = some (.str (env.xidString m.id)) :=
  rfl

theorem id_clientSession (m : P2PSession) :
    (toTypedOutgoing env raw (.clientSession m)).payload.field "id" =
      some (.str (env.xidString m.id)) := rfl

theorem peer_clientSession (m : P2PSession) :
    (toTypedOutgoing env raw (.clientSession m)).payload.field "peer" =
      some (.str (env.xidString m.peer)) := rfl

end Frames

end Screego
