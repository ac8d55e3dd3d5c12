import Screego.Env

/-!
# Messages to the browser

`ws/outgoing/messages.go`: the messages the main loop hands to a client's write channel. The value
of a `P2PMessage` is raw JSON that the server passes on unread.
-/

namespace Screego.Outgoing

/-- A member as one recipient sees it. -/
structure User where
  id : XID
  name : String
  visitorID : String
  streaming : Bool
  you : Bool
  owner : Bool
deriving DecidableEq

structure Room where
  id : String
  mode : String
  users : List User
deriving DecidableEq

structure ICEServer where
  urls : List String
  credential : String
  username : String
deriving DecidableEq

/-- The fields of `HostSession` and of `ClientSession`. -/
structure P2PSession where
  id : XID
  peer : XID
  iceServers : List ICEServer
deriving DecidableEq

structure P2PMessage where
  sid : XID
  value : String
deriving DecidableEq

/-- **The outgoing messages.** -/
inductive Message where
  | room (m : Room)
  | hostSession (m : P2PSession)
  | clientSession (m : P2PSession)
  | hostICE (m : P2PMessage)
  | clientICE (m : P2PMessage)
  | clientAnswer (m : P2PMessage)
  | hostOffer (m : P2PMessage)
  | endShare (id : XID)
  | closeWriter (code : ℕ) (reason : String)
deriving DecidableEq

/-- `Message.Type`. -/
def Message.type : Message → String
  | room _ => "room"
  | hostSession _ => "hostsession"
  | clientSession _ => "clientsession"
  | hostICE _ => "hostice"
  | clientICE _ => "clientice"
  | clientAnswer _ => "clientanswer"
  | hostOffer _ => "hostoffer"
  | endShare _ => "endshare"
  | closeWriter _ _ => "closewriter"

/-- The message announces the session `id`. -/
def Message.Announces (id : XID) : Message → Prop
  | hostSession m => m.id = id
  | clientSession m => m.id = id
  | _ => False

instance (id : XID) : DecidablePred (Message.Announces id) := fun m => by
  cases m <;> unfold Message.Announces <;> infer_instance

/-- The message closes the client's writer. -/
def Message.IsClose : Message → Prop
  | closeWriter _ _ => True
  | _ => False

instance : DecidablePred Message.IsClose := fun m => by
  cases m <;> unfold Message.IsClose <;> infer_instance

end Screego.Outgoing
