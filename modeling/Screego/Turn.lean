import Screego.Env
import Screego.Lib.Map

/-!
# TURN credentials

`turn/server.go` and `util/password.go`: the table of users the internal TURN server admits, and
the credentials an external one accepts until they expire.

* `Server.credentials`, `Server.disallow`, `Server.authenticate`;
* `Server.issued`, `Server.grant`: the two halves of `credentials` (`credentials_eq`).
-/

namespace Screego.Turn

open Lib

def realm : String := "screego"

structure Entry where
  addr : IP
  password : List UInt8
deriving DecidableEq

/-- `turn.Server`: `InternalServer` with its lookup table, or `ExternalServer`. -/
inductive Server where
  | internal (lookup : GoMap String Entry)
  | external

/-- `turn.Start`. -/
def start (env : Env) : Server := if env.config.turnExternal then .external else .internal ∅

def tokenCharacters : List Char :=
  "abcdefghijklmnopqrstuvwxyzABCDEFGHIJKLMNOPQRSTUVWXYZ0123456789.-_!@#$%^&*())\x7b\x7d\\/=+,.><".toList

/-- `util.RandString`, with `draw i` the number drawn for position `i`. -/
def randString (draw : ℕ → ℕ) (length : ℕ) : String :=
  String.ofList ((List.range length).map fun i =>
    tokenCharacters.getD (draw i % tokenCharacters.length) 'a')

namespace Server

variable (env : Env) (draw : ℕ → ℕ) (now : ℕ)

/-- `InternalServer.allow`. -/
def allow (username password : String) (addr : IP) : Server → Server
  | internal lookup =>
    internal (lookup.insert username ⟨addr, env.generateAuthKey username realm password⟩)
  | external => external

/-- `Disallow`: credentials of the external server run out by themselves. -/
def disallow (username : String) : Server → Server
  | internal lookup => internal (lookup.erase username)
  | external => external

/-- `InternalServer.authenticate`. -/
def authenticate (username : String) : Server → Option (List UInt8)
  | internal lookup => (lookup.lookup username).map Entry.password
  | external => none

/-- `Credentials`: a user name and a password for `id`. -/
def credentials (id : String) (addr : IP) : Server → (String × String) × Server
  | internal lookup =>
    let password := randString draw 20
    ((id, password), (internal lookup).allow env id password addr)
  | external =>
    -- the user name carries the time, one day ahead, at which the external server drops it
    let username := toString (now + 24 * 3600) ++ ":" ++ id
    ((username, env.sign username), external)

/-! ## The two halves of `credentials` -/

/-- The user name and password handed out for `id`. -/
def issued (id : String) (s : Server) : String × String := (s.credentials env draw now id []).1

/-- The server after handing out credentials for `id`. -/
def grant (id : String) (addr : IP) : Server → Server :=
  fun s => s.allow env id (randString draw 20) addr

theorem credentials_eq (id : String) (addr : IP) (s : Server) :
    s.credentials env draw now id addr = (s.issued env draw now id, s.grant env draw id addr) := by
  cases s <;> rfl

/-- The server is the internal one. -/
def isInternal : Server → Bool
  | internal _ => true
  | external => false

@[simp] theorem isInternal_grant (id : String) (addr : IP) (s : Server) :
    (s.grant env draw id addr).isInternal = s.isInternal := by
  cases s <;> rfl

@[simp] theorem isInternal_disallow (id : String) (s : Server) :
    (s.disallow id).isInternal = s.isInternal := by
  cases s <;> rfl

theorem authenticate_grant (id : String) (addr : IP) {s : Server} (hs : s.isInternal = true)
    (name : String) : (s.grant env draw id addr).authenticate name =
      if name = id then some (env.generateAuthKey id realm (randString draw 20))
      else s.authenticate name := by
  cases s with
  | internal lookup =>
    simp only [grant, allow, authenticate, GoMap.lookup_insert_ite]
    split_ifs <;> rfl
  | external => exact absurd hs Bool.false_ne_true

theorem authenticate_disallow (id : String) (s : Server) (name : String) :
    (s.disallow id).authenticate name = if name = id then none else s.authenticate name := by
  cases s with
  | internal lookup =>
    simp only [disallow, authenticate, GoMap.lookup_erase_ite]
    split_ifs <;> rfl
  | external => simp [disallow, authenticate]

@[simp] theorem issued_grant (id id' : String) (addr : IP) (draw' : ℕ → ℕ) (s : Server) :
    (s.grant env draw' id' addr).issued env draw now id = s.issued env draw now id := by
  cases s <;> rfl

end Server

end Screego.Turn
