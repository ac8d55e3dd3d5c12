import Mathlib.Data.Nat.Basic
import Mathlib.Order.Lattice
import Mathlib.Data.List.Basic
import Mathlib.Tactic.Basic

/-!
# What the server runs in

Ids, addresses and channels, and the functions of packages outside the repository.

* `XID`, `IP`, `Chan`: values the code stores, compares and passes on;
* `Config`: the settings the modelled functions read;
* `Env`: the configuration and the outside functions `rs/xid`, `net.IP.String` and
  `turn.GenerateAuthKey`, with what the code relies on.
-/

namespace Screego

/-- `xid.ID`. The code compares, stores and prints ids; there is no bound on them, so that
`xid.New` can return a new one in a run of any length. -/
structure XID where
  serial : ℕ
deriving DecidableEq, Inhabited

theorem XID.serial_injective : Function.Injective XID.serial := fun a b h => by
  cases a; cases b; exact congrArg _ h

instance : LinearOrder XID := LinearOrder.lift' XID.serial XID.serial_injective

/-- `net.IP`: the bytes of an address. -/
abbrev IP : Type := List UInt8

/-- The write channel `newClient` makes for a connection. -/
structure Chan where
  owner : XID
deriving DecidableEq

/-- The settings of `config.Config` that the modelled functions read. -/
structure Config where
  authMode : String
  turnPort : String
  turnExternal : Bool

namespace Config

def authModeTurn : String := "turn"
def authModeAll : String := "all"
def authModeNone : String := "none"

end Config

/-- The characters of a printed `xid.ID`. -/
def xidAlphabet : List Char := "0123456789abcdefghijklmnopqrstuv".toList

/-- **The configuration and the outside functions.** -/
structure Env where
  config : Config
  /-- The results of `xid.New`, in the order of the calls. -/
  xidNew : ℕ → XID
  xidNew_injective : Function.Injective xidNew
  /-- `xid.ID.String`. -/
  xidString : XID → String
  xidString_injective : Function.Injective xidString
  xidString_ne_empty : ∀ id, xidString id ≠ ""
  xidString_alphabet : ∀ id, ∀ c ∈ (xidString id).toList, c ∈ xidAlphabet
  /-- The twelve bytes of an `xid.ID`. -/
  xidBytes : XID → Fin 12 → UInt8
  /-- `net.IP.String`. -/
  ipString : IP → String
  /-- `turn.GenerateAuthKey(username, realm, password)`. -/
  generateAuthKey : String → String → String → List UInt8
  /-- The base64 text of the HMAC-SHA1 of a user name under the external TURN server's secret. -/
  sign : String → String

/-- The id was returned by one of the first `n` calls of `xid.New`. -/
def Env.Drawn (env : Env) (n : ℕ) (id : XID) : Prop := ∃ i < n, env.xidNew i = id

namespace Env

variable {env : Env} {n m : ℕ} {id : XID}

theorem Drawn.mono (h : env.Drawn n id) (hnm : n ≤ m) : env.Drawn m id := by
  obtain ⟨i, hi, e⟩ := h
  exact ⟨i, by omega, e⟩

theorem drawn_xidNew {i : ℕ} : env.Drawn n (env.xidNew i) ↔ i < n := by
  refine ⟨fun ⟨j, hj, e⟩ => ?_, fun h => ⟨i, h, rfl⟩⟩
  exact env.xidNew_injective e ▸ hj

end Env

end Screego
