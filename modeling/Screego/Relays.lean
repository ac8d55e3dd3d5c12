import Screego.Lib.Ip
import Screego.Settings

/-!
# Relay sockets

`turn/none.go`, `turn/portrange.go`, `turn/server.go`: how the TURN server gets the socket of a relay.

* `Net`: the UDP sockets, and the ports asked for so far; `listenPacket`;
* `System`: what random numbers and the system answer during one allocation;
* `RelayAddressGeneratorPortRange.allocatePacketConn`, `RelayAddressGeneratorNone.allocatePacketConn`,
  `Generator.allocatePacketConn`, `generator`; a panic is `none`;
* `Listens`: what the inner generators do, whether a port can be had or not.
-/

set_option autoImplicit false

namespace Screego

open Lib

/-! ## Sockets -/

/-- `net.UDPAddr`. The address of a relay may be the nil one. -/
structure UDPAddr where
  ip : Option IP
  port : ℕ
deriving DecidableEq

/-- An open socket. Sockets are told apart by their place in the order of opening. -/
structure PacketConn where
  serial : ℕ
  localAddr : UDPAddr
deriving DecidableEq

/-- **The UDP sockets.** -/
structure Net where
  /-- How many sockets have been opened. -/
  opened : ℕ := 0
  sockets : List PacketConn := []
  /-- The ports asked for. -/
  listened : List ℤ := []
deriving DecidableEq

/-- Where a socket for the port ends up, if the system has nothing against it: port 0 leaves the
choice to the system. -/
def boundTo (addr : UDPAddr) (port : ℤ) : UDPAddr :=
  if port = 0 then addr else { addr with port := port.toNat }

/-- The port can be had: it is one, the system has nothing against it and no socket uses it. -/
def Net.Free (net : Net) (answer : Except String UDPAddr) (port : ℤ) : Prop :=
  0 ≤ port ∧ port ≤ 65535 ∧ ∃ addr, answer = .ok addr ∧
    ∀ c ∈ net.sockets, c.localAddr.port ≠ (boundTo addr port).port

/-- `net.ListenPacket("udp", ":port")`, with the answer of the system. -/
def listenPacket (answer : Except String UDPAddr) (port : ℤ) (net : Net) :
    Except String PacketConn × Net :=
  let asked := { net with listened := net.listened ++ [port] }
  if port < 0 ∨ 65535 < port then (.error "invalid port", asked)
  else match answer with
    | .error err => (.error err, asked)
    | .ok addr =>
      let laddr := boundTo addr port
      if net.sockets.any (·.localAddr.port = laddr.port) then
        (.error "bind: address already in use", asked)
      else
        let conn : PacketConn := ⟨net.opened, laddr⟩
        (.ok conn, { asked with opened := net.opened + 1, sockets := conn :: net.sockets })

/-! ## The inner generators -/

/-- What is left open by an allocation: the `n`-th random number, and the answer to the `n`-th
`net.ListenPacket`. -/
structure System where
  draw : ℕ → ℕ
  answer : ℕ → Except String UDPAddr

/-- The three results of `AllocatePacketConn`. -/
structure Allocation where
  conn : Option PacketConn
  addr : Option UDPAddr
  err : Option String
deriving DecidableEq

/-- `return nil, nil, err`, or the new socket with its address. -/
def Allocation.listened : Except String PacketConn → Allocation
  | .error err => ⟨none, none, some err⟩
  | .ok conn => ⟨some conn, some conn.localAddr, none⟩

/-- `Rand.Intn(n)`: any number below `n`; a panic if there is none. -/
def intn (draw n : ℕ) : Option ℕ := if n = 0 then none else some (draw % n)

structure RelayAddressGeneratorPortRange where
  minPort : UInt16
  maxPort : UInt16
deriving DecidableEq

namespace RelayAddressGeneratorPortRange

variable (r : RelayAddressGeneratorPortRange)

/-- The argument of `Rand.Intn`. -/
def span : ℕ := ((r.maxPort + 1) - r.minPort).toNat

/-- The port for a result of `Rand.Intn`. -/
def port (k : ℕ) : UInt16 := r.minPort + UInt16.ofNat k

/-- The `for` loop, `n` rounds after its beginning. -/
def tryPorts (sys : System) : ℕ → ℕ → Net → Option (Allocation × Net)
  | 0, _, net => some (⟨none, none, some "could not find free port: max retries exceeded"⟩, net)
  | rounds + 1, n, net => do
    let k ← intn (sys.draw n) r.span
    match listenPacket (sys.answer n) (r.port k).toNat net with
    | (.error _, net) => tryPorts sys rounds (n + 1) net
    | (.ok conn, net) => some (.listened (.ok conn), net)

/-- **`RelayAddressGeneratorPortRange.AllocatePacketConn`.** -/
def allocatePacketConn (sys : System) (requestedPort : ℤ) (net : Net) : Option (Allocation × Net) :=
  if requestedPort ≠ 0 then
    let (result, net) := listenPacket (sys.answer 0) requestedPort net
    some (.listened result, net)
  else r.tryPorts sys 10 0 net

end RelayAddressGeneratorPortRange

/-- **`RelayAddressGeneratorNone.AllocatePacketConn`.** -/
def RelayAddressGeneratorNone.allocatePacketConn (sys : System) (requestedPort : ℤ) (net : Net) :
    Option (Allocation × Net) :=
  let (result, net) := listenPacket (sys.answer 0) requestedPort net
  some (.listened result, net)

/-- `turn.RelayAddressGenerator`. -/
inductive RelayAddressGenerator where
  | portRange (r : RelayAddressGeneratorPortRange)
  | none
deriving DecidableEq

/-- `generator`. -/
def generator (quote : String → String) (turnPortRange : String) : RelayAddressGenerator :=
  let (min, max, useRange) := portRange quote turnPortRange
  if useRange then .portRange ⟨min, max⟩ else .none

namespace RelayAddressGenerator

def allocatePacketConn (g : RelayAddressGenerator) (sys : System) (requestedPort : ℤ) (net : Net) :
    Option (Allocation × Net) :=
  match g with
  | portRange r => r.allocatePacketConn sys requestedPort net
  | none => RelayAddressGeneratorNone.allocatePacketConn sys requestedPort net

/-- No call of `Rand.Intn` panics. -/
def Valid : RelayAddressGenerator → Prop
  | portRange r => 0 < r.span
  | none => True

/-- One of the ports that the allocation asks for can be had. -/
def Finds (g : RelayAddressGenerator) (sys : System) (requestedPort : ℤ) (net : Net) : Prop :=
  match g with
  | portRange r =>
    if requestedPort ≠ 0 then net.Free (sys.answer 0) requestedPort
    else ∃ n < 10, net.Free (sys.answer n) (r.port (sys.draw n % r.span)).toNat
  | none => net.Free (sys.answer 0) requestedPort

end RelayAddressGenerator

/-! ## The generator of the TURN server -/

/-- **`Generator.AllocatePacketConn`**, with the result of `IPProvider.Get`. -/
def Generator.allocatePacketConn (g : RelayAddressGenerator)
    (get : Except String (Option IP × Option IP)) (sys : System) (requestedPort : ℤ) (net : Net) :
    Option (Allocation × Net) := do
  let (result, net) ← g.allocatePacketConn sys requestedPort net
  if result.err ≠ none then some (result, net)
  else
    let relayAddr ← result.addr
    match get with
    | .error err => some (⟨result.conn, result.addr, some err⟩, net)
    | .ok (v4, v6) =>
      let ip := if v6 = none ∨ ((relayAddr.ip.bind to4) ≠ none ∧ v4 ≠ none) then v4 else v6
      some (⟨result.conn, some { relayAddr with ip }, none⟩, net)

/-! ## What the inner generators do -/

variable {net net' : Net} {answer : Except String UDPAddr} {port : ℤ} {a : Allocation}

/-- **An allocation by an inner generator**: it asks for some ports and ends without a socket, or
with a new one. -/
inductive Listens (net : Net) : Allocation → Net → Prop
  | failed (ports : List ℤ) (err : String) :
      Listens net ⟨none, none, some err⟩ { net with listened := net.listened ++ ports }
  | found (ports : List ℤ) (laddr : UDPAddr) :
      Listens net ⟨some ⟨net.opened, laddr⟩, some laddr, none⟩
        { opened := net.opened + 1
          sockets := ⟨net.opened, laddr⟩ :: net.sockets
          listened := net.listened ++ ports }

/-- What `net.ListenPacket` does, by whether the port can be had. -/
theorem listenPacket_cases (answer : Except String UDPAddr) (port : ℤ) (net : Net) :
    (net.Free answer port ∧ ∃ laddr, listenPacket answer port net =
      (.ok ⟨net.opened, laddr⟩, { opened := net.opened + 1
                                  sockets := ⟨net.opened, laddr⟩ :: net.sockets
                                  listened := net.listened ++ [port] })) ∨
    (¬ net.Free answer port ∧ ∃ err, listenPacket answer port net =
      (.error err, { net with listened := net.listened ++ [port] })) := by
  unfold listenPacket Net.Free
  split_ifs with hport
  · exact Or.inr ⟨by omega, _, rfl⟩
  cases answer with
  | error err => exact Or.inr ⟨by simp, err, rfl⟩
  | ok addr =>
    simp only [Except.ok.injEq, exists_eq_left']
    split_ifs with hused
    · refine Or.inr ⟨fun h => ?_, _, rfl⟩
      obtain ⟨c, hc, heq⟩ := List.any_eq_true.mp hused
      exact h.2.2 c hc (of_decide_eq_true heq)
    · refine Or.inl ⟨⟨by omega, by omega, fun c hc heq => hused ?_⟩, _, rfl⟩
      exact List.any_eq_true.mpr ⟨c, hc, decide_eq_true heq⟩

/-- **Listening once.** -/
theorem listens_once (answer : Except String UDPAddr) (port : ℤ) (net : Net) :
    Listens net (.listened (listenPacket answer port net).1) (listenPacket answer port net).2 ∧
      ((Allocation.listened (listenPacket answer port net).1).conn ≠ none ↔
        net.Free answer port) := by
  rcases listenPacket_cases answer port net with ⟨hfree, laddr, heq⟩ | ⟨hfree, err, heq⟩
  · rw [heq]
    exact ⟨.found [port] laddr, iff_of_true (by simp [Allocation.listened]) hfree⟩
  · rw [heq]
    exact ⟨.failed [port] err, iff_of_false (by simp [Allocation.listened]) hfree⟩

namespace RelayAddressGeneratorPortRange

variable {r : RelayAddressGeneratorPortRange}

/-- **The loop**: it ends with the first port that can be had. -/
theorem tryPorts_listens (hr : 0 < r.span) (sys : System) (rounds n : ℕ) (net : Net) :
    ∃ a net', r.tryPorts sys rounds n net = some (a, net') ∧ Listens net a net' ∧
      (a.conn ≠ none ↔ ∃ m, n ≤ m ∧ m < n + rounds ∧
        net.Free (sys.answer m) (r.port (sys.draw m % r.span)).toNat) := by
  induction rounds generalizing n net with
  | zero =>
    refine ⟨_, net, rfl, ?_, iff_of_false (by simp) ?_⟩
    · have hfailed : Listens net _ { net with listened := net.listened ++ [] } :=
        .failed [] "could not find free port: max retries exceeded"
      rwa [List.append_nil] at hfailed
    · rintro ⟨m, hm, hm', -⟩
      omega
  | succ rounds ih =>
    have hintn : intn (sys.draw n) r.span = some (sys.draw n % r.span) := if_neg (by omega)
    unfold tryPorts
    rw [hintn, Option.bind_eq_bind, Option.bind_some]
    rcases listenPacket_cases (sys.answer n) (r.port (sys.draw n % r.span)).toNat net with
      ⟨hfree, laddr, heq⟩ | ⟨hfree, err, heq⟩
    · rw [heq]
      exact ⟨_, _, rfl, .found _ laddr, iff_of_true (by simp [Allocation.listened])
        ⟨n, le_rfl, by omega, hfree⟩⟩
    · rw [heq]
      obtain ⟨a, net', hrun, hlistens, hiff⟩ := ih (n + 1) { net with listened := net.listened ++ [_] }
      refine ⟨a, net', hrun, ?_, hiff.trans ?_⟩
      · cases hlistens with
        | failed ports err =>
          rw [List.append_assoc]
          exact .failed _ err
        | found ports laddr =>
          rw [List.append_assoc]
          exact .found _ laddr
      · constructor
        · rintro ⟨m, hm, hm', hfree'⟩
          exact ⟨m, by omega, by omega, hfree'⟩
        · rintro ⟨m, hm, hm', hfree'⟩
          by_cases hmn : m = n
          · exact absurd (hmn ▸ hfree') hfree
          · exact ⟨m, by omega, by omega, hfree'⟩

end RelayAddressGeneratorPortRange

/-- **An inner generator** that cannot panic ends with a new socket if it can have one of the ports
it asks for, and otherwise without a socket. -/
theorem RelayAddressGenerator.listens {g : RelayAddressGenerator} (hg : g.Valid) (sys : System)
    (port : ℤ) (net : Net) : ∃ a net', g.allocatePacketConn sys port net = some (a, net') ∧
      Listens net a net' ∧ (a.conn ≠ Option.none ↔ g.Finds sys port net) := by
  cases g with
  | none => exact ⟨_, _, rfl, listens_once (sys.answer 0) port net⟩
  | portRange r =>
    unfold allocatePacketConn RelayAddressGeneratorPortRange.allocatePacketConn Finds
    simp only
    split_ifs with hport
    · exact ⟨_, _, rfl, listens_once (sys.answer 0) port net⟩
    · obtain ⟨a, net', hrun, hlistens, hiff⟩ :=
        RelayAddressGeneratorPortRange.tryPorts_listens hg sys 10 0 net
      refine ⟨a, net', hrun, hlistens, hiff.trans ?_⟩
      simp only [Nat.zero_le, true_and, Nat.zero_add]

/-- **An allocation never panics**, whatever `IPProvider.Get` returns. -/
theorem Generator.allocatePacketConn_returns {g : RelayAddressGenerator} (hg : g.Valid)
    (get : Except String (Option IP × Option IP)) (sys : System) (port : ℤ) (net : Net) :
    ∃ result, Generator.allocatePacketConn g get sys port net = some result := by
  obtain ⟨a, net', hinner, hlistens, -⟩ := RelayAddressGenerator.listens hg sys port net
  unfold Generator.allocatePacketConn
  simp only [hinner, Option.bind_eq_bind, Option.bind_some]
  cases hlistens with
  | failed ports err => exact ⟨_, rfl⟩
  | found ports laddr => cases get <;> exact ⟨_, rfl⟩

end Screego
