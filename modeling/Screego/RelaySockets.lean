import Screego.Lib.System
import Screego.PortRange

/-!
# Sockets of failed allocations

The TURN server allocates relays and closes them when it is done. It closes what it was given: the
sockets returned without an error.

* `Relays`: the sockets, and those the TURN server was given; `relays`: the runs;
* `NoLeak`: every open socket is one that the TURN server was given;
* `Loses`: a call whose `IPProvider.Get` fails once the socket is there;
* **`sockets_do_not_leak_iff`**: those are the calls that leak;
  `failed_lookups_use_up_the_range`: what becomes of a small range.
-/

set_option autoImplicit false

namespace Screego

open Lib

/-- The sockets, and those of them that were returned without an error and not closed since. -/
structure Relays where
  net : Net
  given : List PacketConn
deriving DecidableEq

/-- What the TURN server does. -/
inductive RelayCall where
  /-- A call of `Generator.AllocatePacketConn`. -/
  | allocate (get : Except String (Option IP × Option IP)) (sys : System) (requestedPort : ℤ)
  /-- A relay it was given is no longer needed. -/
  | close (conn : PacketConn)

namespace Relays

def init : Relays := ⟨{}, []⟩

/-- The state after a call has returned. -/
def returned (s : Relays) (a : Allocation) (net : Net) : Relays where
  net := net
  given := match a.err, a.conn with
    | none, some conn => conn :: s.given
    | _, _ => s.given

def step (g : RelayAddressGenerator) (s : Relays) : RelayCall → Option Relays
  | .allocate get sys requestedPort => do
    let (a, net) ← Generator.allocatePacketConn g get sys requestedPort s.net
    some (s.returned a net)
  | .close conn =>
    if conn ∈ s.given then
      some ⟨{ s.net with sockets := s.net.sockets.erase conn }, s.given.erase conn⟩
    else some s

end Relays

/-- **The runs of the TURN server**, as far as relays go. -/
def relays (g : RelayAddressGenerator) : Machine Relays RelayCall := ⟨Relays.init, Relays.step g⟩

namespace Relays

/-- **No socket leaks.** -/
def NoLeak (s : Relays) : Prop := ∀ conn, conn ∈ s.net.sockets ↔ conn ∈ s.given

/-- The call loses a socket: there is a port for it, and then `IPProvider.Get` fails. -/
def Loses (g : RelayAddressGenerator) (s : Relays) : RelayCall → Prop
  | .allocate get sys requestedPort => g.Finds sys requestedPort s.net ∧ ∃ err, get = .error err
  | .close _ => False

/-- Sockets differ, and the TURN server was given open ones. -/
structure Ok (s : Relays) : Prop where
  fresh : ∀ conn ∈ s.net.sockets, conn.serial < s.net.opened
  nodup : s.net.sockets.Nodup
  given : s.given.Sublist s.net.sockets

variable {g : RelayAddressGenerator} {s s' : Relays} {call : RelayCall}

/-- **One step**: a relay is closed, or a call returns an error and no new socket is open, or it
returns a new socket, or it loses one. -/
inductive Steps (g : RelayAddressGenerator) (s : Relays) : RelayCall → Relays → Prop
  | closed (conn : PacketConn) : conn ∈ s.given → Steps g s (.close conn)
      ⟨{ s.net with sockets := s.net.sockets.erase conn }, s.given.erase conn⟩
  | kept (call : RelayCall) (listened : List ℤ) : ¬ Loses g s call →
      Steps g s call { s with net := { s.net with listened := listened } }
  | got (call : RelayCall) (conn : PacketConn) (listened : List ℤ) : conn.serial = s.net.opened →
      ¬ Loses g s call → Steps g s call
        ⟨⟨s.net.opened + 1, conn :: s.net.sockets, listened⟩, conn :: s.given⟩
  | lost (call : RelayCall) (conn : PacketConn) (listened : List ℤ) : conn.serial = s.net.opened →
      Loses g s call → Steps g s call
        ⟨⟨s.net.opened + 1, conn :: s.net.sockets, listened⟩, s.given⟩

theorem steps (hg : g.Valid) (s : Relays) (call : RelayCall) :
    ∃ s', step g s call = some s' ∧ Steps g s call s' := by
  cases call with
  | close conn =>
    simp only [step]
    split_ifs with hconn
    · exact ⟨_, rfl, .closed conn hconn⟩
    · exact ⟨s, rfl, .kept _ s.net.listened not_false⟩
  | allocate get sys port =>
    obtain ⟨a, net, hinner, hlistens, hfinds⟩ := RelayAddressGenerator.listens hg sys port s.net
    unfold step Generator.allocatePacketConn
    simp only [hinner, Option.bind_eq_bind, Option.bind_some]
    cases hlistens with
    | failed ports err =>
      refine ⟨_, rfl, .kept _ _ fun hloses => ?_⟩
      exact (hfinds.mpr hloses.1) rfl
    | found ports laddr =>
      have hfound : g.Finds sys port s.net := hfinds.mp (Option.some_ne_none _)
      cases get with
      | error err => exact ⟨_, rfl, .lost _ _ _ rfl ⟨hfound, err, rfl⟩⟩
      | ok ips =>
        refine ⟨_, rfl, .got _ ⟨s.net.opened, laddr⟩ _ rfl ?_⟩
        rintro ⟨-, err, h⟩
        cases h

theorem Ok.step (h : s.Ok) (hstep : Steps g s call s') : s'.Ok := by
  cases hstep with
  | closed conn hconn =>
    refine ⟨fun c hc => h.fresh c (List.mem_of_mem_erase hc), h.nodup.erase conn, ?_⟩
    exact h.given.erase conn
  | kept _ listened _ => exact ⟨h.fresh, h.nodup, h.given⟩
  | got _ conn listened hserial _ =>
    refine ⟨fun c hc => ?_, List.nodup_cons.mpr ⟨fun hc => ?_, h.nodup⟩, h.given.cons_cons conn⟩
    · rcases List.mem_cons.mp hc with rfl | hc
      · exact hserial ▸ Nat.lt_succ_self _
      · exact Nat.lt_succ_of_lt (h.fresh c hc)
    · exact Nat.lt_irrefl _ (hserial ▸ h.fresh conn hc)
  | lost _ conn listened hserial _ =>
    refine ⟨fun c hc => ?_, List.nodup_cons.mpr ⟨fun hc => ?_, h.nodup⟩, h.given.cons conn⟩
    · rcases List.mem_cons.mp hc with rfl | hc
      · exact hserial ▸ Nat.lt_succ_self _
      · exact Nat.lt_succ_of_lt (h.fresh c hc)
    · exact Nat.lt_irrefl _ (hserial ▸ h.fresh conn hc)

theorem relays_ok (hg : g.Valid) : (relays g).Always Ok := by
  apply Machine.always_of_step
  · exact ⟨fun _ h => absurd h List.not_mem_nil, List.nodup_nil, List.Sublist.slnil⟩
  · intro s call h
    obtain ⟨s', hs', hstep⟩ := steps hg s call
    exact ⟨s', hs', h.step hstep⟩

/-- **What a step does to the property**: it goes on to hold unless a socket is lost. -/
theorem noLeak_step (h : s.Ok) (hleak : s.NoLeak) (hstep : Steps g s call s') :
    s'.NoLeak ↔ ¬ Loses g s call := by
  cases hstep with
  | closed conn hconn =>
    refine iff_of_true (fun c => ?_) not_false
    have hgiven := h.given.nodup h.nodup
    show c ∈ s.net.sockets.erase conn ↔ c ∈ s.given.erase conn
    rw [h.nodup.mem_erase_iff, hgiven.mem_erase_iff, hleak c]
  | kept _ listened hkeeps => exact iff_of_true hleak hkeeps
  | got _ conn listened _ hkeeps =>
    refine iff_of_true (fun c => ?_) hkeeps
    show c ∈ conn :: s.net.sockets ↔ c ∈ conn :: s.given
    rw [List.mem_cons, List.mem_cons, hleak c]
  | lost _ conn listened hserial hloses =>
    refine iff_of_false (fun hall => ?_) (not_not_intro hloses)
    have hconn : conn ∈ s.given := (hall conn).mp List.mem_cons_self
    have := h.fresh conn ((hleak conn).mpr hconn)
    omega

end Relays

open Relays

/-- **Relay sockets.** In a run, the open sockets are at all times those that were returned without
an error and not closed since, if and only if no call loses its socket. -/
theorem sockets_do_not_leak_iff (g : RelayAddressGenerator) (hg : g.Valid)
    (calls : List RelayCall) :
    (relays g).Throughout NoLeak calls ↔ (relays g).Meets (fun s call => ¬ Loses g s call) calls := by
  apply Machine.meets_iff (relays_ok hg)
  · exact fun _ => Iff.rfl
  · intro s call s' hok hleak hs'
    obtain ⟨s'', hs'', hstep⟩ := steps hg s call
    obtain rfl := Option.some.inj (hs'.symm.trans hs'')
    exact noLeak_step hok hleak hstep

/-- An allocation of an unspecified port, on a system that agrees to everything. -/
def allocateAny (get : Except String (Option IP × Option IP)) : RelayCall :=
  .allocate get ⟨fun _ => 0, fun _ => .ok ⟨some [0, 0, 0, 0], 0⟩⟩ 0

/-- A relay in a range of one port: a lookup that fails while it is open loses nothing, and another
relay is allocated when it is closed. -/
def relayAfterRelay : List RelayCall :=
  [allocateAny (.ok (some [203, 0, 113, 7], none)), allocateAny (.error "no such host"),
    .close ⟨0, some [0, 0, 0, 0], 50000⟩, allocateAny (.ok (some [203, 0, 113, 7], none))]

theorem sockets_do_not_leak_iff_relayAfterRelay :
    (relays (generator id "50000:50000")).Throughout NoLeak relayAfterRelay := by
  have hg : generator id "50000:50000" = .portRange ⟨50000, 50000⟩ := by decide +kernel
  have hvalid : (generator id "50000:50000").Valid := by
    rw [hg]
    show 0 < (RelayAddressGeneratorPortRange.mk 50000 50000).span
    decide
  refine (sockets_do_not_leak_iff _ hvalid _).mpr fun pre call post s e hs => ?_
  match pre, e, hs with
  | [], e, _ | [_, _, _], e, _ =>
    cases e
    rintro ⟨-, err, h⟩
    cases h
  | [_], e, hs =>
    cases e
    have hopen : ((relays (generator id "50000:50000")).run
        [allocateAny (.ok (some [203, 0, 113, 7], none))]).map (·.net.sockets) =
          some [⟨0, some [0, 0, 0, 0], 50000⟩] := by decide +kernel
    rw [hs, Option.map_some, Option.some.injEq] at hopen
    rw [hg]
    -- the one port is in use
    rintro ⟨⟨n, -, -, -, addr, -, hfree⟩, -⟩
    refine hfree ⟨0, some [0, 0, 0, 0], 50000⟩ ?_ rfl
    rw [hopen]
    exact List.mem_singleton_self _
  | [_, _], e, _ =>
    cases e
    exact not_false
  | _ :: _ :: _ :: _ :: pre, e, _ =>
    have hlen := congrArg List.length e
    simp [relayAfterRelay] at hlen

/-- **A range of one port is used up** by one allocation whose DNS lookup fails: its socket stays
open, and the next allocation fails although the lookup succeeds. -/
theorem failed_lookups_use_up_the_range : ∃ s s',
    (relays (generator id "50000:50000")).run [allocateAny (.error "no such host")] = some s ∧
      ¬ s.NoLeak ∧
      (relays (generator id "50000:50000")).run [allocateAny (.error "no such host"),
        allocateAny (.ok (some [203, 0, 113, 7], none))] = some s' ∧ s'.given = [] := by
  have hrun : ((relays (generator id "50000:50000")).run [allocateAny (.error "no such host")]).map
      (fun s => (s.net.sockets, s.given)) = some ([⟨0, some [0, 0, 0, 0], 50000⟩], []) := by
    decide +kernel
  have hrun' : ((relays (generator id "50000:50000")).run [allocateAny (.error "no such host"),
      allocateAny (.ok (some [203, 0, 113, 7], none))]).map (·.given) = some [] := by
    decide +kernel
  obtain ⟨s, hs, heq⟩ := Option.map_eq_some_iff.mp hrun
  obtain ⟨s', hs', heq'⟩ := Option.map_eq_some_iff.mp hrun'
  simp only [Prod.mk.injEq] at heq
  refine ⟨s, s', hs, fun hleak => ?_, hs', heq'⟩
  have hmem := (hleak ⟨0, some [0, 0, 0, 0], 50000⟩).mp (by rw [heq.1]; exact List.mem_cons_self)
  rw [heq.2] at hmem
  exact List.not_mem_nil hmem

end Screego
