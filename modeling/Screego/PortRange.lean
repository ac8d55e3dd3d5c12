import Screego.Relays

/-!
# Relay ports stay in the configured range

The 16-bit arithmetic of `RelayAddressGeneratorPortRange` is only right for the ranges that
`config.Get` lets through.

* `span_eq`, `toNat_port`, `exists_port`: the arithmetic of a range that is not empty;
* `tryPorts_ports`, `tryPorts_first`: the ports asked for by the loop;
* **`relay_ports_stay_in_range`**: from the text of the setting to the ports.
-/

set_option autoImplicit false

namespace Screego

open Lib

namespace RelayAddressGeneratorPortRange

/-- The range is one that `config.Get` lets through. -/
structure Proper (r : RelayAddressGeneratorPortRange) : Prop where
  pos : 1 ≤ r.minPort.toNat
  le : r.minPort.toNat ≤ r.maxPort.toNat

variable {r : RelayAddressGeneratorPortRange}

/-- **The argument of `Rand.Intn`** is the number of ports, also when `maxPort + 1` wraps around. -/
theorem span_eq (h : r.Proper) : r.span = r.maxPort.toNat - r.minPort.toNat + 1 := by
  have hpos := h.pos
  have hle := h.le
  have hmax := r.maxPort.toNat_lt
  unfold span
  rw [UInt16.toNat_sub, UInt16.toNat_add, UInt16.toNat_one]
  omega

theorem span_pos (h : r.Proper) : 0 < r.span := by
  rw [span_eq h]
  omega

/-- **No port wraps around.** -/
theorem toNat_port (h : r.Proper) {k : ℕ} (hk : k < r.span) :
    (r.port k).toNat = r.minPort.toNat + k := by
  have hle := h.le
  have hmax := r.maxPort.toNat_lt
  rw [span_eq h] at hk
  unfold port
  rw [UInt16.toNat_add, UInt16.toNat_ofNat']
  omega

theorem port_mem (h : r.Proper) {k : ℕ} (hk : k < r.span) :
    r.minPort.toNat ≤ (r.port k).toNat ∧ (r.port k).toNat ≤ r.maxPort.toNat := by
  have hle := h.le
  rw [toNat_port h hk]
  rw [span_eq h] at hk
  omega

/-- **Every port of the range is tried** for a result of `Rand.Intn`. -/
theorem exists_port (h : r.Proper) {p : ℕ} (hmin : r.minPort.toNat ≤ p)
    (hmax : p ≤ r.maxPort.toNat) : ∃ k < r.span, (r.port k).toNat = p := by
  have hk : p - r.minPort.toNat < r.span := by
    rw [span_eq h]
    omega
  refine ⟨_, hk, ?_⟩
  rw [toNat_port h hk]
  omega

/-- The loop asks for ports of the range. -/
theorem tryPorts_ports (h : r.Proper) (sys : System) (rounds n : ℕ) (net : Net) :
    ∃ a net' ports, r.tryPorts sys rounds n net = some (a, net') ∧
      net'.listened = net.listened ++ ports ∧
      ∀ p ∈ ports, (r.minPort.toNat : ℤ) ≤ p ∧ p ≤ r.maxPort.toNat := by
  induction rounds generalizing n net with
  | zero => exact ⟨_, net, [], rfl, (List.append_nil _).symm, fun p hp => absurd hp List.not_mem_nil⟩
  | succ rounds ih =>
    have hk : sys.draw n % r.span < r.span := Nat.mod_lt _ (span_pos h)
    have hintn : intn (sys.draw n) r.span = some (sys.draw n % r.span) :=
      if_neg (Nat.ne_of_gt (span_pos h))
    have hmem := port_mem h hk
    unfold tryPorts
    rw [hintn, Option.bind_eq_bind, Option.bind_some]
    rcases listenPacket_cases (sys.answer n) (r.port (sys.draw n % r.span)).toNat net with
      ⟨-, laddr, heq⟩ | ⟨-, err, heq⟩
    · rw [heq]
      refine ⟨_, _, _, rfl, rfl, fun p hp => ?_⟩
      obtain rfl := List.mem_singleton.mp hp
      omega
    · rw [heq]
      obtain ⟨a, net', ports, hrun, hlist, hall⟩ :=
        ih (n + 1) { net with listened := net.listened ++ [_] }
      refine ⟨a, net', ((r.port (sys.draw n % r.span)).toNat : ℤ) :: ports, hrun, ?_,
        fun p hp => ?_⟩
      · rw [hlist, List.append_assoc, List.singleton_append]
      · rcases List.mem_cons.mp hp with rfl | hp
        · omega
        · exact hall p hp

/-- The first port asked for is the one drawn. -/
theorem tryPorts_first (h : r.Proper) (sys : System) (rounds : ℕ) (net : Net) :
    ∃ a net' ports, r.tryPorts sys (rounds + 1) 0 net = some (a, net') ∧
      net'.listened = net.listened ++ ((r.port (sys.draw 0 % r.span)).toNat : ℤ) :: ports := by
  have hintn : intn (sys.draw 0) r.span = some (sys.draw 0 % r.span) :=
    if_neg (Nat.ne_of_gt (span_pos h))
  unfold tryPorts
  rw [hintn, Option.bind_eq_bind, Option.bind_some]
  rcases listenPacket_cases (sys.answer 0) (r.port (sys.draw 0 % r.span)).toNat net with
    ⟨-, laddr, heq⟩ | ⟨-, err, heq⟩
  · rw [heq]
    exact ⟨_, _, [], rfl, rfl⟩
  · rw [heq]
    obtain ⟨a, net', ports, hrun, hlist, -⟩ :=
      tryPorts_ports h sys rounds 1 { net with listened := net.listened ++ [_] }
    refine ⟨a, net', ports, hrun, ?_⟩
    rw [hlist, List.append_assoc, List.singleton_append]

end RelayAddressGeneratorPortRange

/-- The generator of a server that starts never panics. -/
theorem generator_valid {quote : String → String} {s : String}
    (h : NotFatal (portRangeLogs quote s)) : (generator quote s).Valid := by
  unfold generator
  rcases portRange_of_not_fatal h with ⟨heq, -⟩ | ⟨min, max, heq, -, hpos, hle⟩
  · rw [heq]
    trivial
  · rw [heq]
    exact RelayAddressGeneratorPortRange.span_pos ⟨hpos, hle⟩

/-- **Relay ports.** A server that starts uses no port range, as nothing or zeros are configured, or
the range that is written in the setting. Then the argument of `Rand.Intn` is the number of ports,
every allocation of an unspecified port asks for ports of the range, and for every port of it there
is a number that makes it the first one. -/
theorem relay_ports_stay_in_range (quote : String → String) (s : String)
    (h : NotFatal (portRangeLogs quote s)) :
    ((portRange quote s).2.2 = false ∧ (s = "" ∨ WritesRange s 0 0)) ∨
    ∃ min max : UInt16, portRange quote s = (min, max, true) ∧
      WritesRange s min.toNat max.toNat ∧ 1 ≤ min.toNat ∧ min.toNat ≤ max.toNat ∧
      max.toNat ≤ 65535 ∧
      let r : RelayAddressGeneratorPortRange := ⟨min, max⟩
      generator quote s = .portRange r ∧
      ((max + 1) - min).toNat = max.toNat - min.toNat + 1 ∧ 0 < ((max + 1) - min).toNat ∧
      r.span = ((max + 1) - min).toNat ∧
      (∀ k < r.span, (r.port k).toNat = min.toNat + k ∧ (r.port k).toNat ≤ max.toNat) ∧
      (∀ p, min.toNat ≤ p → p ≤ max.toNat → ∃ k < r.span, (r.port k).toNat = p) ∧
      (∀ sys net, ∃ a net' ports, r.allocatePacketConn sys 0 net = some (a, net') ∧
        net'.listened = net.listened ++ ports ∧
        ∀ p ∈ ports, (min.toNat : ℤ) ≤ p ∧ p ≤ max.toNat) ∧
      ∀ p, min.toNat ≤ p → p ≤ max.toNat → ∃ k < r.span, ∀ sys net, sys.draw 0 = k →
        ∃ a net' ports, r.allocatePacketConn sys 0 net = some (a, net') ∧
          net'.listened = net.listened ++ (p : ℤ) :: ports := by
  rcases portRange_of_not_fatal h with ⟨heq, hs⟩ | ⟨min, max, heq, hwrites, hpos, hle⟩
  · exact Or.inl ⟨by rw [heq], hs⟩
  have hr : RelayAddressGeneratorPortRange.Proper ⟨min, max⟩ := ⟨hpos, hle⟩
  refine Or.inr ⟨min, max, heq, hwrites, hpos, hle, Nat.le_of_lt_succ max.toNat_lt, ?_,
    RelayAddressGeneratorPortRange.span_eq hr, RelayAddressGeneratorPortRange.span_pos hr, rfl,
    fun k hk => ⟨RelayAddressGeneratorPortRange.toNat_port hr hk,
      (RelayAddressGeneratorPortRange.port_mem hr hk).2⟩,
    fun p hmin hmax => RelayAddressGeneratorPortRange.exists_port hr hmin hmax,
    fun sys net => RelayAddressGeneratorPortRange.tryPorts_ports hr sys 10 0 net,
    fun p hmin hmax => ?_⟩
  · unfold generator
    rw [heq]
    rfl
  · obtain ⟨k, hk, hp⟩ := RelayAddressGeneratorPortRange.exists_port hr hmin hmax
    refine ⟨k, hk, fun sys net hdraw => ?_⟩
    have hfirst := RelayAddressGeneratorPortRange.tryPorts_first hr sys 9 net
    rw [hdraw, Nat.mod_eq_of_lt hk, hp] at hfirst
    exact hfirst

/-- The range of the configuration example. -/
theorem relay_ports_stay_in_range_example :
    ∃ min max : UInt16, portRange id "50000:55000" = (min, max, true) ∧
      WritesRange "50000:55000" min.toNat max.toNat ∧ min.toNat ≤ max.toNat := by
  have hnot : ¬ ((portRange id "50000:55000").2.2 = false) := by decide +kernel
  rcases relay_ports_stay_in_range id "50000:55000" (by decide +kernel) with
    ⟨h, -⟩ | ⟨min, max, heq, hwrites, -, hle, -⟩
  · exact absurd h hnot
  · exact ⟨min, max, heq, hwrites, hle⟩

end Screego
