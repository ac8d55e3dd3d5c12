import Screego.Lib.Ip

/-!
# Blocks of IP addresses

The reader of CIDR notation of Go's `net` package, and the test whether a block contains an address.

* `bits`: the bits of an address, the highest first;
* `cidrMask`, `maskBytes`; **`bits_maskBytes`**: a mask keeps the first bits;
* `IPNet`, `parseCIDR`, `IPNet.contains`;
* `Writes`: the block that a text stands for; **`parseCIDR_isSome_iff`**, **`contains_iff`**.
-/

set_option autoImplicit false

namespace Screego.Lib

/-! ## Bits -/

/-- The bits of a byte, the highest first. -/
def byteBits (b : UInt8) : List Bool := (List.range 8).map fun i => b.toNat.testBit (7 - i)

/-- The bits of an address. -/
def bits (ip : List UInt8) : List Bool := ip.flatMap byteBits

@[simp] theorem length_byteBits (b : UInt8) : (byteBits b).length = 8 := by
  rw [byteBits, List.length_map, List.length_range]

@[simp] theorem bits_cons (b : UInt8) (ip : List UInt8) : bits (b :: ip) = byteBits b ++ bits ip := rfl

theorem bits_append (ip ip' : List UInt8) : bits (ip ++ ip') = bits ip ++ bits ip' :=
  List.flatMap_append

@[simp] theorem length_bits (ip : List UInt8) : (bits ip).length = 8 * ip.length := by
  induction ip with
  | nil => rfl
  | cons b ip ih =>
    rw [bits_cons, List.length_append, ih, length_byteBits, List.length_cons]
    omega

theorem byteBits_injective : Function.Injective byteBits := by
  intro a b h
  apply UInt8.toNat_inj.mp
  apply Nat.eq_of_testBit_eq
  intro i
  by_cases hi : i < 8
  · have hmem : ∀ j ∈ List.range 8, a.toNat.testBit (7 - j) = b.toNat.testBit (7 - j) :=
      List.map_inj_left.mp h
    have hbit := hmem (7 - i) (List.mem_range.mpr (by omega))
    rwa [show 7 - (7 - i) = i by omega] at hbit
  · have hsmall : ∀ c : UInt8, c.toNat.testBit i = false := fun c =>
      Nat.testBit_lt_two_pow (c.toNat_lt.trans_le (Nat.pow_le_pow_right (by omega) (by omega)))
    rw [hsmall, hsmall]

theorem bits_injective : Function.Injective bits := by
  intro as
  induction as with
  | nil =>
    intro bs h
    cases bs with
    | nil => rfl
    | cons b bs =>
      have hlen := congrArg List.length h
      rw [length_bits, length_bits, List.length_cons, List.length_nil] at hlen
      omega
  | cons a as ih =>
    intro bs h
    cases bs with
    | nil =>
      have hlen := congrArg List.length h
      rw [length_bits, length_bits, List.length_cons, List.length_nil] at hlen
      omega
    | cons b bs =>
      rw [bits_cons, bits_cons] at h
      obtain ⟨ha, has⟩ := List.append_inj h (by rw [length_byteBits, length_byteBits])
      rw [byteBits_injective ha, ih has]

/-! ## Masks -/

/-- The byte of a mask with `n` ones. -/
def highMask (n : ℕ) : UInt8 := ~~~ (0xff >>> UInt8.ofNat n)

/-- The loop of `net.CIDRMask`: a mask of `l` bytes with `n` ones. -/
def cidrMask : ℕ → ℕ → List UInt8
  | 0, _ => []
  | l + 1, n => if 8 ≤ n then 0xff :: cidrMask l (n - 8) else highMask n :: cidrMask l 0

/-- The bytes where the mask has ones. -/
def maskBytes (ip m : List UInt8) : List UInt8 := ip.zipWith (· &&& ·) m

@[simp] theorem length_cidrMask (l n : ℕ) : (cidrMask l n).length = l := by
  induction l generalizing n with
  | zero => rfl
  | succ l ih =>
    unfold cidrMask
    split_ifs
    · rw [List.length_cons, ih]
    · rw [List.length_cons, ih]

theorem testBit_highMask : ∀ n < 8, ∀ j < 8, (highMask n).toNat.testBit j = decide (8 - n ≤ j) := by
  decide +kernel

/-- A mask keeps the first bits of a byte. -/
theorem byteBits_highMask (b : UInt8) {n : ℕ} (hn : n < 8) :
    byteBits (b &&& highMask n) = (byteBits b).take n ++ List.replicate (8 - n) false := by
  apply List.ext_getElem
  · simp [byteBits]
    omega
  intro i h₁ h₂
  have hi : i < 8 := by rwa [length_byteBits] at h₁
  have hbit : (byteBits (b &&& highMask n))[i] = (b.toNat.testBit (7 - i) && decide (8 - n ≤ 7 - i)) := by
    simp only [byteBits, List.getElem_map, List.getElem_range, UInt8.toNat_and, Nat.testBit_and]
    rw [testBit_highMask n hn (7 - i) (by omega)]
  refine hbit.trans ?_
  by_cases hin : i < n
  · have hle : 8 - n ≤ 7 - i := by omega
    rw [List.getElem_append_left (by simp; omega), List.getElem_take]
    simp [byteBits, hle]
  · have hle : ¬ 8 - n ≤ 7 - i := by omega
    rw [List.getElem_append_right (by simp; omega), List.getElem_replicate]
    simp [hle]

/-- **A mask keeps the first bits.** -/
theorem bits_maskBytes {l n : ℕ} {ip : List UInt8} (hlen : ip.length = l) (hn : n ≤ 8 * l) :
    bits (maskBytes ip (cidrMask l n)) = (bits ip).take n ++ List.replicate (8 * l - n) false := by
  induction l generalizing n ip with
  | zero =>
    obtain rfl := List.length_eq_zero_iff.mp hlen
    simp [maskBytes, bits]
  | succ l ih =>
    obtain ⟨b, ip, rfl⟩ := List.exists_cons_of_length_eq_add_one hlen
    have hlen' : ip.length = l := Nat.succ.inj hlen
    unfold cidrMask
    by_cases h8 : 8 ≤ n
    · rw [if_pos h8]
      have hmask : maskBytes (b :: ip) (0xff :: cidrMask l (n - 8)) =
          (b &&& 0xff) :: maskBytes ip (cidrMask l (n - 8)) := rfl
      have hbyte : b &&& 0xff = b := UInt8.and_neg_one
      have htake : (byteBits b).take n = byteBits b := List.take_of_length_le (by rwa [length_byteBits])
      rw [hmask, hbyte, bits_cons, ih hlen' (by omega), bits_cons, List.take_append, length_byteBits, htake,
        List.append_assoc, show 8 * (l + 1) - n = 8 * l - (n - 8) by omega]
    · rw [if_neg h8]
      have hmask : maskBytes (b :: ip) (highMask n :: cidrMask l 0) =
          (b &&& highMask n) :: maskBytes ip (cidrMask l 0) := rfl
      rw [hmask, bits_cons, byteBits_highMask b (by omega), ih hlen' (Nat.zero_le _), bits_cons,
        List.take_append_of_le_length (by rw [length_byteBits]; omega), List.take_zero, List.nil_append,
        List.append_assoc, ← List.replicate_add, show 8 * (l + 1) - n = 8 - n + (8 * l - 0) by omega]

/-- **Masked addresses agree** when their first bits do. -/
theorem maskBytes_eq_iff {l n : ℕ} {ip ip' : List UInt8} (hip : ip.length = l) (hip' : ip'.length = l)
    (hn : n ≤ 8 * l) : maskBytes ip (cidrMask l n) = maskBytes ip' (cidrMask l n) ↔
      (bits ip).take n = (bits ip').take n := by
  rw [← bits_injective.eq_iff, bits_maskBytes hip hn, bits_maskBytes hip' hn, List.append_left_inj]

theorem length_maskBytes {l n : ℕ} {ip : List UInt8} (hip : ip.length = l) :
    (maskBytes ip (cidrMask l n)).length = l := by
  rw [maskBytes, List.length_zipWith, length_cidrMask, hip, Nat.min_self]

/-- A mask takes its bits once. -/
theorem take_bits_maskBytes {l n : ℕ} {ip : List UInt8} (hip : ip.length = l) (hn : n ≤ 8 * l) :
    (bits (maskBytes ip (cidrMask l n))).take n = (bits ip).take n := by
  rw [bits_maskBytes hip hn, List.take_append_of_le_length, List.take_take, Nat.min_self]
  rw [List.length_take, length_bits, hip, Nat.min_eq_left hn]

/-- A long mask starts with ones. -/
theorem drop_cidrMask (k l n : ℕ) : (cidrMask (k + l) (8 * k + n)).drop k = cidrMask l n := by
  induction k with
  | zero => simp
  | succ k ih =>
    rw [show k + 1 + l = k + l + 1 by omega, cidrMask, if_pos (by omega), List.drop_succ_cons,
      show 8 * (k + 1) + n - 8 = 8 * k + n by omega, ih]

/-! ## The reader -/

/-- `net.IPNet`. -/
structure IPNet where
  ip : List UInt8
  mask : List UInt8

/-- `net.IP.Mask`: no address is the empty list. -/
def maskIP (ip m : List UInt8) : List UInt8 :=
  let m := if m.length = 16 ∧ ip.length = 4 ∧ m.take 12 = List.replicate 12 0xff then m.drop 12 else m
  let ip := if m.length = 4 ∧ ip.length = 16 ∧ ip.take 12 = v4InV6Prefix then ip.drop 12 else ip
  if ip.length = m.length then maskBytes ip m else []

/-- The loop of `net.dtoi`, for a text that is digits to its end. -/
def dtoiFrom : ℕ → List Char → Option ℕ
  | n, [] => some n
  | n, c :: l =>
    if c.isDigit then
      if 0xffffff ≤ 10 * n + digit c then none else dtoiFrom (10 * n + digit c) l
    else none

/-- `net.dtoi`. -/
def dtoi (l : List Char) : Option ℕ := if l = [] then none else dtoiFrom 0 l

/-- `netip.Addr.BitLen`, of the address that the literal is for. -/
def bitLen (s : String) : ℕ :=
  if (s.toList.find? fun c => c == '.' || c == ':' || c == '%') = some '.' then 32 else 128

/-- **`net.ParseCIDR`.** -/
def parseCIDR (s : String) : Option IPNet :=
  let addr := String.ofList (s.toList.takeWhile (· ≠ '/'))
  match s.toList.dropWhile (· ≠ '/') with
  | [] => none
  | _ :: digits => do
    let addr16 ← parseIP addr
    let n ← dtoi digits
    if bitLen addr < n then none
    else
      let m := cidrMask (bitLen addr / 8) n
      some ⟨maskIP addr16 m, m⟩

namespace IPNet

variable (net : IPNet)

/-- `networkNumberAndMask`. -/
def networkNumberAndMask : List UInt8 × List UInt8 :=
  let ip := (to4 net.ip).getD net.ip
  if (to4 net.ip).isNone ∧ ip.length ≠ 16 then ([], [])
  else if net.mask.length = 4 then if ip.length ≠ 4 then ([], []) else (ip, net.mask)
  else if net.mask.length = 16 then if ip.length = 4 then (ip, net.mask.drop 12) else (ip, net.mask)
  else ([], [])

/-- **`net.IPNet.Contains`.** -/
def contains (ip : List UInt8) : Bool :=
  let (nn, m) := net.networkNumberAndMask
  let ip := (to4 ip).getD ip
  ip.length = nn.length && maskBytes nn m = maskBytes ip m

end IPNet

/-! ## What is read -/

/-- An address in sixteen bytes. -/
def to16 (ip : List UInt8) : List UInt8 := if ip.length = 4 then v4InV6Prefix ++ ip else ip

/-- **The block that a text stands for**: the addresses whose first `n` bits, of sixteen bytes, are those
of `base`. -/
def Writes (s : String) (base : List UInt8) (n : ℕ) : Prop :=
  ∃ addr digits k, s.toList = addr ++ '/' :: digits ∧ '/' ∉ addr ∧ parseIP (String.ofList addr) = some base ∧
    IsDecimal digits k ∧ k ≤ bitLen (String.ofList addr) ∧ n = k + (128 - bitLen (String.ofList addr))

variable {s : String} {base ip : List UInt8} {n k : ℕ} {l : List Char} {net : IPNet}

theorem bitLen_cases (s : String) : bitLen s = 32 ∨ bitLen s = 128 := by
  unfold bitLen
  split_ifs
  · exact Or.inl rfl
  · exact Or.inr rfl

theorem dtoiFrom_eq_some_iff (hk : k < 0xffffff) (hn : n < 0xffffff) : dtoiFrom n l = some k ↔
    (∀ c ∈ l, c.isDigit = true) ∧ decimalFrom n l = k := by
  induction l generalizing n with
  | nil => simp [dtoiFrom, decimalFrom]
  | cons c l ih =>
    unfold dtoiFrom
    rw [List.forall_mem_cons]
    split_ifs with hc hbig
    · refine iff_of_false (by simp) ?_
      rintro ⟨-, hval⟩
      have hle := le_decimalFrom (10 * n + digit c) l
      change decimalFrom (10 * n + digit c) l = k at hval
      omega
    · rw [ih (by omega)]
      simp only [hc, true_and]
      rfl
    · exact iff_of_false (by simp) fun h => hc h.1.1

/-- `dtoi` reads small numbers. -/
theorem dtoi_eq_some_iff (hk : k < 0xffffff) : dtoi l = some k ↔ IsDecimal l k := by
  unfold dtoi
  split_ifs with hl
  · exact iff_of_false (by simp) fun h => h.ne_nil hl
  · rw [dtoiFrom_eq_some_iff hk (by omega)]
    exact ⟨fun h => ⟨hl, h.1, h.2⟩, fun h => ⟨h.digits, h.value⟩⟩

/-- A literal of an IPv4 address is read as one. -/
theorem take_of_bitLen (h : parseIP s = some base) (hs : bitLen s = 32) : base.take 12 = v4InV6Prefix := by
  have hfind : (s.toList.find? fun c => c == '.' || c == ':' || c == '%') = some '.' := by
    by_contra hfind
    rw [bitLen, if_neg hfind] at hs
    omega
  unfold parseIP at h
  rw [hfind] at h
  obtain ⟨v4, -, rfl⟩ := Option.map_eq_some_iff.mp h
  rw [List.take_append_of_le_length (by simp [v4InV6Prefix])]
  rfl

/-- The block of the base and the number of ones, of the addresses with `len` bits. -/
def IPNet.of (base : List UInt8) (len k : ℕ) : IPNet :=
  ⟨maskIP base (cidrMask (len / 8) k), cidrMask (len / 8) k⟩

/-- **What `net.ParseCIDR` reads.** -/
theorem parseCIDR_eq_some_iff : parseCIDR s = some net ↔ ∃ addr digits k base,
    s.toList = addr ++ '/' :: digits ∧ '/' ∉ addr ∧ parseIP (String.ofList addr) = some base ∧
      IsDecimal digits k ∧ k ≤ bitLen (String.ofList addr) ∧
      net = .of base (bitLen (String.ofList addr)) k := by
  have hsmall : ∀ {t k}, k ≤ bitLen t → k < 0xffffff := by
    intro t k h
    rcases bitLen_cases t with hlen | hlen <;> omega
  constructor
  · intro h
    unfold parseCIDR at h
    split at h
    case h_1 => cases h
    case h_2 c digits hdrop =>
      obtain ⟨base, hbase, h⟩ := Option.bind_eq_some_iff.mp h
      obtain ⟨k, hk, h⟩ := Option.bind_eq_some_iff.mp h
      split_ifs at h with hlen
      obtain rfl : c = '/' := by
        have hhead := List.head?_dropWhile_not (· ≠ '/') s.toList
        rw [hdrop] at hhead
        simpa using hhead
      have hle := Nat.not_lt.mp hlen
      have hdigits := (dtoi_eq_some_iff (hsmall hle)).mp hk
      refine ⟨_, digits, k, base, ?_, ?_, hbase, hdigits, hle, (Option.some.inj h).symm⟩
      · rw [← hdrop, List.takeWhile_append_dropWhile]
      · intro hmem
        exact absurd (List.mem_takeWhile_imp hmem) (by simp)
  · rintro ⟨addr, digits, k, base, hs, haddr, hbase, hdigits, hle, rfl⟩
    have hne : ∀ c ∈ addr, (decide (c ≠ '/')) = true := fun c hc =>
      decide_eq_true fun he => haddr (he ▸ hc)
    have htake : s.toList.takeWhile (· ≠ '/') = addr := by
      rw [hs, List.takeWhile_append_of_pos hne]
      simp
    have hdrop : s.toList.dropWhile (· ≠ '/') = '/' :: digits := by
      rw [hs, List.dropWhile_append_of_pos hne]
      simp
    unfold parseCIDR
    simp only [htake, hdrop, hbase, (dtoi_eq_some_iff (hsmall hle)).mpr hdigits, Option.bind_eq_bind,
      Option.bind_some, if_neg (Nat.not_lt.mpr hle)]
    rfl

/-- A text stands for one block at most. -/
theorem Writes.unique {base' : List UInt8} {n' : ℕ} (h : Writes s base n) (h' : Writes s base' n') :
    base = base' ∧ n = n' := by
  obtain ⟨addr, digits, k, hs, haddr, hbase, hdigits, -, rfl⟩ := h
  obtain ⟨addr', digits', k', hs', haddr', hbase', hdigits', -, rfl⟩ := h'
  have hsplit : ∀ {a d : List Char}, '/' ∉ a → s.toList = a ++ '/' :: d →
      s.toList.takeWhile (· ≠ '/') = a ∧ s.toList.dropWhile (· ≠ '/') = '/' :: d := by
    intro a d ha he
    have hne : ∀ c ∈ a, (decide (c ≠ '/')) = true := fun c hc => decide_eq_true fun he => ha (he ▸ hc)
    rw [he, List.takeWhile_append_of_pos hne, List.dropWhile_append_of_pos hne]
    simp
  obtain ⟨htake, hdrop⟩ := hsplit haddr hs
  obtain ⟨htake', hdrop'⟩ := hsplit haddr' hs'
  obtain rfl := htake.symm.trans htake'
  obtain rfl := (List.cons.inj (hdrop.symm.trans hdrop')).2
  have hk : k = k' := hdigits.value.symm.trans hdigits'.value
  exact ⟨Option.some.inj (hbase.symm.trans hbase'), by rw [hk]⟩

theorem parseCIDR_isSome_iff : (∃ net, parseCIDR s = some net) ↔ ∃ base n, Writes s base n := by
  constructor
  · rintro ⟨net, h⟩
    obtain ⟨addr, digits, k, base, hs, haddr, hbase, hdigits, hle, -⟩ := parseCIDR_eq_some_iff.mp h
    exact ⟨base, _, addr, digits, k, hs, haddr, hbase, hdigits, hle, rfl⟩
  · rintro ⟨base, n, addr, digits, k, hs, haddr, hbase, hdigits, hle, -⟩
    exact ⟨_, parseCIDR_eq_some_iff.mpr ⟨addr, digits, k, base, hs, haddr, hbase, hdigits, hle, rfl⟩⟩

/-! ## What is contained -/

/-- **The address is in the block.** No IPv4 address is in a block of IPv6 addresses that is not one of
IPv4 addresses altogether. -/
def InBlock (base : List UInt8) (n : ℕ) (ip : List UInt8) : Prop :=
  (bits (to16 ip)).take n = (bits base).take n ∧ (n < 96 → to4 ip = none)

instance (base : List UInt8) (n : ℕ) (ip : List UInt8) : Decidable (InBlock base n ip) :=
  inferInstanceAs (Decidable (_ ∧ _))

theorem to4_eq_some {x : List UInt8} (h : to4 ip = some x) : x.length = 4 ∧ to16 ip = v4InV6Prefix ++ x := by
  unfold to4 at h
  unfold to16
  split_ifs at h ⊢ with h4 h16
  · obtain rfl := Option.some.inj h
    exact ⟨h4, rfl⟩
  · obtain rfl := Option.some.inj h
    refine ⟨by rw [List.length_drop, h16.1], ?_⟩
    rw [← h16.2, List.take_append_drop]

theorem to4_eq_none (hip : IsAddress ip) (h : to4 ip = none) :
    ip.length = 16 ∧ to16 ip = ip ∧ ip.take 12 ≠ v4InV6Prefix := by
  unfold to4 at h
  split_ifs at h with h4 h16
  have hlen := hip.resolve_left h4
  exact ⟨hlen, if_neg h4, fun hp => h16 ⟨hlen, hp⟩⟩

@[simp] theorem length_v4InV6Prefix : v4InV6Prefix.length = 12 := by
  simp [v4InV6Prefix]

/-- The first bits, where the prefix is that of IPv4 addresses. -/
theorem take_bits_prefix (x y : List UInt8) (k : ℕ) :
    (bits (v4InV6Prefix ++ x)).take (96 + k) = (bits (v4InV6Prefix ++ y)).take (96 + k) ↔
      (bits x).take k = (bits y).take k := by
  have hlen : (bits v4InV6Prefix).length = 96 := by
    rw [length_bits, length_v4InV6Prefix]
  rw [bits_append, bits_append, ← hlen, List.take_length_add_append, List.take_length_add_append,
    List.append_right_inj]

/-- Whoever has the first bits of IPv4 addresses is one. -/
theorem take_eq_mapped {y : List UInt8} (hip : ip.length = 16) (hn : 96 ≤ n)
    (h : (bits ip).take n = (bits (v4InV6Prefix ++ y)).take n) : ip.take 12 = v4InV6Prefix := by
  have hlen : (bits v4InV6Prefix).length = 96 := by
    rw [length_bits, length_v4InV6Prefix]
  have htake := congrArg (List.take 96) h
  rw [List.take_take, List.take_take, Nat.min_eq_left hn, bits_append,
    List.take_append_of_le_length hlen.ge, ← hlen, List.take_length, hlen] at htake
  have hbits : (bits (ip.take 12)).length = 96 := by
    rw [length_bits, List.length_take, hip]
    rfl
  rw [← List.take_append_drop 12 ip, bits_append, List.take_append_of_le_length hbits.ge,
    List.take_of_length_le hbits.le] at htake
  exact bits_injective htake

/-- A network of IPv4 addresses. -/
theorem contains_v4 {b : List UInt8} (hb : b.length = 4) (hk : k ≤ 32) (hip : IsAddress ip)
    (hnet : net.networkNumberAndMask = (maskBytes b (cidrMask 4 k), cidrMask 4 k)) :
    net.contains ip = true ↔ InBlock (v4InV6Prefix ++ b) (96 + k) ip := by
  have hlen := length_maskBytes (n := k) hb
  simp only [IPNet.contains, hnet, Bool.and_eq_true, decide_eq_true_eq, hlen]
  cases hx : to4 ip with
  | some x =>
    obtain ⟨hx4, hx16⟩ := to4_eq_some hx
    rw [InBlock, hx16, take_bits_prefix, Option.getD_some,
      maskBytes_eq_iff hlen hx4 (by omega), take_bits_maskBytes hb (by omega)]
    exact ⟨fun h => ⟨h.2.symm, fun hlt => by omega⟩, fun h => ⟨hx4, h.1.symm⟩⟩
  | none =>
    obtain ⟨hlen16, hx16, hno⟩ := to4_eq_none hip hx
    refine iff_of_false (fun h => ?_) fun h => ?_
    · rw [Option.getD_none, hlen16] at h
      omega
    · rw [InBlock, hx16] at h
      exact hno (take_eq_mapped hlen16 (by omega) h.1)

/-- A network of IPv6 addresses. -/
theorem contains_v6 (hb : base.length = 16) (hn : n ≤ 128) (hip : IsAddress ip)
    (hnone : to4 (maskBytes base (cidrMask 16 n)) = none)
    (hnet : net.networkNumberAndMask = (maskBytes base (cidrMask 16 n), cidrMask 16 n)) :
    net.contains ip = true ↔ InBlock base n ip := by
  have hlen := length_maskBytes (n := n) hb
  have htake := take_bits_maskBytes (n := n) hb (by omega)
  simp only [IPNet.contains, hnet, Bool.and_eq_true, decide_eq_true_eq, hlen]
  cases hx : to4 ip with
  | none =>
    obtain ⟨hlen16, hx16, -⟩ := to4_eq_none hip hx
    rw [InBlock, hx16, Option.getD_none, maskBytes_eq_iff hlen hlen16 (by omega), htake]
    exact ⟨fun h => ⟨h.2.symm, fun _ => hx⟩, fun h => ⟨hlen16, h.1.symm⟩⟩
  | some x =>
    obtain ⟨hx4, hx16⟩ := to4_eq_some hx
    refine iff_of_false (fun h => ?_) fun h => ?_
    · rw [Option.getD_some, hx4] at h
      omega
    · obtain ⟨hbits, hlt⟩ := h
      have hn96 : 96 ≤ n := by
        by_contra hlt'
        cases hx.symm.trans (hlt (by omega))
      rw [hx16, ← htake] at hbits
      have hprefix := take_eq_mapped hlen hn96 hbits.symm
      rw [to4, if_neg (by omega), if_pos ⟨hlen, hprefix⟩] at hnone
      cases hnone

/-- Only a long mask leaves the prefix of IPv4 addresses. -/
theorem le_of_mapped (hb : base.length = 16) (hn : n ≤ 128)
    (h : (maskBytes base (cidrMask 16 n)).take 12 = v4InV6Prefix) : 96 ≤ n := by
  by_contra hlt
  have hbits := bits_maskBytes (l := 16) hb hn
  have hlen := length_maskBytes (n := n) hb
  have hlast : (bits v4InV6Prefix)[95]? = some true := by decide +kernel
  rw [← h] at hlast
  have htake : (bits (maskBytes base (cidrMask 16 n)))[95]? = some true := by
    rw [← List.take_append_drop 12 (maskBytes base (cidrMask 16 n)), bits_append,
      List.getElem?_append_left, hlast]
    rw [length_bits, List.length_take, hlen]
    omega
  rw [hbits, List.getElem?_append_right, List.getElem?_replicate] at htake
  · split_ifs at htake
    cases htake
  · rw [List.length_take, length_bits, hb]
    omega

/-- **What a block contains**: `net.IPNet.Contains` of what `net.ParseCIDR` reads. -/
theorem contains_iff (h : parseCIDR s = some net) (hw : Writes s base n) (hip : IsAddress ip) :
    net.contains ip = true ↔ InBlock base n ip := by
  obtain ⟨addr, digits, k, base', hs, haddr, hbase, hdigits, hle, rfl⟩ := parseCIDR_eq_some_iff.mp h
  obtain ⟨rfl, rfl⟩ := hw.unique ⟨addr, digits, k, hs, haddr, hbase, hdigits, hle, rfl⟩
  have hlen := length_parseIP hbase
  rcases bitLen_cases (String.ofList addr) with h32 | h128
  · rw [h32] at hle ⊢
    have hprefix := take_of_bitLen hbase h32
    have hsplit : base = v4InV6Prefix ++ base.drop 12 := by
      rw [← hprefix, List.take_append_drop]
    have hdrop : (base.drop 12).length = 4 := by rw [List.length_drop, hlen]
    have hnet : (IPNet.of base 32 k).networkNumberAndMask =
        (maskBytes (base.drop 12) (cidrMask 4 k), cidrMask 4 k) := by
      have hmask : maskIP base (cidrMask 4 k) = maskBytes (base.drop 12) (cidrMask 4 k) := by
        simp [maskIP, hlen, hprefix]
      have hto4 : to4 (maskBytes (base.drop 12) (cidrMask 4 k)) = some _ := if_pos (length_maskBytes hdrop)
      simp [IPNet.networkNumberAndMask, IPNet.of, hmask, hto4, length_maskBytes hdrop]
    rw [contains_v4 hdrop hle hip hnet, ← hsplit, Nat.add_comm k]
  · rw [h128] at hle ⊢
    have hmask : maskIP base (cidrMask 16 k) = maskBytes base (cidrMask 16 k) := by
      simp [maskIP, hlen]
    have hlenMask := length_maskBytes (n := k) hlen
    cases hto4 : to4 (maskBytes base (cidrMask 16 k)) with
    | none =>
      refine contains_v6 hlen hle hip hto4 ?_
      simp [IPNet.networkNumberAndMask, IPNet.of, hmask, hto4, hlenMask]
    | some y =>
      have hprefix : (maskBytes base (cidrMask 16 k)).take 12 = v4InV6Prefix ∧
          y = (maskBytes base (cidrMask 16 k)).drop 12 := by
        unfold to4 at hto4
        split_ifs at hto4 with h4 h16
        · omega
        · exact ⟨h16.2, (Option.some.inj hto4).symm⟩
      obtain ⟨htake12, rfl⟩ := hprefix
      obtain ⟨j, rfl⟩ := Nat.exists_eq_add_of_le (le_of_mapped hlen hle htake12)
      have hbits : (bits base).take (96 + j) = (bits (v4InV6Prefix ++
          (maskBytes base (cidrMask 16 (96 + j))).drop 12)).take (96 + j) := by
        rw [← htake12, List.take_append_drop, take_bits_maskBytes hlen hle]
      have hsplit : base = v4InV6Prefix ++ base.drop 12 := by
        rw [← take_eq_mapped hlen (by omega) hbits, List.take_append_drop]
      have hdrop : (base.drop 12).length = 4 := by rw [List.length_drop, hlen]
      have hm : (cidrMask 16 (96 + j)).drop 12 = cidrMask 4 j := drop_cidrMask 12 4 j
      have hy : (maskBytes base (cidrMask 16 (96 + j))).drop 12 =
          maskBytes (base.drop 12) (cidrMask 4 j) := by
        rw [maskBytes, List.drop_zipWith, hm, maskBytes]
      have hnet : (IPNet.of base 128 (96 + j)).networkNumberAndMask =
          (maskBytes (base.drop 12) (cidrMask 4 j), cidrMask 4 j) := by
        rw [hy] at hto4
        simp [IPNet.networkNumberAndMask, IPNet.of, hmask, hto4, length_maskBytes hdrop, hm]
      rw [contains_v4 hdrop (by omega) hip hnet, ← hsplit]
      exact Iff.rfl

example : ((parseCIDR "10.0.0.0/8").map fun net => net.contains (v4InV6Prefix ++ [10, 1, 2, 3])) = some true := by
  decide +kernel

end Screego.Lib
