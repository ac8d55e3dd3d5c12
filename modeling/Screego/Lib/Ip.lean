import Mathlib.Data.List.Basic
import Screego.Lib.Decimal
import Screego.Lib.Text

/-!
# IP addresses

The reader of IP literals of Go's `net` package, and the test for IPv4 addresses.

* `to4`: the four bytes of an IPv4 address, in either of its forms;
* `parseIPv4Fields`, `parseIPv6`, `parseIP`;
* **`length_parseIP`**: what is read has sixteen bytes;
* `ipText`: a printer; `colon_mem_ipText`: its colons tell the kinds of addresses apart.
-/

set_option autoImplicit false

namespace Screego.Lib

/-- The mark of an IPv4 address among the addresses of sixteen bytes. -/
def v4InV6Prefix : List UInt8 := List.replicate 10 0 ++ [0xff, 0xff]

/-- `net.IP.To4`. -/
def to4 (ip : List UInt8) : Option (List UInt8) :=
  if ip.length = 4 then some ip
  else if ip.length = 16 ∧ ip.take 12 = v4InV6Prefix then some (ip.drop 12)
  else none

/-- The bytes are an address. -/
def IsAddress (ip : List UInt8) : Prop := ip.length = 4 ∨ ip.length = 16

/-! ## The reader -/

/-- A field of an IPv4 literal: at most 255, without a leading zero. -/
def parseOctet (l : List Char) : Option UInt8 :=
  match parseUint 8 l with
  | .error _ => none
  | .ok n => if l.head? = some '0' ∧ 1 < l.length then none else some (UInt8.ofNat n)

/-- `parseIPv4Fields`. -/
def parseIPv4Fields (s : List Char) : Option (List UInt8) :=
  match s.splitOn '.' with
  | [a, b, c, d] => do some [← parseOctet a, ← parseOctet b, ← parseOctet c, ← parseOctet d]
  | _ => none

def isHexDigit (c : Char) : Bool :=
  c.isDigit || ('a' ≤ c && c ≤ 'f') || ('A' ≤ c && c ≤ 'F')

def hexDigitValue (c : Char) : ℕ :=
  if c.isDigit then c.toNat - '0'.toNat
  else if 'a' ≤ c then c.toNat - 'a'.toNat + 10
  else c.toNat - 'A'.toNat + 10

/-- The two bytes of a group of hexadecimal digits. -/
def groupBytes (digits : List Char) : List UInt8 :=
  let acc := digits.foldl (fun acc c => 16 * acc + hexDigitValue c) 0
  [UInt8.ofNat (acc / 256), UInt8.ofNat acc]

/-- The loop of `parseIPv6` behind the bytes `ip`, with room for `n` more groups and the place of the
ellipsis. -/
def parseGroups : ℕ → List UInt8 → Option ℕ → List Char → Option (List UInt8 × Option ℕ)
  | 0, _, _, _ => none
  | n + 1, ip, ellipsis, s =>
    let digits := s.takeWhile isHexDigit
    if digits = [] ∨ 4 < digits.length then none
    else
      match s.dropWhile isHexDigit with
      | [] => some (ip ++ groupBytes digits, ellipsis)
      | '.' :: _ =>
        -- an IPv4 literal stands for the last two groups
        if (ellipsis = none ∧ ip.length ≠ 12) ∨ 16 < ip.length + 4 then none
        else (parseIPv4Fields s).map fun v4 => (ip ++ v4, ellipsis)
      | [':'] => none
      | [':', ':'] => if ellipsis = none then some (ip ++ groupBytes digits, some (ip.length + 2)) else none
      | ':' :: ':' :: rest =>
        if ellipsis = none then parseGroups n (ip ++ groupBytes digits) (some (ip.length + 2)) rest
        else none
      | ':' :: rest => parseGroups n (ip ++ groupBytes digits) ellipsis rest
      | _ => none

/-- The zeros an ellipsis stands for. -/
def expand (ip : List UInt8) : Option ℕ → Option (List UInt8)
  | none => if ip.length < 16 then none else some ip
  | some ellipsis =>
    if ip.length < 16 then
      some (ip.take ellipsis ++ List.replicate (16 - ip.length) 0 ++ ip.drop ellipsis)
    else none

/-- `parseIPv6`. -/
def parseIPv6 (s : List Char) : Option (List UInt8) :=
  match s with
  | [':', ':'] => some (List.replicate 16 0)
  | ':' :: ':' :: rest => (parseGroups 8 [] (some 0) rest).bind fun p => expand p.1 p.2
  | s => (parseGroups 8 [] none s).bind fun p => expand p.1 p.2

/-- **`net.ParseIP`.** A literal with a zone is none. -/
def parseIP (s : String) : Option (List UInt8) :=
  match s.toList.find? fun c => c == '.' || c == ':' || c == '%' with
  | some '.' => (parseIPv4Fields s.toList).map (v4InV6Prefix ++ ·)
  | some ':' => if '%' ∈ s.toList then none else parseIPv6 s.toList
  | _ => none

/-! ## What is read -/

variable {s : List Char} {ip bytes : List UInt8} {ellipsis e : Option ℕ} {n : ℕ}

theorem length_parseIPv4Fields (h : parseIPv4Fields s = some bytes) : bytes.length = 4 := by
  unfold parseIPv4Fields at h
  split at h
  · obtain ⟨a, -, h⟩ := Option.bind_eq_some_iff.mp h
    obtain ⟨b, -, h⟩ := Option.bind_eq_some_iff.mp h
    obtain ⟨c, -, h⟩ := Option.bind_eq_some_iff.mp h
    obtain ⟨d, -, h⟩ := Option.bind_eq_some_iff.mp h
    cases h
    rfl
  · cases h

/-- The loop reads no more than sixteen bytes. -/
theorem length_parseGroups (hlen : ip.length + 2 * n ≤ 16)
    (h : parseGroups n ip ellipsis s = some (bytes, e)) : bytes.length ≤ 16 := by
  induction n generalizing ip ellipsis s with
  | zero => cases h
  | succ n ih =>
    have hgroup : ∀ digits, (ip ++ groupBytes digits).length = ip.length + 2 := fun digits => by
      simp [groupBytes]
    unfold parseGroups at h
    by_cases hdigits : s.takeWhile isHexDigit = [] ∨ 4 < (s.takeWhile isHexDigit).length
    · rw [if_pos hdigits] at h
      cases h
    rw [if_neg hdigits] at h
    split at h
    · cases h
      rw [hgroup]
      omega
    · split_ifs at h with hroom
      obtain ⟨v4, hv4, heq⟩ := Option.map_eq_some_iff.mp h
      cases heq
      rw [List.length_append, length_parseIPv4Fields hv4]
      omega
    · cases h
    · split_ifs at h
      cases h
      rw [hgroup]
      omega
    · split_ifs at h
      exact ih (by rw [hgroup]; omega) h
    · exact ih (by rw [hgroup]; omega) h
    · cases h

theorem length_expand (hlen : ip.length ≤ 16) (h : expand ip ellipsis = some bytes) :
    bytes.length = 16 := by
  cases ellipsis with
  | none =>
    simp only [expand] at h
    split_ifs at h
    cases h
    omega
  | some place =>
    simp only [expand] at h
    split_ifs at h
    cases h
    simp only [List.length_append, List.length_take, List.length_replicate, List.length_drop]
    omega

/-- **What is read** has the length of an IPv6 address. -/
theorem length_parseIP {s : String} (h : parseIP s = some bytes) : bytes.length = 16 := by
  have hgroups : ∀ {l : List Char} {place : Option ℕ},
      ((parseGroups 8 [] place l).bind fun p => expand p.1 p.2) = some bytes →
      bytes.length = 16 := by
    intro l place h
    obtain ⟨⟨ip, e⟩, hp, he⟩ := Option.bind_eq_some_iff.mp h
    exact length_expand (length_parseGroups (by simp) hp) he
  unfold parseIP at h
  split at h
  · obtain ⟨v4, hv4, rfl⟩ := Option.map_eq_some_iff.mp h
    rw [List.length_append, length_parseIPv4Fields hv4]
    rfl
  · split_ifs at h
    unfold parseIPv6 at h
    split at h
    · cases h
      rfl
    · exact hgroups h
    · exact hgroups h
  · cases h

/-- The name of a DNS provider is no literal. -/
theorem parseIP_dns (l : List Char) : parseIP (String.ofList ('d' :: 'n' :: 's' :: ':' :: l)) = none := by
  have hfind : ('d' :: 'n' :: 's' :: ':' :: l).find? (fun c => c == '.' || c == ':' || c == '%') =
      some ':' := rfl
  unfold parseIP
  rw [String.toList_ofList, hfind]
  simp only
  split_ifs
  · rfl
  · rfl

/-! ## A printer -/

/-- The groups of an IPv6 address. -/
def groups : List UInt8 → List (List Char)
  | a :: b :: ip => Nat.toDigits 16 (a.toNat * 256 + b.toNat) :: groups ip
  | _ => []

/-- The text of an address, with every group of an IPv6 address written out: as `net.IP.String`
prints those in which no two groups that follow each other are zero. -/
def ipText (ip : List UInt8) : String :=
  match to4 ip with
  | some ip => String.ofList (['.'].intercalate (ip.map fun b => Nat.toDigits 10 b.toNat))
  | none => String.ofList ([':'].intercalate (groups ip))

/-- **Colons tell** IPv6 addresses. -/
theorem colon_mem_ipText (h : IsAddress ip) : ':' ∈ (ipText ip).toList ↔ to4 ip = none := by
  unfold ipText
  cases hip : to4 ip with
  | some ip' =>
    refine iff_of_false ?_ (Option.some_ne_none _)
    rw [String.toList_ofList]
    intro hc
    rcases mem_intercalate hc with heq | ⟨l, hl, hc⟩
    · exact absurd heq (by decide)
    · obtain ⟨b, -, rfl⟩ := List.mem_map.mp hl
      exact absurd (Nat.isDigit_of_mem_toDigits (by decide) (by decide) hc) (by decide)
  | none =>
    refine iff_of_true ?_ rfl
    have hlen : ip.length = 16 := by
      rcases h with h | h
      · rw [to4, if_pos h] at hip
        cases hip
      · exact h
    obtain ⟨a, ip, rfl⟩ := List.exists_cons_of_length_eq_add_one hlen
    obtain ⟨b, ip, rfl⟩ := List.exists_cons_of_length_eq_add_one (Nat.succ.inj hlen)
    obtain ⟨c, ip, rfl⟩ :=
      List.exists_cons_of_length_eq_add_one (Nat.succ.inj (Nat.succ.inj hlen))
    obtain ⟨d, ip, rfl⟩ :=
      List.exists_cons_of_length_eq_add_one (Nat.succ.inj (Nat.succ.inj (Nat.succ.inj hlen)))
    rw [String.toList_ofList, groups, groups, List.intercalate_cons_cons, List.append_assoc]
    exact List.mem_append_right _ List.mem_cons_self

example : parseIP "203.0.113.7" = some (v4InV6Prefix ++ [203, 0, 113, 7]) := by decide +kernel

example : parseIP "2001:db8::ffff:1.2.3.4" =
    some [0x20, 1, 0xd, 0xb8, 0, 0, 0, 0, 0, 0, 0xff, 0xff, 1, 2, 3, 4] := by decide +kernel

end Screego.Lib
