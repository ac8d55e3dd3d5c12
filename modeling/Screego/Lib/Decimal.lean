import Mathlib.Algebra.GroupWithZero.Nat
import Mathlib.Data.List.Basic
import Mathlib.Tactic.Basic

/-!
# Decimal numbers of limited size

What `strconv.ParseUint` makes of a text in base 10: digits only, no sign, no separators, and a value
that fits the size.

* `decimalFrom`, `IsDecimal`: the number a list of digits writes;
* `parseDigits`, `parseUint`: the reader; **`parseUint_eq_ok`**: it reads the numbers that fit.
-/

set_option autoImplicit false

namespace Screego.Lib

/-- The value of a digit. -/
def digit (c : Char) : ℕ := c.toNat - '0'.toNat

/-- The number written by the digits `l` behind those of `n`. -/
def decimalFrom (n : ℕ) (l : List Char) : ℕ := l.foldl (fun n c => 10 * n + digit c) n

/-- **A decimal number.** -/
structure IsDecimal (l : List Char) (n : ℕ) : Prop where
  ne_nil : l ≠ []
  digits : ∀ c ∈ l, c.isDigit = true
  value : decimalFrom 0 l = n

theorem isDecimal_iff {l : List Char} {n : ℕ} : IsDecimal l n ↔
    l.isEmpty = false ∧ l.all Char.isDigit = true ∧ decimalFrom 0 l = n := by
  rw [List.isEmpty_eq_false_iff, List.all_eq_true]
  exact ⟨fun h => ⟨h.ne_nil, h.digits, h.value⟩, fun h => ⟨h.1, h.2.1, h.2.2⟩⟩

instance (l : List Char) (n : ℕ) : Decidable (IsDecimal l n) :=
  decidable_of_iff _ isDecimal_iff.symm

/-- The two ways to fail of `strconv.ParseUint`. -/
inductive NumError where
  | errSyntax
  | errRange
deriving DecidableEq

/-- `NumError.Err.Error()`. -/
def NumError.text : NumError → String
  | errSyntax => "invalid syntax"
  | errRange => "value out of range"

/-- The loop of `strconv.ParseUint`, behind the digits of `n`. -/
def parseDigits (maxVal : ℕ) : ℕ → List Char → Except NumError ℕ
  | n, [] => .ok n
  | n, c :: l =>
    if c.isDigit then
      if maxVal < 10 * n + digit c then .error .errRange else parseDigits maxVal (10 * n + digit c) l
    else .error .errSyntax

/-- `strconv.ParseUint(s, 10, bitSize)`. -/
def parseUint (bitSize : ℕ) (s : List Char) : Except NumError ℕ :=
  if s.isEmpty then .error .errSyntax else parseDigits (2 ^ bitSize - 1) 0 s

variable {maxVal n m bitSize : ℕ} {l : List Char}

theorem IsDecimal.notMem (h : IsDecimal l n) {c : Char} (hc : c.isDigit = false) : c ∉ l :=
  fun hmem => Bool.false_ne_true (hc.symm.trans (h.digits c hmem))

theorem le_decimalFrom (n : ℕ) (l : List Char) : n ≤ decimalFrom n l := by
  induction l generalizing n with
  | nil => exact Nat.le_refl n
  | cons c l ih =>
    have := ih (10 * n + digit c)
    show n ≤ decimalFrom (10 * n + digit c) l
    omega

theorem parseDigits_eq_ok (hn : n ≤ maxVal) : parseDigits maxVal n l = .ok m ↔
    (∀ c ∈ l, c.isDigit = true) ∧ decimalFrom n l = m ∧ m ≤ maxVal := by
  induction l generalizing n with
  | nil =>
    simp only [parseDigits, decimalFrom, List.foldl_nil, Except.ok.injEq, List.not_mem_nil,
      false_implies, implies_true, true_and]
    exact ⟨fun h => ⟨h, h ▸ hn⟩, And.left⟩
  | cons c l ih =>
    unfold parseDigits
    rw [List.forall_mem_cons]
    split_ifs with hc hbig
    · refine iff_of_false (by simp) ?_
      rintro ⟨-, rfl, hle⟩
      have := le_decimalFrom (10 * n + digit c) l
      change decimalFrom (10 * n + digit c) l ≤ maxVal at hle
      omega
    · rw [ih (by omega)]
      simp only [hc, true_and]
      rfl
    · exact iff_of_false (by simp) fun h => hc h.1.1

/-- **What `strconv.ParseUint` reads.** -/
theorem parseUint_eq_ok : parseUint bitSize l = .ok m ↔ IsDecimal l m ∧ m < 2 ^ bitSize := by
  have hpos : 0 < 2 ^ bitSize := Nat.two_pow_pos bitSize
  unfold parseUint
  split_ifs with hl
  · exact iff_of_false (by simp) fun h => h.1.ne_nil (List.isEmpty_iff.mp hl)
  · rw [parseDigits_eq_ok (Nat.zero_le _)]
    constructor
    · rintro ⟨hd, hv, hle⟩
      exact ⟨⟨fun hnil => hl (List.isEmpty_iff.mpr hnil), hd, hv⟩, by omega⟩
    · rintro ⟨h, hlt⟩
      exact ⟨h.digits, h.value, by omega⟩

end Screego.Lib
