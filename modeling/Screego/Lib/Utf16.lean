import Mathlib.Tactic.Basic
import Screego.Lib.Text

/-!
# JavaScript strings

A string of the browser is a list of UTF-16 units, where surrogates may stand alone.

* `JsString`, `JsString.trim`: `String.prototype.trim`; `JsString.Trim`: what it leaves;
* `utf16`: the units of a text; `decode`: the text of the units, as a decoder reads it that puts
  `U+FFFD` for every surrogate that stands alone; **`decode_utf16`**;
* `head_decode`, `getLast_decode`: the ends of the text are the ends of the units.
-/

set_option autoImplicit false

namespace Screego.Lib

/-- A JavaScript string: `length` is the number of its units. -/
abbrev JsString : Type := List UInt16

/-! ## Trimming -/

/-- WhiteSpace and LineTerminator of the language. -/
def jsSpace (u : UInt16) : Bool :=
  let n := u.toNat
  (9 ≤ n && n ≤ 13) || n == 0x20 || n == 0xA0 || n == 0x1680 || (0x2000 ≤ n && n ≤ 0x200A) ||
    n == 0x2028 || n == 0x2029 || n == 0x202F || n == 0x205F || n == 0x3000 || n == 0xFEFF

/-- `String.prototype.trim`. -/
def JsString.trim (s : JsString) : JsString := (s.dropWhile jsSpace).rdropWhile jsSpace

/-- The string neither begins nor ends with white space. -/
structure JsString.Trim (s : JsString) : Prop where
  head : ∀ u, s.head? = some u → jsSpace u = false
  last : ∀ u, s.getLast? = some u → jsSpace u = false

theorem JsString.trim_iff {s : JsString} : JsString.Trim s ↔ JsString.trim s = s := by
  rw [JsString.trim, dropBoth_eq_self_iff]
  exact ⟨fun h => ⟨h.head, h.last⟩, fun h => ⟨h.1, h.2⟩⟩

theorem JsString.trim_trim (s : JsString) : JsString.Trim (JsString.trim s) := by
  rw [JsString.trim_iff, JsString.trim, JsString.trim, dropWhile_rdropWhile_dropWhile,
    List.rdropWhile_idempotent jsSpace (s.dropWhile jsSpace)]

/-! ## Units and characters -/

/-- The units of a character. -/
def utf16Char (c : Char) : JsString :=
  let n := c.toNat
  if n < 0x10000 then [UInt16.ofNat n]
  else [UInt16.ofNat (0xD800 + (n - 0x10000) / 0x400), UInt16.ofNat (0xDC00 + (n - 0x10000) % 0x400)]

/-- The units of a text. -/
def utf16 (l : List Char) : JsString := l.flatMap utf16Char

def isHigh (u : UInt16) : Bool := 0xD800 ≤ u.toNat && u.toNat < 0xDC00

def isLow (u : UInt16) : Bool := 0xDC00 ≤ u.toNat && u.toNat < 0xE000

/-- The character of a surrogate pair. -/
def pairChar (u v : UInt16) : Char :=
  Char.ofNat (0x10000 + (u.toNat - 0xD800) * 0x400 + (v.toNat - 0xDC00))

/-- `unicode.ReplacementChar`. -/
def replacementChar : Char := '\uFFFD'

/-- The character of a unit that is no part of a pair. -/
def unitChar (u : UInt16) : Char :=
  if isHigh u || isLow u then replacementChar else Char.ofNat u.toNat

/-- The text of the units, after a high surrogate that waits for a low one. -/
def decodeFrom : Option UInt16 → JsString → List Char
  | none, [] => []
  | some _, [] => [replacementChar]
  | none, v :: vs => if isHigh v then decodeFrom (some v) vs else unitChar v :: decodeFrom none vs
  | some u, v :: vs =>
    if isLow v then pairChar u v :: decodeFrom none vs
    else replacementChar ::
      if isHigh v then decodeFrom (some v) vs else unitChar v :: decodeFrom none vs

/-- **The text of the units**: a surrogate that stands alone becomes `U+FFFD`. -/
def decode (s : JsString) : List Char := decodeFrom none s

theorem decode_cons (u : UInt16) (us : JsString) : (∃ v vs, us = v :: vs ∧ isHigh u = true ∧
    isLow v = true ∧ decode (u :: us) = pairChar u v :: decode vs) ∨
      decode (u :: us) = unitChar u :: decode us := by
  cases hu : isHigh u with
  | false =>
    refine Or.inr ?_
    rw [decode, decodeFrom, hu]
    rfl
  | true =>
    have hunit : unitChar u = replacementChar := by rw [unitChar, hu]; rfl
    have hd : decode (u :: us) = decodeFrom (some u) us := by rw [decode, decodeFrom, if_pos hu]
    rw [hd, hunit]
    cases us with
    | nil => exact Or.inr rfl
    | cons v vs =>
      cases hv : isLow v with
      | true => exact Or.inl ⟨v, vs, rfl, rfl, hv, by rw [decodeFrom, if_pos hv]; rfl⟩
      | false =>
        refine Or.inr ?_
        rw [decodeFrom, hv, decode, decodeFrom]
        rfl

/-- An induction along the characters of a string. -/
theorem decode_induction {P : JsString → Prop} (nil : P [])
    (pair : ∀ u v vs, isHigh u = true → isLow v = true →
      decode (u :: v :: vs) = pairChar u v :: decode vs → P vs → P (u :: v :: vs))
    (unit : ∀ u us, decode (u :: us) = unitChar u :: decode us → P us → P (u :: us))
    (s : JsString) : P s := by
  induction h : s.length using Nat.strong_induction_on generalizing s with
  | _ n ih =>
    subst h
    cases s with
    | nil => exact nil
    | cons u us =>
      rcases decode_cons u us with ⟨v, vs, rfl, hu, hv, hd⟩ | hd
      · exact pair u v vs hu hv hd (ih vs.length (by simp only [List.length_cons]; omega) vs rfl)
      · exact unit u us hd (ih us.length (by simp only [List.length_cons]; omega) us rfl)

theorem length_decode_le (s : JsString) : (decode s).length ≤ s.length := by
  induction s using decode_induction with
  | nil => exact Nat.zero_le _
  | pair u v vs _ _ hd ih =>
    rw [hd]
    simp only [List.length_cons]
    omega
  | unit u us hd ih =>
    rw [hd]
    simp only [List.length_cons]
    omega

/-! ## Ends -/

/-- A character that a unit can be, on its own: below `U+FFFD`, and no surrogate. -/
def Plain (c : Char) : Prop := c.toNat < 0xFFFD

theorem toNat_charOfNat {n : ℕ} (h : n.isValidChar) : (Char.ofNat n).toNat = n := by
  rw [Char.ofNat, dif_pos h]
  rfl

theorem toNat_pairChar {u v : UInt16} (hu : isHigh u = true) (hv : isLow v = true) :
    (pairChar u v).toNat = 0x10000 + (u.toNat - 0xD800) * 0x400 + (v.toNat - 0xDC00) := by
  simp only [isHigh, isLow, Bool.and_eq_true, decide_eq_true_eq] at hu hv
  rw [pairChar]
  exact toNat_charOfNat (Or.inr (by omega))

theorem not_plain_pairChar {u v : UInt16} (hu : isHigh u = true) (hv : isLow v = true) :
    ¬ Plain (pairChar u v) := by
  rw [Plain, toNat_pairChar hu hv]
  omega

/-- **A plain character is its unit.** -/
theorem toNat_unitChar {u : UInt16} (h : Plain (unitChar u)) : (unitChar u).toNat = u.toNat := by
  rw [Plain, unitChar] at h
  rw [unitChar]
  split_ifs at h ⊢ with hsur
  · exact absurd h (by decide)
  · simp only [isHigh, isLow, Bool.or_eq_true, Bool.and_eq_true, decide_eq_true_eq] at hsur
    have := u.toNat_lt
    refine toNat_charOfNat ?_
    rw [Nat.isValidChar]
    omega

theorem head_decode {s : JsString} {c : Char} (h : (decode s).head? = some c) (hc : Plain c) :
    ∃ u, s.head? = some u ∧ u.toNat = c.toNat := by
  cases s with
  | nil => cases h
  | cons u us =>
    rcases decode_cons u us with ⟨v, vs, rfl, hu, hv, hd⟩ | hd
    · rw [hd, List.head?_cons, Option.some.injEq] at h
      rw [← h] at hc
      exact absurd hc (not_plain_pairChar hu hv)
    · rw [hd, List.head?_cons, Option.some.injEq] at h
      subst h
      exact ⟨u, rfl, (toNat_unitChar hc).symm⟩

theorem decode_ne_nil {s : JsString} (h : s ≠ []) : decode s ≠ [] := by
  cases s with
  | nil => exact absurd rfl h
  | cons u us =>
    rcases decode_cons u us with ⟨v, vs, rfl, -, -, hd⟩ | hd
    · rw [hd]
      exact List.cons_ne_nil _ _
    · rw [hd]
      exact List.cons_ne_nil _ _

theorem getLast_decode {s : JsString} {c : Char} (h : (decode s).getLast? = some c) (hc : Plain c) :
    ∃ u, s.getLast? = some u ∧ u.toNat = c.toNat := by
  induction s using decode_induction with
  | nil => cases h
  | pair u v vs hu hv hd ih =>
    rw [hd] at h
    cases vs with
    | nil =>
      have hlast : pairChar u v = c := Option.some.inj h
      rw [← hlast] at hc
      exact absurd hc (not_plain_pairChar hu hv)
    | cons w ws =>
      obtain ⟨d, ds, hds⟩ := List.exists_cons_of_ne_nil (decode_ne_nil (List.cons_ne_nil w ws))
      rw [hds, List.getLast?_cons_cons, ← hds] at h
      exact ih h
  | unit u us hd ih =>
    rw [hd] at h
    cases us with
    | nil =>
      obtain rfl : unitChar u = c := Option.some.inj h
      exact ⟨u, rfl, (toNat_unitChar hc).symm⟩
    | cons w ws =>
      obtain ⟨d, ds, hds⟩ := List.exists_cons_of_ne_nil (decode_ne_nil (List.cons_ne_nil w ws))
      rw [hds, List.getLast?_cons_cons, ← hds] at h
      exact ih h

theorem decode_cons_of_unit {u : UInt16} (hh : isHigh u = false) (us : JsString) :
    decode (u :: us) = unitChar u :: decode us := by
  rcases decode_cons u us with ⟨v, vs, -, hu, -, -⟩ | hd
  · rw [hh] at hu
    cases hu
  · exact hd

theorem head_decode_of_unit {s : JsString} {u : UInt16} (h : s.head? = some u)
    (hh : isHigh u = false) : (decode s).head? = some (unitChar u) := by
  cases s with
  | nil => cases h
  | cons v vs =>
    cases h
    rw [decode_cons_of_unit hh]
    rfl

theorem getLast_decode_of_unit {s : JsString} {u : UInt16} (h : s.getLast? = some u)
    (hl : isLow u = false) : (decode s).getLast? = some (unitChar u) := by
  induction s using decode_induction with
  | nil => cases h
  | pair v w ws hv hw hd ih =>
    rw [List.getLast?_cons_cons] at h
    rw [hd]
    cases ws with
    | nil =>
      obtain rfl : w = u := Option.some.inj h
      rw [hl] at hw
      cases hw
    | cons x xs =>
      rw [List.getLast?_cons_cons] at h
      obtain ⟨d, ds, hds⟩ := List.exists_cons_of_ne_nil (decode_ne_nil (List.cons_ne_nil x xs))
      rw [hds, List.getLast?_cons_cons, ← hds]
      exact ih h
  | unit v vs hd ih =>
    rw [hd]
    cases vs with
    | nil =>
      cases h
      rfl
    | cons x xs =>
      rw [List.getLast?_cons_cons] at h
      obtain ⟨d, ds, hds⟩ := List.exists_cons_of_ne_nil (decode_ne_nil (List.cons_ne_nil x xs))
      rw [hds, List.getLast?_cons_cons, ← hds]
      exact ih h

/-! ## Round trip -/

theorem decode_utf16Char (c : Char) (us : JsString) : decode (utf16Char c ++ us) = c :: decode us := by
  have hvalid := c.valid
  have hn : c.toNat < 0xD800 ∨ 0xDFFF < c.toNat ∧ c.toNat < 0x110000 := hvalid
  rw [utf16Char]
  split_ifs with hsmall
  · have hu : (UInt16.ofNat c.toNat).toNat = c.toNat := by
      rw [UInt16.toNat_ofNat']
      exact Nat.mod_eq_of_lt hsmall
    have hsur : ∀ {u : UInt16}, u.toNat = c.toNat → isHigh u = false ∧ isLow u = false := by
      intro u hu
      simp only [isHigh, isLow, hu, Bool.and_eq_false_iff, decide_eq_false_iff_not]
      omega
    have hunit : unitChar (UInt16.ofNat c.toNat) = c := by
      rw [unitChar, (hsur hu).1, (hsur hu).2, hu]
      exact Char.ofNat_toNat c
    exact (decode_cons_of_unit (hsur hu).1 us).trans (by rw [hunit])
  · set u := UInt16.ofNat (0xD800 + (c.toNat - 0x10000) / 0x400)
    set v := UInt16.ofNat (0xDC00 + (c.toNat - 0x10000) % 0x400)
    have hu : u.toNat = 0xD800 + (c.toNat - 0x10000) / 0x400 := by
      rw [UInt16.toNat_ofNat']
      exact Nat.mod_eq_of_lt (by omega)
    have hv : v.toNat = 0xDC00 + (c.toNat - 0x10000) % 0x400 := by
      rw [UInt16.toNat_ofNat']
      exact Nat.mod_eq_of_lt (by omega)
    have hpair : (isHigh u && isLow v) = true := by
      simp only [isHigh, isLow, hu, hv, Bool.and_eq_true, decide_eq_true_eq]
      omega
    obtain ⟨hh, hl⟩ := Bool.and_eq_true_iff.mp hpair
    have hc : pairChar u v = c := by
      apply Char.toNat_inj.mp
      rw [toNat_pairChar hh hl, hu, hv]
      omega
    change decode (u :: v :: us) = c :: decode us
    rw [decode, decodeFrom, if_pos hh, decodeFrom, if_pos hl, hc]
    rfl

/-- **A text is read back from its units.** -/
theorem decode_utf16 (l : List Char) : decode (utf16 l) = l := by
  induction l with
  | nil => rfl
  | cons c l ih => rw [utf16, List.flatMap_cons, decode_utf16Char, ← utf16, ih]

/-- The units are those of a text: no surrogate stands alone. -/
def JsString.WellFormed (s : JsString) : Prop := utf16 (decode s) = s

instance (s : JsString) : Decidable (JsString.WellFormed s) :=
  inferInstanceAs (Decidable (utf16 (decode s) = s))

theorem wellFormed_utf16 (l : List Char) : JsString.WellFormed (utf16 l) := by
  rw [JsString.WellFormed, decode_utf16]

end Screego.Lib
