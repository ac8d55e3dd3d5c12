import Mathlib.Data.List.Infix
import Mathlib.Tactic.Basic

/-!
# Searching a text

Where a pattern can stand in a text made of parts, and in a text in lower case.

* `infix_append`: a pattern in a concatenation; `Apart`, `infix_between`: parts that have nothing to do
  with the pattern;
* `CaseTable`, `toLowerCase`: `String.prototype.toLowerCase`;
* `Plainly`, **`infix_toLowerCase`**: patterns that only letters of ASCII become.
-/

set_option autoImplicit false

namespace Screego.Lib

/-! ## Parts -/

section Parts

variable {α : Type} {p x r l : List α}

/-- **A pattern in a concatenation** is in the second part, or begins in the first. -/
theorem infix_append (h : p <:+: x ++ r) : p <:+: r ∨ ∃ y, y <:+ x ∧ y ≠ [] ∧ p <+: y ++ r := by
  obtain ⟨a, b, hab⟩ := h
  rw [List.append_assoc] at hab
  rcases List.append_eq_append_iff.mp hab with ⟨y, rfl, hy⟩ | ⟨z, rfl, hz⟩
  · by_cases hnil : y = []
    · rw [hnil, List.nil_append] at hy
      exact Or.inl ⟨[], b, hy⟩
    · exact Or.inr ⟨y, ⟨a, rfl⟩, hnil, ⟨b, hy⟩⟩
  · exact Or.inl ⟨z, b, by rw [List.append_assoc, hz]⟩

variable [DecidableEq α]

/-- No end of `x` begins the pattern, or the other way round. -/
def apart (x p : List α) : Bool :=
  x.tails.all fun y => y.isEmpty || (!y.isPrefixOf p && !p.isPrefixOf y)

theorem infix_of_apart (ha : apart x p = true) (h : p <:+: x ++ r) : p <:+: r := by
  rcases infix_append h with h | ⟨y, hy, hne, hpre⟩
  · exact h
  have hy := List.all_eq_true.mp ha y ((List.mem_tails y x).mpr hy)
  simp only [List.isEmpty_iff, hne, Bool.or_eq_true, false_or, Bool.and_eq_true,
    Bool.not_eq_true', Bool.eq_false_iff, ne_eq, List.isPrefixOf_iff_prefix] at hy
  rcases List.prefix_or_prefix_of_prefix hpre (List.prefix_append y r) with h | h
  · exact absurd h hy.2
  · exact absurd h hy.1

/-- **Parts before and after the text** that have nothing to do with the pattern. -/
theorem infix_between {y : List α} (hx : apart x p = true)
    (hy : apart y.reverse p.reverse = true) : p <:+: x ++ l ++ y ↔ p <:+: l := by
  constructor
  · intro h
    rw [List.append_assoc] at h
    have hrev := List.reverse_infix.mpr (infix_of_apart hx h)
    rw [List.reverse_append] at hrev
    exact List.reverse_infix.mp (infix_of_apart hy hrev)
  · exact fun h => h.trans ⟨x, y, rfl⟩

end Parts

/-! ## Lower case -/

/-- Lower-casing a letter of ASCII does not leave it, and nothing else enters it. -/
theorem toNat_toLower_lt (c : Char) : c.toLower.toNat < 0x80 ↔ c.toNat < 0x80 := by
  unfold Char.toLower
  split_ifs with hupper
  · have hle : c.toNat ≤ 90 := UInt32.le_iff_toNat_le.mp hupper.2
    have hval : (c.val + ('a'.val - 'A'.val)).toNat = c.toNat + 32 := by
      rw [UInt32.toNat_add]
      exact Nat.mod_eq_of_lt (by change c.toNat + 32 < 2 ^ 32; omega)
    refine iff_of_true ?_ (by omega)
    change (c.val + ('a'.val - 'A'.val)).toNat < 0x80
    omega
  · rfl

/-- **The lower-case mappings of Unicode**: of a character between what stands before and after it,
which a final sigma looks at. Outside ASCII only two characters become letters of ASCII. -/
structure CaseTable where
  lower : List Char → Char → List Char → List Char
  ascii : ∀ pre c post, c.toNat < 0x80 → lower pre c post = [c.toLower]
  /-- The Kelvin sign. -/
  kelvin : ∀ pre post, lower pre '\u212A' post = ['k']
  /-- The capital I with a dot. -/
  dotted : ∀ pre post, lower pre '\u0130' post = ['i', '\u0307']
  other : ∀ pre c post, 0x80 ≤ c.toNat → c ≠ '\u212A' → c ≠ '\u0130' →
    lower pre c post ≠ [] ∧ ∀ d ∈ lower pre c post, 0x80 ≤ d.toNat

/-- A table that leaves the other characters alone. -/
def CaseTable.plain : CaseTable where
  lower _ c _ :=
    if c = '\u212A' then ['k'] else if c = '\u0130' then ['i', '\u0307'] else [c.toLower]
  ascii _ c _ hc := by
    have hk : c ≠ '\u212A' := by rintro rfl; exact absurd hc (by decide)
    have hi : c ≠ '\u0130' := by rintro rfl; exact absurd hc (by decide)
    rw [if_neg hk, if_neg hi]
  kelvin _ _ := rfl
  dotted _ _ := rfl
  other _ c _ hc hk hi := by
    rw [if_neg hk, if_neg hi]
    refine ⟨List.cons_ne_nil _ _, fun d hd => ?_⟩
    obtain rfl := List.mem_singleton.mp hd
    exact Nat.not_lt.mp fun hlt => absurd ((toNat_toLower_lt c).mp hlt) (Nat.not_lt.mpr hc)

variable (T : CaseTable)

/-- The text in lower case, after `pre`. -/
def lowerFrom : List Char → List Char → List Char
  | _, [] => []
  | pre, c :: post => T.lower pre c post ++ lowerFrom (pre ++ [c]) post

/-- **`String.prototype.toLowerCase`.** -/
def toLowerCase (s : List Char) : List Char := lowerFrom T [] s

/-- **A pattern that only letters of ASCII become**: it has no `k`, and no `i` at its end. -/
structure Plainly (p : List Char) : Prop where
  ascii : ∀ c ∈ p, c.toNat < 0x80
  k : 'k' ∉ p
  i : p.getLast? ≠ some 'i'

instance (p : List Char) : Decidable (Plainly p) :=
  decidable_of_iff (p.all (fun c => c.toNat < 0x80) = true ∧ 'k' ∉ p ∧ p.getLast? ≠ some 'i')
    ⟨fun h => ⟨fun c hc => by simpa using List.all_eq_true.mp h.1 c hc, h.2.1, h.2.2⟩,
      fun h => ⟨List.all_eq_true.mpr fun c hc => by simpa using h.ascii c hc, h.k, h.i⟩⟩

variable {T} {p : List Char} {c : Char}

theorem Plainly.tail (h : Plainly (c :: p)) : Plainly p where
  ascii d hd := h.ascii d (List.mem_cons_of_mem _ hd)
  k hk := h.k (List.mem_cons_of_mem _ hk)
  i hi := by
    cases p with
    | nil => cases hi
    | cons d p => exact h.i (by rw [List.getLast?_cons_cons, hi])

theorem CaseTable.lower_ne_nil (pre : List Char) (c : Char) (post : List Char) :
    T.lower pre c post ≠ [] := by
  by_cases hascii : c.toNat < 0x80
  · rw [T.ascii _ _ _ hascii]
    exact List.cons_ne_nil _ _
  by_cases hk : c = '\u212A'
  · rw [hk, T.kelvin]
    exact List.cons_ne_nil _ _
  by_cases hi : c = '\u0130'
  · rw [hi, T.dotted]
    exact List.cons_ne_nil _ _
  · exact (T.other pre c post (Nat.not_lt.mp hascii) hk hi).1

/-- **Where such a pattern begins** in what becomes of a character, there is one letter. -/
theorem Plainly.eq_of_prefix (h : Plainly p) (hp : p ≠ []) {pre post rest y : List Char}
    (hy : y <:+ T.lower pre c post) (hne : y ≠ []) (hpre : p <+: y ++ rest) :
    y = [c.toLower] ∧ T.lower pre c post = [c.toLower] := by
  obtain ⟨d, p, rfl⟩ := List.exists_cons_of_ne_nil hp
  obtain ⟨e, y, rfl⟩ := List.exists_cons_of_ne_nil hne
  rw [List.cons_append, List.cons_prefix_cons] at hpre
  obtain ⟨rfl, hpre⟩ := hpre
  have hd : d.toNat < 0x80 := h.ascii d List.mem_cons_self
  by_cases hascii : c.toNat < 0x80
  · rw [T.ascii _ _ _ hascii] at hy ⊢
    refine ⟨?_, rfl⟩
    have hlen := hy.length_le
    exact hy.eq_of_length (by simp only [List.length_cons, List.length_nil] at hlen ⊢; omega)
  by_cases hk : c = '\u212A'
  · rw [hk, T.kelvin] at hy
    obtain rfl : d = 'k' := List.mem_singleton.mp (hy.subset List.mem_cons_self)
    exact absurd List.mem_cons_self h.k
  by_cases hi : c = '\u0130'
  · rw [hi, T.dotted] at hy
    rcases List.suffix_cons_iff.mp hy with he | hy
    · cases he
      cases p with
      | nil => exact absurd rfl h.i
      | cons f p =>
        obtain ⟨rfl, -⟩ := List.cons_prefix_cons.mp hpre
        exact absurd (h.ascii _ (List.mem_cons_of_mem _ List.mem_cons_self)) (by decide)
    · obtain rfl : d = '\u0307' := List.mem_singleton.mp (hy.subset List.mem_cons_self)
      exact absurd hd (by decide)
  · have := (T.other pre c post (Nat.not_lt.mp hascii) hk hi).2 d (hy.subset List.mem_cons_self)
    omega

theorem Plainly.prefix_map (h : Plainly p) {pre s : List Char} (hp : p <+: lowerFrom T pre s) :
    p <+: s.map Char.toLower := by
  induction s generalizing p pre with
  | nil => exact hp
  | cons c s ih =>
    by_cases hnil : p = []
    · rw [hnil]
      exact List.nil_prefix
    · obtain ⟨-, hlower⟩ := h.eq_of_prefix hnil List.suffix_rfl (T.lower_ne_nil pre c s) hp
      obtain ⟨d, p, rfl⟩ := List.exists_cons_of_ne_nil hnil
      rw [lowerFrom, hlower, List.singleton_append, List.cons_prefix_cons] at hp
      exact List.cons_prefix_cons.mpr ⟨hp.1, ih h.tail hp.2⟩

theorem prefix_lowerFrom (h : ∀ c ∈ p, c.toNat < 0x80) {s : List Char}
    (hp : p <+: s.map Char.toLower) (pre : List Char) : p <+: lowerFrom T pre s := by
  induction s generalizing p pre with
  | nil => exact hp
  | cons c s ih =>
    cases p with
    | nil => exact List.nil_prefix
    | cons d p =>
      obtain ⟨rfl, hrest⟩ := List.cons_prefix_cons.mp hp
      have hc := (toNat_toLower_lt c).mp (h _ List.mem_cons_self)
      rw [lowerFrom, T.ascii _ _ _ hc, List.singleton_append]
      exact List.cons_prefix_cons.mpr
        ⟨rfl, ih (fun d hd => h d (List.mem_cons_of_mem _ hd)) hrest _⟩

/-- **Searching a text in lower case** for such a pattern: only the letters of ASCII matter. -/
theorem infix_toLowerCase (h : Plainly p) (hp : p ≠ []) (s : List Char) :
    p <:+: toLowerCase T s ↔ p <:+: s.map Char.toLower := by
  rw [toLowerCase]
  generalize ([] : List Char) = pre
  constructor
  · intro hin
    induction s generalizing pre with
    | nil => exact hin
    | cons c s ih =>
      rcases infix_append hin with hrest | ⟨y, hy, hne, hpre⟩
      · exact (ih _ hrest).trans (List.suffix_cons _ _).isInfix
      · obtain ⟨rfl, -⟩ := h.eq_of_prefix hp hy hne hpre
        obtain ⟨d, p, rfl⟩ := List.exists_cons_of_ne_nil hp
        obtain ⟨rfl, htail⟩ := List.cons_prefix_cons.mp hpre
        exact (List.cons_prefix_cons.mpr ⟨rfl, h.tail.prefix_map htail⟩).isInfix
  · intro hin
    induction s generalizing pre with
    | nil => exact hin
    | cons c s ih =>
      rcases List.infix_cons_iff.mp hin with hpre | hin
      · exact (prefix_lowerFrom h.ascii (s := c :: s) hpre pre).isInfix
      · exact (ih _ hin).trans (List.suffix_append _ _).isInfix

end Screego.Lib
