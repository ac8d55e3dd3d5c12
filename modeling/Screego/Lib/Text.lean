import Mathlib.Data.List.DropRight
import Mathlib.Tactic.Basic

/-!
# Go strings

Text that has passed a JSON decoder is valid UTF-8: a `String`, whose `len` is its length in bytes.
Other text is a `GoString`.

* `isSpace`, `trimSpace`: `unicode.IsSpace` and `strings.TrimSpace`; `trimSpace_idem`;
* `Trimmed`: text that trimming leaves alone, and leaves;
* `mem_intercalate`, `getLast?_intercalate`: text joined from parts.
-/

namespace Screego.Lib

/-- `unicode.IsSpace`: the characters with the White_Space property. -/
def isSpace (c : Char) : Bool :=
  let n := c.toNat
  (9 ≤ n && n ≤ 13) || n == 0x20 || n == 0x85 || n == 0xA0 || n == 0x1680 ||
    (0x2000 ≤ n && n ≤ 0x200A) || n == 0x2028 || n == 0x2029 || n == 0x202F || n == 0x205F ||
    n == 0x3000

/-- A character of a Go string that need not be valid UTF-8, or a byte of it that is part of none. -/
inductive Rune where
  | char (c : Char)
  | stray (byte : UInt8)
  deriving DecidableEq

def Rune.isSpace : Rune → Bool
  | .char c => Lib.isSpace c
  | .stray _ => false

/-- Any bytes, taken apart. -/
abbrev GoString := List Rune

def goString (s : String) : GoString := s.toList.map .char

/-- A letter in lower case stays as it is. -/
theorem toLower_toLower (c : Char) : c.toLower.toLower = c.toLower := by
  by_cases h : c.val ≥ 'A'.val ∧ c.val ≤ 'Z'.val
  · have hval : c.toLower.val = c.val + 32 := by
      unfold Char.toLower
      rw [dif_pos h]
      rfl
    have hnot : ¬ (c.toLower.val ≥ 'A'.val ∧ c.toLower.val ≤ 'Z'.val) := by
      rw [hval]
      rintro ⟨-, hle⟩
      have hA : 65 ≤ c.val.toNat := h.1
      have hZ : c.val.toNat ≤ 90 := h.2
      have hle : (c.val + 32).toNat ≤ 90 := hle
      rw [UInt32.toNat_add] at hle
      have hmod : (c.val.toNat + UInt32.toNat 32) % 2 ^ 32 = c.val.toNat + 32 :=
        Nat.mod_eq_of_lt (show c.val.toNat + 32 < 2 ^ 32 by omega)
      omega
    exact dif_neg hnot
  · have hsame : c.toLower = c := dif_neg h
    rw [hsame, hsame]

/-- `strings.TrimSpace`. -/
def trimSpace (s : String) : String :=
  String.ofList ((s.toList.dropWhile isSpace).rdropWhile isSpace)

theorem toList_trimSpace (s : String) :
    (trimSpace s).toList = (s.toList.dropWhile isSpace).rdropWhile isSpace :=
  String.toList_ofList

section Drop

variable {α : Type} (p : α → Bool) (l : List α)

/-- Nothing is dropped from the start. -/
theorem dropWhile_eq_self_iff_head :
    l.dropWhile p = l ↔ ∀ a, l.head? = some a → p a = false := by
  cases l with
  | nil => simp
  | cons a l =>
    rw [List.dropWhile_eq_self_iff]
    simp

/-- Nothing is dropped from the end. -/
theorem rdropWhile_eq_self_iff_getLast :
    l.rdropWhile p = l ↔ ∀ a, l.getLast? = some a → p a = false := by
  rw [List.rdropWhile_eq_self_iff]
  constructor
  · intro h a ha
    have hne : l ≠ [] := fun e => by
      rw [e] at ha
      cases ha
    rw [List.getLast?_eq_some_getLast hne] at ha
    cases ha
    exact Bool.eq_false_iff.mpr (h hne)
  · intro h hne
    rw [h _ (List.getLast?_eq_some_getLast hne)]
    exact Bool.false_ne_true

/-- Dropping from the end does not uncover anything to drop from the start. -/
theorem dropWhile_rdropWhile_dropWhile :
    ((l.dropWhile p).rdropWhile p).dropWhile p = (l.dropWhile p).rdropWhile p := by
  rw [List.dropWhile_eq_self_iff]
  intro h
  have hp := List.rdropWhile_prefix p (l.dropWhile p)
  rw [hp.getElem h]
  exact List.dropWhile_get_zero_not p l (h.trans_le hp.length_le)

/-- **A list is what is left of it at both ends** when neither end is dropped. -/
theorem dropBoth_eq_self_iff : (l.dropWhile p).rdropWhile p = l ↔
    (∀ a, l.head? = some a → p a = false) ∧ ∀ a, l.getLast? = some a → p a = false := by
  rw [← dropWhile_eq_self_iff_head, ← rdropWhile_eq_self_iff_getLast]
  constructor
  · intro h
    have hhead := dropWhile_rdropWhile_dropWhile p l
    rw [h] at hhead
    rw [hhead] at h
    exact ⟨hhead, h⟩
  · rintro ⟨hhead, hlast⟩
    rw [hhead, hlast]

end Drop

section Intercalate

variable {α : Type} {sep c : α} {ls : List (List α)}

/-- What stands between separators, and the separators. -/
theorem mem_intercalate (h : c ∈ [sep].intercalate ls) : c = sep ∨ ∃ l ∈ ls, c ∈ l := by
  induction ls with
  | nil => cases h
  | cons l ls ih =>
    cases ls with
    | nil => exact Or.inr ⟨l, List.mem_cons_self, by rwa [List.intercalate_singleton] at h⟩
    | cons l' ls =>
      rw [List.intercalate_cons_cons, List.append_assoc, List.singleton_append] at h
      rcases List.mem_append.mp h with h | h
      · exact Or.inr ⟨l, List.mem_cons_self, h⟩
      · rcases List.mem_cons.mp h with h | h
        · exact Or.inl h
        · obtain h | ⟨k, hk, h⟩ := ih h
          · exact Or.inl h
          · exact Or.inr ⟨k, List.mem_cons_of_mem _ hk, h⟩

/-- What ends in something else than a separator ends as its last part does. -/
theorem getLast?_intercalate (hc : c ≠ sep) :
    c ∈ ([sep].intercalate ls).getLast? ↔ c ∈ ls.getLast?.bind List.getLast? := by
  induction ls with
  | nil => rfl
  | cons l ls ih =>
    cases ls with
    | nil => rw [List.intercalate_singleton]; rfl
    | cons l' ls =>
      rw [List.intercalate_cons_cons, List.getLast?_cons_cons, ← ih, List.getLast?_append]
      cases ([sep].intercalate (l' :: ls)).getLast? with
      | none => simp [hc.symm]
      | some d => rfl

end Intercalate

theorem trimSpace_idem (s : String) : trimSpace (trimSpace s) = trimSpace s := by
  rw [trimSpace, toList_trimSpace, dropWhile_rdropWhile_dropWhile,
    List.rdropWhile_idempotent isSpace (s.toList.dropWhile isSpace), trimSpace]

/-- **A text is its own trimmed form** when no end of it is white space. -/
theorem trimSpace_eq_self_iff (s : String) : trimSpace s = s ↔
    (∀ c, s.toList.head? = some c → isSpace c = false) ∧
      ∀ c, s.toList.getLast? = some c → isSpace c = false := by
  rw [← dropBoth_eq_self_iff, ← toList_trimSpace, String.toList_inj]

/-- Text without spaces. -/
theorem trimSpace_eq_self {s : String} (h : ∀ c ∈ s.toList, isSpace c = false) :
    trimSpace s = s :=
  (trimSpace_eq_self_iff s).mpr ⟨fun c hc => h c (List.mem_of_head? hc),
    fun c hc => h c (List.mem_of_getLast? hc)⟩

/-- **Trimmed text**, not empty. -/
def Trimmed (s : String) : Prop := trimSpace s = s ∧ s ≠ ""

example : trimSpace "\t 会议室 1\u3000\n" = "会议室 1" := by decide

end Screego.Lib
