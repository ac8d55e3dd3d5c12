import Mathlib.Tactic.Ring
import Screego.Lib.Json
import Screego.Lib.Utf16

/-!
# The text of JSON values

Numbers are natural ones without fraction and exponent.

* `Json.print`: the text of a value, on one line; `esc` tells which characters are written by their units;
* `Json.value`, `Json.parse`: the value a text begins with;
* **`parse_print`**, `parse_print_obj`: a printed value is read back, whatever comes behind it.
-/

set_option autoImplicit false

namespace Screego.Lib

namespace Json

/-! ## Printing -/

/-- A hexadecimal digit. -/
def hexChar (n : ℕ) : Char := (['0', '1', '2', '3', '4', '5', '6', '7', '8', '9', 'a', 'b', 'c', 'd', 'e',
  'f'] : List Char).getD n '0'

/-- A unit, by its number. -/
def escapeUnit (u : UInt16) : List Char :=
  let n := u.toNat
  ['\\', 'u', hexChar (n / 4096), hexChar (n / 256 % 16), hexChar (n / 16 % 16), hexChar (n % 16)]

section Print

variable (esc : Char → Bool)

/-- A character inside a string. -/
def escapeChar (c : Char) : List Char :=
  if c = '"' then ['\\', '"']
  else if c = '\\' then ['\\', '\\']
  else if c = '\n' then ['\\', 'n']
  else if c = '\r' then ['\\', 'r']
  else if c = '\t' then ['\\', 't']
  else if c = '\x08' then ['\\', 'b']
  else if c = '\x0c' then ['\\', 'f']
  else if c.toNat < 0x20 || esc c then (utf16Char c).flatMap escapeUnit
  else [c]

/-- A string up to its closing quote. -/
def quoteTail : List Char → List Char
  | [] => ['"']
  | c :: l => escapeChar esc c ++ quoteTail l

/-- A string. -/
def quote (s : String) : List Char := '"' :: quoteTail esc s.toList

mutual

/-- **The text of a value.** -/
def print : Json → List Char
  | null => ['n', 'u', 'l', 'l']
  | bool true => ['t', 'r', 'u', 'e']
  | bool false => ['f', 'a', 'l', 's', 'e']
  | num n => Nat.toDigits 10 n
  | str s => quote esc s
  | arr [] => ['[', ']']
  | arr (j :: l) => '[' :: (print j ++ printElements l)
  | obj [] => ['{', '}']
  | obj ((key, j) :: l) => '{' :: (quote esc key ++ ':' :: (print j ++ printMembers l))

/-- The elements of an array behind the first, and its end. -/
def printElements : List Json → List Char
  | [] => [']']
  | j :: l => ',' :: (print j ++ printElements l)

/-- The members of an object behind the first, and its end. -/
def printMembers : List (String × Json) → List Char
  | [] => ['}']
  | (key, j) :: l => ',' :: (quote esc key ++ ':' :: (print j ++ printMembers l))

end

end Print

/-! ## Parsing -/

def isBlank (c : Char) : Bool := c == ' ' || c == '\t' || c == '\n' || c == '\r'

/-- The text behind white space. -/
def skip (l : List Char) : List Char := l.dropWhile isBlank

/-- The value of a hexadecimal digit. -/
def hexVal (c : Char) : Option ℕ :=
  if '0' ≤ c ∧ c ≤ '9' then some (c.toNat - 48)
  else if 'a' ≤ c ∧ c ≤ 'f' then some (c.toNat - 87)
  else if 'A' ≤ c ∧ c ≤ 'F' then some (c.toNat - 55)
  else none

/-- The unit that four hexadecimal digits name. -/
def hexUnit (a b c d : Char) : Option UInt16 := do
  some (UInt16.ofNat (((← hexVal a) * 16 + (← hexVal b)) * 256 + (← hexVal c) * 16 + (← hexVal d)))

/-- Further units of a string. -/
def more (us : JsString) (x : Option (JsString × List Char)) : Option (JsString × List Char) :=
  x.map fun p => (us ++ p.1, p.2)

/-- **The units of a string** up to its closing quote, and what comes behind it. -/
def stringTail : List Char → Option (JsString × List Char)
  | [] => none
  | '"' :: r => some ([], r)
  | '\\' :: 'u' :: a :: b :: c :: d :: r =>
    match hexUnit a b c d with
    | some u => more [u] (stringTail r)
    | none => none
  | '\\' :: 'n' :: r => more (utf16Char '\n') (stringTail r)
  | '\\' :: 'r' :: r => more (utf16Char '\r') (stringTail r)
  | '\\' :: 't' :: r => more (utf16Char '\t') (stringTail r)
  | '\\' :: 'b' :: r => more (utf16Char '\x08') (stringTail r)
  | '\\' :: 'f' :: r => more (utf16Char '\x0c') (stringTail r)
  | '\\' :: c :: r => if c = '"' ∨ c = '\\' ∨ c = '/' then more (utf16Char c) (stringTail r) else none
  | c :: r => if c.toNat < 0x20 then none else more (utf16Char c) (stringTail r)

/-- A string behind its opening quote. -/
def string (l : List Char) : Option (String × List Char) :=
  (stringTail l).map fun p => (String.ofList (decode p.1), p.2)

/-- A natural number: no leading zeros, no fraction, no exponent. -/
def number (l : List Char) : Option (ℕ × List Char) :=
  let digits := l.takeWhile Char.isDigit
  let rest := l.dropWhile Char.isDigit
  if digits = [] ∨ (digits.head? = some '0' ∧ digits ≠ ['0']) then none
  else if rest.head?.any fun c => c == '.' || c == 'e' || c == 'E' then none
  else some (Nat.ofDigitChars 10 digits 0, rest)

mutual

/-- **The value a text begins with**, and what comes behind it. -/
def value : ℕ → List Char → Option (Json × List Char)
  | 0, _ => none
  | n + 1, l =>
    match skip l with
    | 'n' :: 'u' :: 'l' :: 'l' :: r => some (null, r)
    | 't' :: 'r' :: 'u' :: 'e' :: r => some (bool true, r)
    | 'f' :: 'a' :: 'l' :: 's' :: 'e' :: r => some (bool false, r)
    | '"' :: r => (string r).map fun p => (str p.1, p.2)
    | '[' :: r =>
      if (skip r).head? = some ']' then some (arr [], (skip r).tail)
      else do
        let (j, r) ← value n r
        let (js, r) ← elements n r
        some (arr (j :: js), r)
    | '{' :: r =>
      if (skip r).head? = some '}' then some (obj [], (skip r).tail)
      else do
        let (p, r) ← member n r
        let (ps, r) ← members n r
        some (obj (p :: ps), r)
    | r => (number r).map fun p => (num p.1, p.2)

/-- The elements of an array behind the first. -/
def elements : ℕ → List Char → Option (List Json × List Char)
  | 0, _ => none
  | n + 1, l =>
    match skip l with
    | ']' :: r => some ([], r)
    | ',' :: r => do
      let (j, r) ← value n r
      let (js, r) ← elements n r
      some (j :: js, r)
    | _ => none

/-- A member of an object. -/
def member : ℕ → List Char → Option ((String × Json) × List Char)
  | 0, _ => none
  | n + 1, l =>
    match skip l with
    | '"' :: r => do
      let (key, r) ← string r
      match skip r with
      | ':' :: r => do
        let (j, r) ← value n r
        some ((key, j), r)
      | _ => none
    | _ => none

/-- The members of an object behind the first. -/
def members : ℕ → List Char → Option (List (String × Json) × List Char)
  | 0, _ => none
  | n + 1, l =>
    match skip l with
    | '}' :: r => some ([], r)
    | ',' :: r => do
      let (p, r) ← member n r
      let (ps, r) ← members n r
      some (p :: ps, r)
    | _ => none

end

/-- **The value a text begins with.** -/
def parse (text : List Char) : Option (Json × List Char) := value (text.length + 1) text

/-! ## Strings -/

theorem hexVal_hexChar {n : ℕ} (h : n < 16) : hexVal (hexChar n) = some n := by
  have hall : ∀ n < 16, hexVal (hexChar n) = some n := by decide
  exact hall n h

theorem hexUnit_hexChar (u : UInt16) : hexUnit (hexChar (u.toNat / 4096)) (hexChar (u.toNat / 256 % 16))
    (hexChar (u.toNat / 16 % 16)) (hexChar (u.toNat % 16)) = some u := by
  have hlt : u.toNat < 65536 := u.toNat_lt
  rw [hexUnit, hexVal_hexChar (by omega), hexVal_hexChar (by omega), hexVal_hexChar (by omega),
    hexVal_hexChar (by omega)]
  have hsum : (u.toNat / 4096 * 16 + u.toNat / 256 % 16) * 256 + u.toNat / 16 % 16 * 16 + u.toNat % 16 =
      u.toNat := by omega
  simp only [Option.bind_eq_bind, Option.bind_some, hsum, UInt16.ofNat_toNat]

theorem more_more (us vs : JsString) (x : Option (JsString × List Char)) :
    more us (more vs x) = more (us ++ vs) x := by
  cases x <;> simp [more]

theorem stringTail_escapeUnit (u : UInt16) (r : List Char) :
    stringTail (escapeUnit u ++ r) = more [u] (stringTail r) := by
  simp only [escapeUnit, List.cons_append, List.nil_append]
  rw [stringTail, hexUnit_hexChar]

theorem stringTail_escapeUnits (us : JsString) (r : List Char) :
    stringTail (us.flatMap escapeUnit ++ r) = more us (stringTail r) := by
  induction us with
  | nil => cases h : stringTail r <;> simp [more, h]
  | cons u us ih =>
    rw [List.flatMap_cons, List.append_assoc, stringTail_escapeUnit, ih, more_more]
    rfl

variable {esc : Char → Bool} {r : List Char}

theorem stringTail_escapeChar (c : Char) (r : List Char) :
    stringTail (escapeChar esc c ++ r) = more (utf16Char c) (stringTail r) := by
  unfold escapeChar
  split_ifs with h1 h2 h3 h4 h5 h6 h7 h8
  · subst h1; rfl
  · subst h2; rfl
  · subst h3; rfl
  · subst h4; rfl
  · subst h5; rfl
  · subst h6; rfl
  · subst h7; rfl
  · exact stringTail_escapeUnits _ _
  · have hlow : ¬ c.toNat < 0x20 := fun hc => h8 (by simp [hc])
    rw [List.singleton_append, stringTail.eq_def]
    split <;> simp_all

theorem stringTail_quoteTail (l r : List Char) : stringTail (quoteTail esc l ++ r) = some (utf16 l, r) := by
  induction l with
  | nil => simp [quoteTail, stringTail, utf16]
  | cons c l ih =>
    rw [quoteTail, List.append_assoc, stringTail_escapeChar, ih]
    rfl

theorem string_quoteTail (s : String) (r : List Char) :
    string (quoteTail esc s.toList ++ r) = some (s, r) := by
  rw [string, stringTail_quoteTail, Option.map_some, decode_utf16, String.ofList_toList]

/-! ## Numbers -/

/-- What may come behind a number. -/
def Stops (r : List Char) : Prop :=
  ∀ c, r.head? = some c → c.isDigit = false ∧ c ≠ '.' ∧ c ≠ 'e' ∧ c ≠ 'E'

theorem digitChar_eq_zero {d : ℕ} (hd : d < 10) (h : d.digitChar = '0') : d = 0 := by
  have hall : ∀ d < 10, d.digitChar = '0' → d = 0 := by decide
  exact hall d hd h

/-- Only zero begins with a zero. -/
theorem head_toDigits (n : ℕ) (h : (Nat.toDigits 10 n).head? = some '0') : n = 0 := by
  induction n using Nat.strongRecOn with
  | ind n ih =>
    by_cases hn : n < 10
    · rw [Nat.toDigits_of_lt_base hn] at h
      exact digitChar_eq_zero hn (Option.some.inj h)
    · rw [Nat.toDigits_of_base_le (by omega) (by omega),
        List.head?_append_of_ne_nil _ Nat.toDigits_ne_nil] at h
      have hzero := ih (n / 10) (by omega) h
      omega

theorem number_toDigits (n : ℕ) (hr : Stops r) : number (Nat.toDigits 10 n ++ r) = some (n, r) := by
  have hdigits : ∀ c ∈ Nat.toDigits 10 n, c.isDigit = true := fun c hc =>
    Nat.isDigit_of_mem_toDigits (by omega) (by omega) hc
  have htake : (Nat.toDigits 10 n ++ r).takeWhile Char.isDigit = Nat.toDigits 10 n := by
    rw [List.takeWhile_append_of_pos hdigits]
    cases r with
    | nil => simp
    | cons c r => simp [(hr c rfl).1]
  have hdrop : (Nat.toDigits 10 n ++ r).dropWhile Char.isDigit = r := by
    rw [List.dropWhile_append_of_pos hdigits]
    cases r with
    | nil => rfl
    | cons c r => simp [(hr c rfl).1]
  have hzero : ¬ (Nat.toDigits 10 n = [] ∨
      (Nat.toDigits 10 n).head? = some '0' ∧ Nat.toDigits 10 n ≠ ['0']) := by
    rintro (hnil | ⟨hhead, hne⟩)
    · exact Nat.toDigits_ne_nil hnil
    · rw [head_toDigits n hhead] at hne
      exact hne (Nat.toDigits_zero 10)
  have hnext : (r.head?.any fun c => c == '.' || c == 'e' || c == 'E') = false := by
    cases hc : r.head? with
    | none => rfl
    | some c =>
      obtain ⟨-, h1, h2, h3⟩ := hr c hc
      simp [h1, h2, h3]
  rw [number, htake, hdrop, if_neg hzero, hnext, if_neg Bool.false_ne_true,
    Nat.ofDigitChars_ten_toDigits]

/-! ## Values -/

theorem skip_cons {c : Char} (hc : isBlank c = false) (l : List Char) : skip (c :: l) = c :: l := by
  simp [skip, hc]

theorem stops_cons {c : Char} (hc : c.isDigit = false ∧ c ≠ '.' ∧ c ≠ 'e' ∧ c ≠ 'E') (l : List Char) :
    Stops (c :: l) := by
  intro c' hc'
  obtain rfl := Option.some.inj hc'
  exact hc

theorem cons_toDigits (n : ℕ) : ∃ c t, Nat.toDigits 10 n = c :: t ∧ c.isDigit = true := by
  obtain ⟨c, t, hct⟩ := List.exists_cons_of_ne_nil (Nat.toDigits_ne_nil (n := n) (b := 10))
  exact ⟨c, t, hct, Nat.isDigit_of_mem_toDigits (n := n) (by omega) (by omega) (hct ▸ List.mem_cons_self)⟩

/-- Digits are no other sign. -/
theorem ne_of_isDigit {c d : Char} (hc : c.isDigit = true) (hd : d.isDigit = false) : c ≠ d := by
  rintro rfl
  rw [hc] at hd
  cases hd

theorem isBlank_of_isDigit {c : Char} (hc : c.isDigit = true) : isBlank c = false := by
  simp [isBlank, ne_of_isDigit (d := ' ') hc, ne_of_isDigit (d := '\t') hc, ne_of_isDigit (d := '\n') hc,
    ne_of_isDigit (d := '\r') hc]

/-- How the text of a value begins. -/
theorem cons_print (j : Json) : ∃ c t, print esc j = c :: t ∧ isBlank c = false ∧ c ≠ ']' := by
  cases j with
  | num n =>
    obtain ⟨c, t, hct, hc⟩ := cons_toDigits n
    refine ⟨c, t, ?_, isBlank_of_isDigit hc, ne_of_isDigit hc (by decide)⟩
    rw [print, hct]
  | null => exact ⟨_, _, rfl, by decide, by decide⟩
  | bool b => cases b <;> exact ⟨_, _, rfl, by decide, by decide⟩
  | str s => exact ⟨_, _, rfl, by decide, by decide⟩
  | arr l => cases l <;> exact ⟨_, _, by rw [print], by decide, by decide⟩
  | obj l =>
    cases l with
    | nil => exact ⟨_, _, by rw [print], by decide, by decide⟩
    | cons p l =>
      obtain ⟨key, j⟩ := p
      exact ⟨_, _, by rw [print], by decide, by decide⟩

theorem value_num (m n : ℕ) (hr : Stops r) : value (n + 1) (Nat.toDigits 10 m ++ r) = some (num m, r) := by
  obtain ⟨c, t, hct, hc⟩ := cons_toDigits m
  have hnumber := number_toDigits m hr
  rw [hct, List.cons_append] at hnumber ⊢
  rw [value, skip_cons (isBlank_of_isDigit hc)]
  have hne : ∀ d : Char, d.isDigit = false → c ≠ d := fun d hd => ne_of_isDigit hc hd
  split
  case _ heq => exact absurd (List.cons.inj heq).1 (hne _ (by decide))
  case _ heq => exact absurd (List.cons.inj heq).1 (hne _ (by decide))
  case _ heq => exact absurd (List.cons.inj heq).1 (hne _ (by decide))
  case _ heq => exact absurd (List.cons.inj heq).1 (hne _ (by decide))
  case _ heq => exact absurd (List.cons.inj heq).1 (hne _ (by decide))
  case _ heq => exact absurd (List.cons.inj heq).1 (hne _ (by decide))
  · rw [hnumber]
    rfl

/-- A member, if its value is read. -/
theorem member_print (key : String) (j : Json) {n : ℕ} (hj : value n (print esc j ++ r) = some (j, r)) :
    member (n + 1) (quote esc key ++ ':' :: (print esc j ++ r)) = some ((key, j), r) := by
  rw [member, quote, List.cons_append, skip_cons (by decide)]
  simp only [string_quoteTail, Option.bind_eq_bind, Option.bind_some]
  rw [skip_cons (by decide)]
  simp only [hj, Option.bind_some]

theorem stops_printElements (l : List Json) (r : List Char) : Stops (printElements esc l ++ r) := by
  cases l <;> exact stops_cons (by decide) _

theorem stops_printMembers (l : List (String × Json)) (r : List Char) :
    Stops (printMembers esc l ++ r) := by
  cases l with
  | nil => exact stops_cons (by decide) _
  | cons p l =>
    obtain ⟨key, j⟩ := p
    rw [printMembers]
    exact stops_cons (by decide) _

mutual

theorem value_print (j : Json) (n : ℕ) (r : List Char) (hn : (print esc j).length < n)
    (hr : ∀ m, j = num m → Stops r) : value n (print esc j ++ r) = some (j, r) := by
  obtain ⟨n, rfl⟩ : ∃ m, n = m + 1 := ⟨n - 1, by omega⟩
  cases j with
  | null => rfl
  | bool b => cases b <;> rfl
  | num m => exact value_num m n (hr m rfl)
  | str s =>
    rw [print, quote, List.cons_append, value, skip_cons (by decide)]
    simp only [string_quoteTail, Option.map_some]
  | arr l =>
    cases l with
    | nil => rfl
    | cons j l =>
      obtain ⟨c, t, hct, hc, hne⟩ := @cons_print esc j
      simp only [print, List.length_cons, List.length_append] at hn
      have hj := value_print j n (printElements esc l ++ r) (by omega) fun _ _ => stops_printElements l r
      have hl := elements_print l n r (by omega)
      have hfirst : (skip (print esc j ++ (printElements esc l ++ r))).head? ≠ some ']' := by
        rw [hct, List.cons_append, skip_cons hc, List.head?_cons]
        exact fun h => hne (Option.some.inj h)
      rw [print, List.cons_append, List.append_assoc, value, skip_cons (by decide)]
      simp only [hfirst, if_false, hj, hl, Option.bind_eq_bind, Option.bind_some]
  | obj l =>
    cases l with
    | nil => rfl
    | cons p l =>
      obtain ⟨key, j⟩ := p
      simp only [print, List.length_cons, List.length_append] at hn
      have hq : 1 ≤ (quote esc key).length := by simp [quote]
      obtain ⟨n, rfl⟩ : ∃ m, n = m + 1 := ⟨n - 1, by omega⟩
      have hj := value_print j n (printMembers esc l ++ r) (by omega) fun _ _ => stops_printMembers l r
      have hm := member_print key j hj
      have hl := members_print l (n + 1) r (by omega)
      have hfirst : (skip (quote esc key ++ ':' :: (print esc j ++ (printMembers esc l ++ r)))).head? ≠
          some '}' := by
        rw [quote, List.cons_append, skip_cons (by decide)]
        exact fun h => absurd (Option.some.inj h) (by decide)
      rw [print, List.cons_append, List.append_assoc, List.cons_append, List.append_assoc, value,
        skip_cons (by decide)]
      simp only [hfirst, if_false, hm, hl, Option.bind_eq_bind, Option.bind_some]

theorem elements_print (l : List Json) (n : ℕ) (r : List Char) (hn : (printElements esc l).length < n) :
    elements n (printElements esc l ++ r) = some (l, r) := by
  obtain ⟨n, rfl⟩ : ∃ m, n = m + 1 := ⟨n - 1, by omega⟩
  cases l with
  | nil => rfl
  | cons j l =>
    simp only [printElements, List.length_cons, List.length_append] at hn
    have hj := value_print j n (printElements esc l ++ r) (by omega) fun _ _ => stops_printElements l r
    have hl := elements_print l n r (by omega)
    rw [printElements, List.cons_append, List.append_assoc, elements, skip_cons (by decide)]
    simp only [hj, hl, Option.bind_eq_bind, Option.bind_some]

theorem members_print (l : List (String × Json)) (n : ℕ) (r : List Char)
    (hn : (printMembers esc l).length < n) : members n (printMembers esc l ++ r) = some (l, r) := by
  obtain ⟨n, rfl⟩ : ∃ m, n = m + 1 := ⟨n - 1, by omega⟩
  cases l with
  | nil => rfl
  | cons p l =>
    obtain ⟨key, j⟩ := p
    simp only [printMembers, List.length_cons, List.length_append] at hn
    have hq : 1 ≤ (quote esc key).length := by simp [quote]
    obtain ⟨n, rfl⟩ : ∃ m, n = m + 1 := ⟨n - 1, by omega⟩
    have hj := value_print j n (printMembers esc l ++ r) (by omega) fun _ _ => stops_printMembers l r
    have hm := member_print key j hj
    have hl := members_print l (n + 1) r (by omega)
    rw [printMembers, List.cons_append, List.append_assoc, List.cons_append, List.append_assoc, members,
      skip_cons (by decide)]
    simp only [hm, hl, Option.bind_eq_bind, Option.bind_some]

end

/-- **A printed value is read back**, whatever comes behind it; only a number needs an end. -/
theorem parse_print (esc : Char → Bool) (j : Json) {r : List Char} (hr : ∀ m, j = num m → Stops r) :
    parse (print esc j ++ r) = some (j, r) := by
  refine value_print j _ r ?_ hr
  rw [List.length_append]
  omega

/-- An object ends itself. -/
theorem parse_print_obj (esc : Char → Bool) (kvs : List (String × Json)) (r : List Char) :
    parse (print esc (obj kvs) ++ r) = some (obj kvs, r) :=
  parse_print esc _ fun _ h => nomatch h

theorem stops_nil : Stops [] := fun _ h => nomatch h

end Json

end Screego.Lib
