import Mathlib.Data.List.DropRight
import Mathlib.Tactic.Basic

/-!
# Addresses of a page

What the URL parser of a browser does with the query and the fragment of an `http` address, the part
before them being left alone.

* `clean`: what the parser drops before it begins;
* `percentEncode`, `encodeQuery`, `encodeFragment`: characters that do not stand for themselves;
* `Address`, `Address.parse`, `Address.resolveQuery`, `Address.href`, `Address.search`;
* `Serialised`: what the parser makes; **`parse_href`**: an address is parsed back.
-/

set_option autoImplicit false

namespace Screego.Lib

/-! ## Characters -/

/-- A C0 control or a space. -/
def c0OrSpace (c : Char) : Bool := c.toNat ≤ 0x20

def tabOrNewline (c : Char) : Bool := c == '\t' || c == '\n' || c == '\r'

/-- What is left of the input when the parser begins. -/
def clean (input : List Char) : List Char :=
  ((input.dropWhile c0OrSpace).rdropWhile c0OrSpace).filter fun c => !tabOrNewline c

/-- The special-query percent-encode set. -/
def querySet (c : Char) : Bool :=
  c.toNat ≤ 0x20 || 0x7E < c.toNat || c == '"' || c == '#' || c == '<' || c == '>' || c == '\''

/-- The fragment percent-encode set. -/
def fragmentSet (c : Char) : Bool :=
  c.toNat ≤ 0x20 || 0x7E < c.toNat || c == '"' || c == '<' || c == '>' || c.toNat == 0x60

/-- The digits of a percent-encoded byte. -/
def hexDigits : List Char :=
  ['0', '1', '2', '3', '4', '5', '6', '7', '8', '9', 'A', 'B', 'C', 'D', 'E', 'F']

def hexDigit (n : ℕ) : Char := hexDigits.getD n '0'

/-- A byte, percent-encoded. -/
def percentByte (b : UInt8) : List Char := ['%', hexDigit (b.toNat / 16), hexDigit (b.toNat % 16)]

/-- UTF-8 percent-encode. -/
def percentEncode (set : Char → Bool) (c : Char) : List Char :=
  if set c then (String.utf8EncodeChar c).flatMap percentByte else [c]

def encodeQuery (l : List Char) : List Char := l.flatMap (percentEncode querySet)

def encodeFragment (l : List Char) : List Char := l.flatMap (percentEncode fragmentSet)

/-! ## Addresses -/

/-- **An address**: what stands before the query, and the two parts behind it. -/
structure Address where
  base : List Char
  query : Option (List Char)
  fragment : Option (List Char)
deriving DecidableEq

namespace Address

/-- The part before the query and the fragment ends with the character. -/
def ends (c : Char) : Bool := c == '?' || c == '#'

/-- The query and the fragment. -/
def parseTail : List Char → Option (List Char) × Option (List Char)
  | [] => (none, none)
  | c :: l =>
    if c = '?' then
      (some (encodeQuery (l.takeWhile (· ≠ '#'))),
        (l.dropWhile (· ≠ '#')).tail?.map encodeFragment)
    else (none, some (encodeFragment l))

/-- The parser on an address. -/
def parse (input : List Char) : Address :=
  let l := clean input
  let tail := parseTail (l.dropWhile (!ends ·))
  ⟨l.takeWhile (!ends ·), tail.1, tail.2⟩

/-- The parser on a reference, relative to an address, that begins with the query. -/
def resolveQuery (a : Address) (input : List Char) : Address :=
  let tail := parseTail (clean input)
  ⟨a.base, tail.1, tail.2⟩

/-- The fragment with its mark. -/
def hash : Option (List Char) → List Char
  | none => []
  | some f => '#' :: f

/-- `location.href`. -/
def href (a : Address) : List Char :=
  match a.query with
  | none => a.base ++ hash a.fragment
  | some q => a.base ++ '?' :: q ++ hash a.fragment

/-- `location.search`. -/
def search (a : Address) : List Char :=
  match a.query with
  | none => []
  | some q => if q = [] then [] else '?' :: q

end Address

/-! ## What the parser makes -/

theorem hexDigit_mem (n : ℕ) : hexDigit n ∈ hexDigits := by
  rw [hexDigit, List.getD]
  cases hn : hexDigits[n]? with
  | none => decide
  | some c => exact List.mem_of_getElem? hn

/-- What is encoded is none of the characters to encode. -/
theorem percentEncode_clean {set : Char → Bool}
    (hset : (('%' :: hexDigits).all fun c => !set c) = true) {c d : Char}
    (hd : d ∈ percentEncode set c) : set d = false := by
  have hsafe : ∀ x ∈ '%' :: hexDigits, set x = false := fun x hx => by
    simpa using List.all_eq_true.mp hset x hx
  unfold percentEncode at hd
  split_ifs at hd with hc
  · obtain ⟨b, -, hb⟩ := List.mem_flatMap.mp hd
    refine hsafe d ?_
    simp only [percentByte, List.mem_cons, List.not_mem_nil, or_false] at hb
    rcases hb with rfl | rfl | rfl
    · exact List.mem_cons_self
    · exact List.mem_cons_of_mem _ (hexDigit_mem _)
    · exact List.mem_cons_of_mem _ (hexDigit_mem _)
  · obtain rfl := List.mem_singleton.mp hd
    simpa using hc

theorem mem_encodeQuery {l : List Char} {c : Char} (hc : c ∈ encodeQuery l) : querySet c = false := by
  obtain ⟨d, -, hd⟩ := List.mem_flatMap.mp hc
  exact percentEncode_clean (by decide) hd

theorem mem_encodeFragment {l : List Char} {c : Char} (hc : c ∈ encodeFragment l) :
    fragmentSet c = false := by
  obtain ⟨d, -, hd⟩ := List.mem_flatMap.mp hc
  exact percentEncode_clean (by decide) hd

/-- Characters that are not encoded stand for themselves. -/
theorem flatMap_percentEncode {set : Char → Bool} {l : List Char} (h : ∀ c ∈ l, set c = false) :
    l.flatMap (percentEncode set) = l := by
  induction l with
  | nil => rfl
  | cons c l ih =>
    rw [List.flatMap_cons, percentEncode, h c List.mem_cons_self,
      ih fun d hd => h d (List.mem_cons_of_mem _ hd)]
    rfl

theorem encodeQuery_eq_self {l : List Char} (h : ∀ c ∈ l, querySet c = false) : encodeQuery l = l :=
  flatMap_percentEncode h

/-- The input has no control character and no space. -/
theorem clean_eq_self {l : List Char} (h : ∀ c ∈ l, 0x20 < c.toNat) : clean l = l := by
  have hc0 : ∀ c ∈ l, c0OrSpace c = false := fun c hc => by simpa [c0OrSpace] using h c hc
  have hdrop : l.dropWhile c0OrSpace = l := by
    rw [List.dropWhile_eq_self_iff]
    intro hlen
    rw [hc0 _ (List.getElem_mem hlen)]
    exact Bool.false_ne_true
  have hrdrop : l.rdropWhile c0OrSpace = l := by
    rw [List.rdropWhile_eq_self_iff]
    intro hne
    rw [hc0 _ (List.getLast_mem hne)]
    exact Bool.false_ne_true
  have htab : ∀ c ∈ l, (!tabOrNewline c) = true := by
    intro c hc
    have hlt := h c hc
    simp only [tabOrNewline, Bool.not_eq_true', Bool.or_eq_false_iff, beq_eq_false_iff_ne]
    refine ⟨⟨?_, ?_⟩, ?_⟩ <;> rintro rfl <;> exact absurd hlt (by decide)
  rw [clean, hdrop, hrdrop, List.filter_eq_self.mpr htab]

/-- **What the parser makes**: printable characters, none of them out of place. -/
structure Serialised (a : Address) : Prop where
  base : ∀ c ∈ a.base, 0x20 < c.toNat ∧ Address.ends c = false
  query : ∀ q, a.query = some q → ∀ c ∈ q, querySet c = false
  fragment : ∀ f, a.fragment = some f → ∀ c ∈ f, fragmentSet c = false

theorem parseTail_fst {l q : List Char} (h : (Address.parseTail l).1 = some q) :
    ∀ c ∈ q, querySet c = false := by
  cases l with
  | nil => cases h
  | cons c l =>
    rw [Address.parseTail] at h
    split_ifs at h
    cases h
    exact fun c hc => mem_encodeQuery hc

theorem parseTail_snd {l f : List Char} (h : (Address.parseTail l).2 = some f) :
    ∀ c ∈ f, fragmentSet c = false := by
  cases l with
  | nil => cases h
  | cons c l =>
    rw [Address.parseTail] at h
    split_ifs at h
    · obtain ⟨g, -, rfl⟩ := Option.map_eq_some_iff.mp h
      exact fun c hc => mem_encodeFragment hc
    · cases h
      exact fun c hc => mem_encodeFragment hc

theorem Serialised.resolveQuery {a : Address} (h : Serialised a) (input : List Char) :
    Serialised (a.resolveQuery input) where
  base := h.base
  query _ hq := parseTail_fst hq
  fragment _ hf := parseTail_snd hf

/-! ## Parsing back -/

theorem lt_of_querySet {c : Char} (h : querySet c = false) : 0x20 < c.toNat := by
  simp only [querySet, Bool.or_eq_false_iff, decide_eq_false_iff_not] at h
  omega

theorem lt_of_fragmentSet {c : Char} (h : fragmentSet c = false) : 0x20 < c.toNat := by
  simp only [fragmentSet, Bool.or_eq_false_iff, decide_eq_false_iff_not] at h
  omega

/-- The query and the fragment as they stand in the address. -/
def Address.tail (a : Address) : List Char :=
  match a.query with
  | none => Address.hash a.fragment
  | some q => '?' :: q ++ Address.hash a.fragment

theorem Address.href_eq (a : Address) : a.href = a.base ++ a.tail := by
  unfold Address.href Address.tail
  cases a.query with
  | none => rfl
  | some q => simp

theorem takeWhile_hash {q : List Char} (hq : ∀ c ∈ q, c ≠ '#') (f : Option (List Char)) :
    (q ++ Address.hash f).takeWhile (· ≠ '#') = q ∧
      (q ++ Address.hash f).dropWhile (· ≠ '#') = Address.hash f := by
  have hall : ∀ c ∈ q, decide (c ≠ '#') = true := fun c hc => by simpa using hq c hc
  rw [List.takeWhile_append_of_pos hall, List.dropWhile_append_of_pos hall]
  cases f with
  | none => exact ⟨List.append_nil q, rfl⟩
  | some f => exact ⟨List.append_nil q, rfl⟩

/-- The tail of an address is parsed back. -/
theorem Serialised.parseTail_tail {a : Address} (h : Serialised a) :
    Address.parseTail a.tail = (a.query, a.fragment) := by
  have hfragment : (Address.hash a.fragment).tail?.map encodeFragment = a.fragment := by
    cases hf : a.fragment with
    | none => rfl
    | some f => exact congrArg some (flatMap_percentEncode (h.fragment f hf))
  unfold Address.tail
  cases hq : a.query with
  | none =>
    cases hf : a.fragment with
    | none => rfl
    | some f =>
      have hne : ('#' : Char) ≠ '?' := by decide
      simp only [Address.hash, Address.parseTail, if_neg hne]
      exact congrArg (fun x => (none, some x)) (flatMap_percentEncode (h.fragment f hf))
  | some q =>
    have hhash : ∀ c ∈ q, c ≠ '#' := by
      rintro c hc rfl
      exact absurd (h.query q hq _ hc) (by decide)
    obtain ⟨htake, hdrop⟩ := takeWhile_hash hhash a.fragment
    simp only [List.cons_append, Address.parseTail, if_true, htake, hdrop, hfragment,
      encodeQuery_eq_self (h.query q hq)]

theorem Serialised.lt_of_mem_tail {a : Address} (h : Serialised a) :
    ∀ c ∈ a.tail, 0x20 < c.toNat := by
  have hhash : ∀ c ∈ Address.hash a.fragment, 0x20 < c.toNat := by
    intro c hc
    cases hf : a.fragment with
    | none =>
      rw [hf] at hc
      exact absurd hc List.not_mem_nil
    | some f =>
      rw [hf] at hc
      rcases List.mem_cons.mp hc with rfl | hc
      · decide
      · exact lt_of_fragmentSet (h.fragment f hf c hc)
  intro c hc
  unfold Address.tail at hc
  cases hq : a.query with
  | none =>
    rw [hq] at hc
    exact hhash c hc
  | some q =>
    rw [hq] at hc
    rcases List.mem_append.mp hc with hc | hc
    · rcases List.mem_cons.mp hc with rfl | hc
      · decide
      · exact lt_of_querySet (h.query q hq c hc)
    · exact hhash c hc

/-- **An address is parsed back** from what `location.href` shows of it. -/
theorem Serialised.parse_href {a : Address} (h : Serialised a) : Address.parse a.href = a := by
  have hclean : clean a.href = a.base ++ a.tail := by
    rw [Address.href_eq]
    refine clean_eq_self fun c hc => ?_
    rcases List.mem_append.mp hc with hc | hc
    · exact (h.base c hc).1
    · exact h.lt_of_mem_tail c hc
  have hbase : ∀ c ∈ a.base, (!Address.ends c) = true := fun c hc => by
    rw [(h.base c hc).2]
    rfl
  have htail : a.tail.takeWhile (!Address.ends ·) = [] ∧
      a.tail.dropWhile (!Address.ends ·) = a.tail := by
    unfold Address.tail
    cases a.query with
    | none => cases a.fragment <;> exact ⟨rfl, rfl⟩
    | some q => exact ⟨rfl, rfl⟩
  rw [Address.parse, hclean, List.takeWhile_append_of_pos hbase,
    List.dropWhile_append_of_pos hbase, htail.1, htail.2, h.parseTail_tail, List.append_nil]

end Screego.Lib
