import Mathlib.Data.List.Forall2
import Screego.Lib.Regexp
import Screego.Lib.Text
import Screego.Settings

/-!
# Origins

The check of the `Origin` header of a WebSocket request: `upgrader.CheckOrigin` of `ws/rooms.go` over
`Config.CheckOrigin`, with the expressions that `config.Get` makes of SCREEGO_CORS_ALLOWED_ORIGINS.

* `Packages`: what is called of `unicode`, `regexp` and `net/url`;
* `compiledAllowedOrigins`, `configCheckOrigin`, `upgraderCheckOrigin`;
* `Literal`: an entry that is an origin; `found_literal_iff`: where it is found;
  **`literal_admits_extensions`**, **`capitals_admit_nobody`**;
* `OnlyAllowed`: the property, for one request; `AllowsOnly`: for all;
* `Anchored`: an entry that matches nothing but whole texts; `anchored_pinned`; `Tight`: a list of such entries
  that has a match for every literal one;
* **`check_origin_iff`**: such a list allows only what it should; `Tight.not_lower`.
-/

set_option autoImplicit false

namespace Screego

open Lib

/-! ## The code -/

/-- What has a meaning of its own in a pattern, the dot apart. -/
def metacharacters : List Char :=
  ['\\', '+', '*', '?', '(', ')', '|', '[', ']', '\x7b', '\x7d', '^', '$']

/-- A character that stands for itself in a pattern, or the dot. -/
def Ordinary (r : Rune) : Prop := ∃ c : Char, r = .char c ∧ c ∉ metacharacters

theorem ordinary_char {c : Char} : Ordinary (.char c) ↔ c ∉ metacharacters := by
  constructor
  · rintro ⟨d, hd, h⟩
    cases hd
    exact h
  · exact fun h => ⟨c, rfl, h⟩

theorem not_ordinary_stray (byte : UInt8) : ¬ Ordinary (.stray byte) := by
  rintro ⟨c, hc, -⟩
  cases hc

instance : DecidablePred Ordinary
  | .char _ => decidable_of_iff _ ordinary_char.symm
  | .stray byte => isFalse (not_ordinary_stray byte)

/-- The characters that an ordinary character of a pattern matches: the dot matches all but the end
of a line. -/
def stands (c d : Rune) : Bool := if c = .char '.' then d ≠ .char '\n' else c = d

/-- **What the check calls.** -/
structure Packages where
  /-- `unicode.ToLower`. -/
  lower : Rune → Rune
  lower_ascii : ∀ c, c.toNat < 0x80 → lower (.char c) = .char c.toLower
  lower_stray : ∀ byte, lower (.stray byte) = .char '\uFFFD'
  lower_lower : ∀ r, lower (lower r) = lower r
  /-- `regexp.Compile`. -/
  compile : GoString → Except String (Regexp Rune)
  compile_ordinary : ∀ text, (∀ r ∈ text, Ordinary r) → compile text = .ok (.ofText stands text)
  compile_pinned : ∀ text, (∀ r ∈ text, Ordinary r) →
    compile (.char '^' :: (text ++ [.char '$'])) = .ok (.pinned (.ofText stands text))
  /-- `url.Parse`, and the `Host` of what it returns. -/
  parseHost : GoString → Except String GoString
  /-- Letters may come before an address, -/
  parseHost_front : ∀ text h n, parseHost text = .ok h →
    ∃ h', parseHost (List.replicate n (.char 'a') ++ text) = .ok h'
  /-- and a fragment behind it. -/
  parseHost_back : ∀ text h n, parseHost text = .ok h →
    ∃ h', parseHost (text ++ .char '#' :: List.replicate n (.char 'a')) = .ok h'

namespace Packages

variable (lib : Packages)

/-- `strings.ToLower`. -/
def toLower (s : GoString) : GoString := s.map lib.lower

/-- The loop of `Get` over the entries: the expressions, where one that does not compile is nil. -/
def compiledAllowedOrigins (corsAllowedOrigins : List GoString) : List (Option (Regexp Rune)) :=
  corsAllowedOrigins.map fun origin => (lib.compile origin).toOption

/-- Its messages. -/
def originLogs (corsAllowedOrigins : List GoString) : List FutureLog :=
  corsAllowedOrigins.flatMap fun origin =>
    match lib.compile origin with
    | .error err => [futureFatal ("invalid regex: " ++ err)]
    | .ok _ => []

/-- The loop of `Config.CheckOrigin`; a panic is `none`. -/
def matchesAny (compiledAllowedOrigins : List (Option (Regexp Rune))) (origin : GoString) :
    Option Bool :=
  match compiledAllowedOrigins with
  | [] => some false
  | none :: _ => none
  | some compiledOrigin :: rest =>
    if compiledOrigin.find (lib.toLower origin) then some true else matchesAny rest origin

/-- `Config.CheckOrigin`. -/
def configCheckOrigin (compiledAllowedOrigins : List (Option (Regexp Rune))) (origin : GoString) :
    Option Bool :=
  if origin = [] then some true else lib.matchesAny compiledAllowedOrigins origin

/-- `upgrader.CheckOrigin`, of the `Origin` header and the `Host` of the request. -/
def upgraderCheckOrigin (compiledAllowedOrigins : List (Option (Regexp Rune)))
    (origin host : GoString) : Option Bool :=
  match lib.parseHost origin with
  | .error _ => some false
  | .ok uHost =>
    if uHost = host then some true else lib.configCheckOrigin compiledAllowedOrigins origin

/-- The check as the server makes it. -/
def checks (corsAllowedOrigins : List GoString) (origin host : GoString) : Option Bool :=
  lib.upgraderCheckOrigin (lib.compiledAllowedOrigins corsAllowedOrigins) origin host

/-! ## What is accepted -/

/-- The pattern is found in the text. -/
def Found (pattern text : GoString) : Prop :=
  ∃ r, lib.compile pattern = .ok r ∧ r.find text = true

variable {lib} {origins : List GoString} {origin host pattern text : GoString}

theorem toLower_toLower (text : GoString) : lib.toLower (lib.toLower text) = lib.toLower text := by
  rw [toLower, toLower, List.map_map]
  exact List.map_congr_left fun r _ => lib.lower_lower r

theorem toLower_append (s t : GoString) : lib.toLower (s ++ t) = lib.toLower s ++ lib.toLower t :=
  List.map_append

theorem found_iff : lib.Found pattern text ↔
    ∃ r, lib.compile pattern = .ok r ∧ ∃ pre mid post, text = pre ++ mid ++ post ∧ r.Matches pre mid post :=
  exists_congr fun _ => and_congr_right fun _ => Regexp.find_iff

/-- The messages are fatal unless every entry compiles. -/
theorem notFatal_originLogs :
    NotFatal (lib.originLogs origins) ↔ ∀ e ∈ origins, ∃ r, lib.compile e = .ok r := by
  constructor
  · intro h e he
    cases hc : lib.compile e with
    | ok r => exact ⟨r, rfl⟩
    | error err =>
      refine absurd rfl (h (futureFatal ("invalid regex: " ++ err)) (List.mem_flatMap.mpr ⟨e, he, ?_⟩))
      rw [hc]
      exact List.mem_cons_self
  · intro h log hlog
    obtain ⟨e, he, hlog⟩ := List.mem_flatMap.mp hlog
    obtain ⟨r, hr⟩ := h e he
    rw [hr] at hlog
    exact absurd hlog List.not_mem_nil

/-- The loop does not panic, and accepts what a pattern is found in. -/
theorem matchesAny_eq (hcompile : ∀ e ∈ origins, ∃ r, lib.compile e = .ok r) (origin : GoString) :
    ∃ accepted : Bool, lib.matchesAny (lib.compiledAllowedOrigins origins) origin = some accepted ∧
      (accepted = true ↔ ∃ e ∈ origins, lib.Found e (lib.toLower origin)) := by
  induction origins with
  | nil => exact ⟨false, rfl, by simp⟩
  | cons e origins ih =>
    obtain ⟨r, hr⟩ := hcompile e List.mem_cons_self
    obtain ⟨accepted, hrest, hiff⟩ := ih fun e' he' => hcompile e' (List.mem_cons_of_mem _ he')
    have hfound : lib.Found e (lib.toLower origin) ↔ r.find (lib.toLower origin) = true := by
      constructor
      · rintro ⟨r', hr', h⟩
        rw [hr] at hr'
        cases hr'
        exact h
      · exact fun h => ⟨r, hr, h⟩
    rw [List.exists_mem_cons_iff, hfound]
    have heq : lib.compiledAllowedOrigins (e :: origins) =
        some r :: lib.compiledAllowedOrigins origins := by
      rw [compiledAllowedOrigins, List.map_cons, hr]
      rfl
    rw [heq, matchesAny]
    split_ifs with hfind
    · exact ⟨true, rfl, iff_of_true rfl (Or.inl hfind)⟩
    · exact ⟨accepted, hrest, hiff.trans (or_iff_right hfind).symm⟩

/-- **The check**: an origin that can be parsed is accepted for its host, or for a pattern that is
found in it. -/
theorem checks_eq_true (hcompile : ∀ e ∈ origins, ∃ r, lib.compile e = .ok r) (hne : origin ≠ []) :
    lib.checks origins origin host = some true ↔
      ∃ h, lib.parseHost origin = .ok h ∧
        (h = host ∨ ∃ e ∈ origins, lib.Found e (lib.toLower origin)) := by
  unfold checks upgraderCheckOrigin
  cases lib.parseHost origin with
  | error err =>
    refine iff_of_false (fun h => by cases h) ?_
    rintro ⟨h, hh, -⟩
    cases hh
  | ok uHost =>
    dsimp only
    rw [configCheckOrigin, if_neg hne]
    obtain ⟨accepted, hany, hiff⟩ := matchesAny_eq hcompile origin
    rw [hany, ← hiff]
    by_cases hhost : uHost = host
    · rw [if_pos hhost]
      exact iff_of_true rfl ⟨uHost, rfl, Or.inl hhost⟩
    · rw [if_neg hhost, Option.some.injEq]
      constructor
      · exact fun h => ⟨uHost, rfl, Or.inr h⟩
      · rintro ⟨h, hh, heq⟩
        cases hh
        exact heq.resolve_left hhost

/-! ## Entries that are origins -/

/-- The entry is a literal: the dot is its only special character. -/
def Literal (pattern : GoString) : Prop := ∀ r ∈ pattern, Ordinary r

/-- **A literal is found** where its characters are. -/
theorem found_literal_iff (hlit : Literal pattern) : lib.Found pattern text ↔
    ∃ pre mid post, text = pre ++ mid ++ post ∧ List.Forall₂ (fun c d => stands c d = true) pattern mid := by
  have hcompile := lib.compile_ordinary pattern hlit
  rw [found_iff]
  constructor
  · rintro ⟨r, hr, pre, mid, post, heq, hmatch⟩
    rw [hcompile] at hr
    cases hr
    exact ⟨pre, mid, post, heq, Regexp.matches_ofText.mp hmatch⟩
  · rintro ⟨pre, mid, post, heq, h⟩
    exact ⟨_, hcompile, pre, mid, post, heq, Regexp.matches_ofText.mpr h⟩

theorem stands_self (c : Rune) : stands c c = true := by
  unfold stands
  split_ifs with h
  · rw [h]
    rfl
  · exact decide_eq_true rfl

theorem stands_all (text : GoString) : List.Forall₂ (fun c d => stands c d = true) text text :=
  List.forall₂_same.mpr fun c _ => stands_self c

/-- What a character in lower case stands for is in lower case, the dot being its own. -/
theorem lower_of_stands {c d : Rune} (h : stands c d = true) (hd : lib.lower d = d) :
    lib.lower c = c := by
  unfold stands at h
  split_ifs at h with hdot
  · rw [hdot]
    exact lib.lower_ascii '.' (by decide)
  · rw [of_decide_eq_true h]
    exact hd

/-- **Capitals admit nobody**: a literal that is not in lower case is not found in any origin. -/
theorem capitals_admit_nobody (hlit : Literal pattern)
    (hfound : lib.Found pattern (lib.toLower origin)) : lib.toLower pattern = pattern := by
  obtain ⟨pre, mid, post, heq, hall⟩ := (found_literal_iff hlit).mp hfound
  have hlower : ∀ d ∈ mid, lib.lower d = d := fun d hd => by
    have hmem : d ∈ lib.toLower origin := by
      rw [heq]
      exact List.mem_append_left _ (List.mem_append_right _ hd)
    obtain ⟨r, -, rfl⟩ := List.mem_map.mp hmem
    exact lib.lower_lower r
  clear heq hfound hlit
  induction hall with
  | nil => rfl
  | @cons c d pattern mid hcd _ ih =>
    rw [toLower, List.map_cons, lower_of_stands hcd (hlower d List.mem_cons_self)]
    exact congrArg _ (ih fun d' hd' => hlower d' (List.mem_cons_of_mem _ hd'))

/-- **Literals admit extensions**: whatever stands around the entry, if the whole can be parsed. -/
theorem literal_admits_extensions (hcompile : ∀ e ∈ origins, ∃ r, lib.compile e = .ok r)
    (hmem : pattern ∈ origins) (hlit : Literal pattern) (hlower : lib.toLower pattern = pattern)
    (pre post : GoString) (hne : pre ++ pattern ++ post ≠ []) {h : GoString}
    (hparse : lib.parseHost (pre ++ pattern ++ post) = .ok h) :
    lib.checks origins (pre ++ pattern ++ post) host = some true := by
  refine (checks_eq_true hcompile hne).mpr ⟨h, hparse, Or.inr ⟨pattern, hmem, ?_⟩⟩
  refine (found_literal_iff hlit).mpr ⟨lib.toLower pre, pattern, lib.toLower post, ?_, stands_all pattern⟩
  rw [toLower_append, toLower_append, hlower]

/-! ## The property -/

variable (lib origins origin host)

/-- The whole origin, in some letter case, matches a pattern. -/
def Covered : Prop :=
  ∃ e ∈ origins, ∃ r, lib.compile e = .ok r ∧ ∃ s, lib.toLower s = lib.toLower origin ∧ r.Covers s

/-- **The property**, for one request: only its own host and whole matches are accepted, and every
literal entry is. -/
structure OnlyAllowed : Prop where
  sound : lib.checks origins origin host = some true →
    lib.parseHost origin = .ok host ∨ lib.Covered origins origin
  complete : ∀ e ∈ origins, Literal e → lib.toLower e = lib.toLower origin →
    lib.checks origins origin host = some true

/-- **The property**, for every request with an origin. -/
def AllowsOnly : Prop := ∀ origin host, origin ≠ [] → lib.OnlyAllowed origins origin host

/-! ## Anchored entries -/

/-- A text that is looked at: the lower case of an origin that can be parsed. -/
def Looked (text : GoString) : Prop := ∃ origin h, lib.parseHost origin = .ok h ∧ lib.toLower origin = text

/-- **The pattern is anchored**: where it matches something in a text that is looked at, it matches all of the
text. -/
def Anchored (pattern : GoString) : Prop :=
  ∀ r, lib.compile pattern = .ok r → ∀ pre mid post, lib.Looked (pre ++ mid ++ post) →
    r.Matches pre mid post → pre = [] ∧ post = []

/-- **The patterns are tight**: all are anchored, and one matches the lower case of each literal, which can be
parsed in every letter case. -/
structure Tight : Prop where
  anchored : ∀ e ∈ origins, lib.Anchored e
  literal : ∀ e ∈ origins, Literal e → ∀ origin, origin ≠ [] → lib.toLower origin = lib.toLower e →
    (∃ h, lib.parseHost origin = .ok h) ∧
      ∃ e' ∈ origins, ∃ r, lib.compile e' = .ok r ∧ r.Covers (lib.toLower e)

variable {lib origins origin host}

/-- An anchored pattern that is found matches all of the text. -/
theorem Anchored.covers (h : lib.Anchored pattern) (hlooked : lib.Looked text)
    (hfound : lib.Found pattern text) : ∃ r, lib.compile pattern = .ok r ∧ r.Covers text := by
  obtain ⟨r, hr, pre, mid, post, rfl, hmatch⟩ := found_iff.mp hfound
  obtain ⟨rfl, rfl⟩ := h r hr pre mid post hlooked hmatch
  refine ⟨r, hr, ?_⟩
  rw [List.nil_append, List.append_nil]
  exact hmatch

theorem found_of_covers {r : Regexp Rune} (hr : lib.compile pattern = .ok r) (h : r.Covers text) :
    lib.Found pattern text :=
  found_iff.mpr ⟨r, hr, [], text, [], (List.append_nil text).symm, h⟩

/-- **A literal between `^` and `$`** is anchored. -/
theorem anchored_pinned (hlit : Literal text) :
    lib.Anchored (.char '^' :: (text ++ [.char '$'])) := by
  intro r hr pre mid post _ hmatch
  rw [lib.compile_pinned text hlit] at hr
  cases hr
  obtain ⟨hpre, hpost, -⟩ := Regexp.matches_pinned.mp hmatch
  exact ⟨hpre, hpost⟩

/-- So is one that is not in lower case: it matches nothing. -/
theorem anchored_of_capital (hlit : Literal pattern) (hcapital : lib.toLower pattern ≠ pattern) :
    lib.Anchored pattern := by
  rintro r hr pre mid post ⟨origin, h, -, hlooked⟩ hmatch
  exact absurd (capitals_admit_nobody hlit (found_iff.mpr ⟨r, hr, pre, mid, post, hlooked, hmatch⟩)) hcapital

/-- One that is in lower case is not, if it can be parsed. -/
theorem not_anchored_literal (hlit : Literal pattern) (hlower : lib.toLower pattern = pattern) {h : GoString}
    (hparse : lib.parseHost pattern = .ok h) : ¬ lib.Anchored pattern := by
  intro hanchored
  obtain ⟨h', hparse'⟩ := lib.parseHost_back pattern h 0 hparse
  have hlooked : lib.Looked ([] ++ pattern ++ [.char '#']) := by
    refine ⟨_, h', hparse', ?_⟩
    rw [toLower_append, hlower]
    exact congrArg (fun r => pattern ++ [r]) (lib.lower_ascii '#' (by decide))
  have hmatch : (Regexp.ofText stands pattern).Matches [] pattern [.char '#'] :=
    Regexp.matches_ofText.mpr (stands_all pattern)
  exact absurd (hanchored _ (lib.compile_ordinary pattern hlit) _ _ _ hlooked hmatch).2 (by decide)

/-- **No tight list has a literal origin in lower case.** -/
theorem Tight.not_lower (h : lib.Tight origins) (hmem : pattern ∈ origins) (hlit : Literal pattern)
    (hne : pattern ≠ []) : lib.toLower pattern ≠ pattern := by
  intro hlower
  obtain ⟨⟨h', hparse⟩, -⟩ := h.literal pattern hmem hlit pattern hne rfl
  exact not_anchored_literal hlit hlower hparse (h.anchored pattern hmem)

/-! ## Tight lists -/

/-- **A tight list allows only what it should.** -/
theorem Tight.allowsOnly (h : lib.Tight origins) (hcompile : ∀ e ∈ origins, ∃ r, lib.compile e = .ok r) :
    lib.AllowsOnly origins := by
  refine fun origin host hne => ⟨fun haccepts => ?_, fun e he hlit heq => ?_⟩
  · obtain ⟨h', hparse, rfl | ⟨e, he, hfound⟩⟩ := (checks_eq_true hcompile hne).mp haccepts
    · exact Or.inl hparse
    · obtain ⟨r, hr, hcovers⟩ := (h.anchored e he).covers ⟨origin, h', hparse, rfl⟩ hfound
      exact Or.inr ⟨e, he, r, hr, lib.toLower origin, toLower_toLower origin, hcovers⟩
  · obtain ⟨⟨h', hparse⟩, e', he', r, hr, hcovers⟩ := h.literal e he hlit origin hne heq.symm
    refine (checks_eq_true hcompile hne).mpr ⟨h', hparse, Or.inr ⟨e', he', ?_⟩⟩
    exact found_of_covers hr (heq ▸ hcovers)

/-- A host that is another. -/
theorem exists_ne_host (h : GoString) : ∃ host : GoString, h ≠ host :=
  ⟨.char 'a' :: h, (List.cons_ne_self _ _).symm⟩

/-- Where nothing is repeated without a bound, what is matched has one. -/
theorem exists_width (origins : List GoString) :
    ∃ n, ∀ e ∈ origins, ∀ r, lib.compile e = .ok r → r.width < n := by
  induction origins with
  | nil => exact ⟨0, fun _ h => absurd h List.not_mem_nil⟩
  | cons e origins ih =>
    obtain ⟨n, hn⟩ := ih
    cases hr : lib.compile e with
    | error err =>
      refine ⟨n, fun e' he' r hr' => ?_⟩
      rcases List.mem_cons.mp he' with rfl | he'
      · rw [hr] at hr'
        cases hr'
      · exact hn e' he' r hr'
    | ok r =>
      refine ⟨max n (r.width + 1), fun e' he' r' hr' => ?_⟩
      rcases List.mem_cons.mp he' with rfl | he'
      · rw [hr] at hr'
        cases hr'
        omega
      · have hlt := hn e' he' r' hr'
        omega

section Necessary

variable (hcompile : ∀ e ∈ origins, ∃ r, lib.compile e = .ok r) (hall : lib.AllowsOnly origins)

include hcompile hall

/-- What a pattern is found in is matched as a whole, -/
theorem AllowsOnly.covered {h : GoString} (hparse : lib.parseHost origin = .ok h) (hne : origin ≠ [])
    (hmem : pattern ∈ origins) (hfound : lib.Found pattern (lib.toLower origin)) :
    lib.Covered origins origin := by
  obtain ⟨host, hhost⟩ := exists_ne_host h
  have haccepts : lib.checks origins origin host = some true :=
    (checks_eq_true hcompile hne).mpr ⟨h, hparse, Or.inr ⟨pattern, hmem, hfound⟩⟩
  refine ((hall origin host hne).sound haccepts).resolve_left fun hown => ?_
  rw [hparse] at hown
  exact hhost (Except.ok.inj hown)

/-- and so it is not too long. -/
theorem AllowsOnly.length_lt (hstar : ∀ e ∈ origins, ∀ r, lib.compile e = .ok r → r.StarFree) {n : ℕ}
    (hn : ∀ e ∈ origins, ∀ r, lib.compile e = .ok r → r.width < n) {h : GoString}
    (hparse : lib.parseHost origin = .ok h) (hne : origin ≠ []) (hmem : pattern ∈ origins)
    (hfound : lib.Found pattern (lib.toLower origin)) : origin.length < n := by
  obtain ⟨e, he, r, hr, s, hs, hcovers⟩ := AllowsOnly.covered hcompile hall hparse hne hmem hfound
  have hlen : s.length = origin.length := by
    have hmap := congrArg List.length hs
    rwa [toLower, toLower, List.length_map, List.length_map] at hmap
  calc origin.length = s.length := hlen.symm
    _ ≤ r.width := hcovers.length_le (hstar e he r hr)
    _ < n := hn e he r hr

/-- **Every pattern is anchored**: a text in which it matches a part could be made as long as one likes. -/
theorem AllowsOnly.anchored (hstar : ∀ e ∈ origins, ∀ r, lib.compile e = .ok r → r.StarFree)
    (hmem : pattern ∈ origins) : lib.Anchored pattern := by
  obtain ⟨n, hn⟩ := @exists_width lib origins
  have hlower : lib.toLower (List.replicate n (.char 'a')) = List.replicate n (.char 'a') := by
    rw [toLower, List.map_replicate, lib.lower_ascii 'a' (by decide)]
    rfl
  rintro r hr pre mid post ⟨origin, h, hparse, hlooked⟩ hmatch
  constructor
  · by_contra hpre
    obtain ⟨h', hparse'⟩ := lib.parseHost_front origin h n hparse
    have hfound : lib.Found pattern (lib.toLower (List.replicate n (.char 'a') ++ origin)) := by
      refine found_iff.mpr ⟨r, hr, _, mid, post, ?_, hmatch.front hpre (List.replicate n (.char 'a'))⟩
      rw [toLower_append, hlower, hlooked]
      simp only [List.append_assoc]
    have hne : origin ≠ [] := by
      rintro rfl
      exact hpre (List.append_eq_nil_iff.mp (List.append_eq_nil_iff.mp hlooked.symm).1).1
    have hlt := AllowsOnly.length_lt hcompile hall hstar hn hparse'
      (List.append_ne_nil_of_right_ne_nil _ hne) hmem hfound
    rw [List.length_append, List.length_replicate] at hlt
    omega
  · by_contra hpost
    obtain ⟨h', hparse'⟩ := lib.parseHost_back origin h n hparse
    have hfound : lib.Found pattern
        (lib.toLower (origin ++ .char '#' :: List.replicate n (.char 'a'))) := by
      refine found_iff.mpr ⟨r, hr, pre, mid, _, ?_,
        hmatch.back hpost (lib.toLower (.char '#' :: List.replicate n (.char 'a')))⟩
      rw [toLower_append, hlooked, List.append_assoc (pre ++ mid)]
    have hlt := AllowsOnly.length_lt hcompile hall hstar hn hparse'
      (List.append_ne_nil_of_right_ne_nil _ (List.cons_ne_nil _ _)) hmem hfound
    rw [List.length_append, List.length_cons, List.length_replicate] at hlt
    omega

/-- **A list without stars that allows only what it should** is tight. -/
theorem AllowsOnly.tight (hstar : ∀ e ∈ origins, ∀ r, lib.compile e = .ok r → r.StarFree) :
    lib.Tight origins where
  anchored _ he := AllowsOnly.anchored hcompile hall hstar he
  literal e he hlit origin hne heq := by
    have haccepts : ∀ host, lib.checks origins origin host = some true := fun host =>
      (hall origin host hne).complete e he hlit heq.symm
    obtain ⟨h, hparse, -⟩ := (checks_eq_true hcompile hne).mp (haccepts [])
    obtain ⟨host, hhost⟩ := exists_ne_host h
    obtain ⟨h', hparse', hor⟩ := (checks_eq_true hcompile hne).mp (haccepts host)
    obtain rfl := Except.ok.inj (hparse.symm.trans hparse')
    obtain ⟨e', he', hfound⟩ := hor.resolve_left hhost
    obtain ⟨r, hr, hcovers⟩ :=
      (AllowsOnly.anchored hcompile hall hstar he').covers ⟨origin, h, hparse, rfl⟩ hfound
    exact ⟨⟨h, hparse⟩, e', he', r, hr, heq ▸ hcovers⟩

end Necessary

end Packages

open Packages

/-- **Origins.** For every origin and host, the check accepts only the host itself and origins that match a
pattern as a whole, and all literal entries in any letter case, if the patterns are tight; and if none of them
repeats something without a bound, only if they are. -/
theorem check_origin_iff (lib : Packages) (origins : List GoString)
    (hcompile : ∀ e ∈ origins, ∃ r, lib.compile e = .ok r) :
    (lib.Tight origins → lib.AllowsOnly origins) ∧
      ((∀ e ∈ origins, ∀ r, lib.compile e = .ok r → r.StarFree) →
        (lib.AllowsOnly origins ↔ lib.Tight origins)) :=
  ⟨fun h => h.allowsOnly hcompile,
    fun hstar => ⟨fun hall => AllowsOnly.tight hcompile hall hstar, fun h => h.allowsOnly hcompile⟩⟩

/-- Packages that know the letters of ASCII, literals and addresses of a scheme and a host. -/
def simplePackages : Packages where
  lower
    | .char c => .char c.toLower
    | .stray _ => .char '\uFFFD'
  lower_ascii _ _ := rfl
  lower_stray _ := rfl
  lower_lower r := by
    cases r with
    | char c => exact congrArg Rune.char (toLower_toLower c)
    | stray _ => rfl
  compile text :=
    if ∀ r ∈ text, Ordinary r then .ok (.ofText stands text)
    else if text.head? = some (.char '^') ∧ text.tail.getLast? = some (.char '$') ∧
        ∀ r ∈ text.tail.dropLast, Ordinary r then
      .ok (.pinned (.ofText stands text.tail.dropLast))
    else .error "not a literal"
  compile_ordinary _ h := if_pos h
  compile_pinned text h := by
    have hnot : ¬ ∀ r ∈ Rune.char '^' :: (text ++ [.char '$']), Ordinary r := fun hall =>
      absurd (hall _ List.mem_cons_self) (by decide)
    have hlast : (Rune.char '^' :: (text ++ [.char '$'])).tail.dropLast = text := List.dropLast_concat
    rw [if_neg hnot, hlast, if_pos ⟨rfl, List.getLast?_concat, h⟩]
  parseHost s := .ok (((s.dropWhile (· ≠ .char ':')).drop 3).takeWhile (· ≠ .char '/'))
  parseHost_front _ _ _ _ := ⟨_, rfl⟩
  parseHost_back _ _ _ _ := ⟨_, rfl⟩

theorem simplePackages_compile : simplePackages.compile (goString "https://screego.net") =
    .ok (.ofText stands (goString "https://screego.net")) :=
  simplePackages.compile_ordinary _ (by decide)

/-- An origin with a capital, and the same in lower case between `^` and `$`. -/
theorem check_origin_iff_pinned :
    simplePackages.AllowsOnly [goString "https://Screego.net", goString "^https://screego.net$"] := by
  have hlit : Literal (goString "https://screego.net") := by
    show ∀ r ∈ goString "https://screego.net", Ordinary r
    decide
  have hcapital : Literal (goString "https://Screego.net") := by
    show ∀ r ∈ goString "https://Screego.net", Ordinary r
    decide
  have hpinned : goString "^https://screego.net$" =
      .char '^' :: (goString "https://screego.net" ++ [.char '$']) := by decide +kernel
  have hlower : simplePackages.toLower (goString "https://Screego.net") = goString "https://screego.net" := by
    decide +kernel
  have hcompile := simplePackages.compile_pinned _ hlit
  rw [hpinned]
  refine (check_origin_iff simplePackages _ fun e he => ?_).1 ⟨fun e he => ?_, fun e he hentry origin _ _ => ?_⟩
  · rcases List.mem_pair.mp he with rfl | rfl
    · exact ⟨_, simplePackages.compile_ordinary _ hcapital⟩
    · exact ⟨_, hcompile⟩
  · rcases List.mem_pair.mp he with rfl | rfl
    · refine anchored_of_capital hcapital ?_
      rw [hlower]
      decide
    · exact anchored_pinned hlit
  · rcases List.mem_pair.mp he with rfl | rfl
    · refine ⟨⟨_, rfl⟩, _, List.mem_cons_of_mem _ List.mem_cons_self, _, hcompile, ?_⟩
      rw [hlower]
      exact Regexp.matches_pinned.mpr ⟨rfl, rfl, Regexp.matches_ofText.mpr (stands_all _)⟩
    · -- the other is no literal
      exact absurd (hentry _ List.mem_cons_self) (by decide)

/-- **Other origins.** What only contains the entry is accepted, and an entry with a capital refuses its
own origin. -/
theorem extended_origin_is_accepted :
    ¬ simplePackages.OnlyAllowed [goString "https://screego.net"]
      (goString "https://screego.net.evil.example") (goString "stream.example") ∧
    ¬ simplePackages.OnlyAllowed [goString "https://Screego.net"]
      (goString "https://screego.net") (goString "stream.example") := by
  constructor
  · intro h
    have haccepts : simplePackages.checks [goString "https://screego.net"]
        (goString "https://screego.net.evil.example") (goString "stream.example") = some true := by
      decide +kernel
    rcases h.sound haccepts with hown | ⟨e, he, r, hr, s, hs, hcovers⟩
    · revert hown
      decide +kernel
    · obtain rfl := List.mem_singleton.mp he
      rw [simplePackages_compile] at hr
      cases hr
      have hlen := (Regexp.matches_ofText.mp hcovers).length_eq
      have hlen' := congrArg List.length hs
      rw [toLower, List.length_map, ← hlen] at hlen'
      revert hlen'
      decide
  · intro h
    have haccepts := h.complete (goString "https://Screego.net") List.mem_cons_self
      (show ∀ r ∈ goString "https://Screego.net", Ordinary r by decide) (by decide)
    revert haccepts
    decide +kernel

end Screego
