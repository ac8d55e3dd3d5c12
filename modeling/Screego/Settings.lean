import Screego.Env
import Screego.Lib.Decimal

/-!
# The port range of the relays

`config/config.go`, `config/error.go`: the part of `config.Get` that reads SCREEGO_TURN_PORT_RANGE.

* `FutureLog`: a message of `config.Get`; the server does not start when one is fatal;
* `parsePortRange`, `portRange`, `portRangeLogs`;
* `parsePortRange_eq_ok`: what is read; **`portRange_of_not_fatal`**: what is left to the server.
-/

set_option autoImplicit false

namespace Screego

open Lib

/-- `zerolog.Level`. -/
inductive Level where
  | debug
  | info
  | warn
  | error
  | fatal
deriving DecidableEq

structure FutureLog where
  level : Level
  msg : String
deriving DecidableEq

def futureFatal (msg : String) : FutureLog := ⟨.fatal, msg⟩

/-- `serve` exits when one of the messages is fatal. -/
def NotFatal (logs : List FutureLog) : Prop := ∀ log ∈ logs, log.level ≠ .fatal

instance (logs : List FutureLog) : Decidable (NotFatal logs) :=
  inferInstanceAs (Decidable (∀ log ∈ logs, log.level ≠ .fatal))

@[simp] theorem notFatal_nil : NotFatal [] := fun _ h => absurd h List.not_mem_nil

@[simp] theorem not_notFatal_futureFatal (msg : String) : ¬ NotFatal [futureFatal msg] :=
  fun h => h _ List.mem_cons_self rfl

variable (quote : String → String)

/-- `NumError.Error()`, with `quote` for `strconv.Quote`. -/
def numErrorText (num : String) (err : NumError) : String :=
  "strconv.ParseUint: parsing " ++ quote num ++ ": " ++ err.text

/-- `Config.parsePortRange`. -/
def parsePortRange (turnPortRange : String) : Except String (UInt16 × UInt16) :=
  if turnPortRange = "" then .ok (0, 0)
  else match turnPortRange.toList.splitOn ':' with
    | [stringMin, stringMax] =>
      match parseUint 16 stringMin with
      | .error err => .error ("invalid min: " ++ numErrorText quote (String.ofList stringMin) err)
      | .ok min64 =>
        match parseUint 16 stringMax with
        | .error err => .error ("invalid max: " ++ numErrorText quote (String.ofList stringMax) err)
        | .ok max64 => .ok (UInt16.ofNat min64, UInt16.ofNat max64)
    | _ => .error "must include one colon"

/-- `Config.PortRange`: the bounds and whether to use them. -/
def portRange (turnPortRange : String) : UInt16 × UInt16 × Bool :=
  let (min, max) := match parsePortRange quote turnPortRange with
    | .ok range => range
    | .error _ => (0, 0)
  (min, max, min ≠ 0 && max ≠ 0)

/-- What `config.Get` has to say about the port range. -/
def portRangeLogs (turnPortRange : String) : List FutureLog :=
  match parsePortRange quote turnPortRange with
  | .error err => [futureFatal ("invalid SCREEGO_TURN_PORT_RANGE: " ++ err)]
  | .ok (min, max) =>
    if min = 0 ∧ max = 0 then []
    else if min = 0 ∨ max = 0 then
      [futureFatal "invalid SCREEGO_TURN_PORT_RANGE: min or max port is 0"]
    else if max < min then
      [futureFatal ("invalid SCREEGO_TURN_PORT_RANGE: min port (" ++ toString min ++
        ") is higher than max port (" ++ toString max ++ ")")]
    else if max - min < 40 then
      [⟨.warn, "Less than 40 ports are available for turn. When using multiple TURN connections this may not be enough"⟩]
    else []

/-! ## What is read -/

variable {quote} {s : String} {min max : UInt16}

/-- **What `parsePortRange` reads**: nothing, or two decimal numbers joined by a colon. -/
theorem parsePortRange_eq_ok (hs : s ≠ "") : parsePortRange quote s = .ok (min, max) ↔
    ∃ a b, s.toList = a ++ ':' :: b ∧ IsDecimal a min.toNat ∧ IsDecimal b max.toNat := by
  unfold parsePortRange
  rw [if_neg hs]
  constructor
  · intro h
    split at h
    · next a b hsplit =>
      have hjoin : s.toList = a ++ ':' :: b := by
        have hjoin : [':'].intercalate (s.toList.splitOn ':') = s.toList :=
          List.intercalate_splitOn ':'
        rw [← hjoin, hsplit]
        simp [List.intercalate]
      split at h
      · cases h
      · next min64 hmin =>
        split at h
        · cases h
        · next max64 hmax =>
          obtain ⟨hmin, hlt⟩ := parseUint_eq_ok.mp hmin
          obtain ⟨hmax, hlt'⟩ := parseUint_eq_ok.mp hmax
          cases h
          refine ⟨a, b, hjoin, ?_, ?_⟩
          · rwa [UInt16.toNat_ofNat', Nat.mod_eq_of_lt hlt]
          · rwa [UInt16.toNat_ofNat', Nat.mod_eq_of_lt hlt']
    · cases h
  · rintro ⟨a, b, hjoin, hmin, hmax⟩
    have hsplit : s.toList.splitOn ':' = [a, b] := by
      rw [hjoin, List.splitOn_append_cons_self_of_not_mem (hmin.notMem (by decide)),
        List.splitOn_eq_singleton (hmax.notMem (by decide))]
    simp only [hsplit, parseUint_eq_ok.mpr ⟨hmin, min.toNat_lt⟩,
      parseUint_eq_ok.mpr ⟨hmax, max.toNat_lt⟩, UInt16.ofNat_toNat]

/-- The numbers are read as they are written. -/
def WritesRange (s : String) (min max : ℕ) : Prop :=
  ∃ a b, s.toList = a ++ ':' :: b ∧ IsDecimal a min ∧ IsDecimal b max

/-- **The port range of a server that starts**: there is none, or it is the one written, and not
empty. -/
theorem portRange_of_not_fatal (h : NotFatal (portRangeLogs quote s)) :
    (portRange quote s = (0, 0, false) ∧ (s = "" ∨ WritesRange s 0 0)) ∨
      ∃ min max : UInt16, portRange quote s = (min, max, true) ∧
        WritesRange s min.toNat max.toNat ∧ 1 ≤ min.toNat ∧ min.toNat ≤ max.toNat := by
  unfold portRangeLogs at h
  unfold portRange
  cases hp : parsePortRange quote s with
  | error err => simp [hp] at h
  | ok range =>
    obtain ⟨min, max⟩ := range
    have hwrites : s = "" ∨ WritesRange s min.toNat max.toNat := by
      by_cases hs : s = ""
      · exact Or.inl hs
      · exact Or.inr ((parsePortRange_eq_ok hs).mp hp)
    simp only [hp] at h
    split_ifs at h with h0 h1 h2
    · obtain ⟨rfl, rfl⟩ := h0
      exact Or.inl ⟨rfl, hwrites⟩
    · exact absurd h (not_notFatal_futureFatal _)
    · exact absurd h (not_notFatal_futureFatal _)
    all_goals
      obtain ⟨hmin, hmax⟩ := not_or.mp h1
      refine Or.inr ⟨min, max, by simp [hmin, hmax], hwrites.resolve_left ?_, ?_, ?_⟩
      · rintro rfl
        cases hp
        exact hmin rfl
      · rw [← UInt16.toNat_inj] at hmin
        exact Nat.one_le_iff_ne_zero.mpr hmin
      · rw [UInt16.lt_iff_toNat_lt] at h2
        omega

end Screego
