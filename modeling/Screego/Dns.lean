import Screego.Env
import Screego.Lib.System

/-!
# The addresses of a domain

`config/ipdns/dns.go`: the external addresses are looked up under a domain name, and kept for a
while.

* `DNS`, `DNS.lookup`, `DNS.get`, with what `net.IP.String` prints as a parameter;
* `foldl_pick`: the loop of `lookup` finds the first address of each kind;
* `Cache`: a run of calls, with the lookups performed; `Cache.Ok`: what the fields of `DNS` have to
  do with the last of them;
* **`cache_is_correct`**: what every call returns, and when it looks up.
-/

set_option autoImplicit false

namespace Screego

open Lib

/-! ## The code -/

/-- An error of the resolver, or one made by `lookup`. -/
inductive LookupError where
  /-- `net.DNSError`. -/
  | dns (err name server : String)
  | other (text : String)
deriving DecidableEq

/-- What `Get` and `lookup` return. -/
structure Answer where
  v4 : Option IP
  v6 : Option IP
  err : Option LookupError
deriving DecidableEq

/-- `time.Second`, in nanoseconds. -/
def second : ℕ := 1000000000

def minute : ℕ := 60 * second

/-- **`DNS`.** Times are in nanoseconds since the zero time. -/
structure DNS where
  dns : String
  domain : String
  refetch : ℕ := 0
  v4 : Option IP := none
  v6 : Option IP := none
  err : Option LookupError := none

/-- What happens during one call of `Get`: the clock when it is tested, the result of
`Resolver.LookupIP` if it is called, and the clock after that. -/
structure DnsCall where
  now : ℕ
  outcome : Except LookupError (List IP)
  done : ℕ

/-- A lookup that was performed. -/
structure Performed where
  outcome : Except LookupError (List IP)
  answer : Answer
  done : ℕ

namespace DNS

variable (ipString : IP → String) (s : DNS)

/-- The text of the address has a colon. -/
def isV6 (ip : IP) : Bool := (ipString ip).toList.contains ':'

/-- The body of the loop of `lookup`. -/
def pick (found : Option IP × Option IP) (ip : IP) : Option IP × Option IP :=
  if isV6 ipString ip && found.2 = none then (found.1, some ip)
  else if !isV6 ipString ip && found.1 = none then (some ip, found.2)
  else found

/-- `dns.Server = ""`: an error does not name the configured server. -/
def hideServer : LookupError → LookupError
  | .dns err name server => .dns err name (if s.dns ≠ "system" then "" else server)
  | .other text => .other text

/-- **`DNS.lookup`**, with the result of `Resolver.LookupIP`. -/
def lookup (outcome : Except LookupError (List IP)) : Answer :=
  match outcome with
  | .error err => ⟨none, none, some (s.hideServer err)⟩
  | .ok ips =>
    let (v4, v6) := ips.foldl (pick ipString) (none, none)
    if v4 = none ∧ v6 = none then
      ⟨none, none, some (.other "dns record doesn't have an A or AAAA record")⟩
    else ⟨v4, v6, none⟩

/-- **`DNS.Get`**, with the lookup it performs, if any. -/
def get (call : DnsCall) : Answer × DNS × Option Performed :=
  if s.refetch < call.now then
    let answer := s.lookup ipString call.outcome
    let s := { s with v4 := answer.v4, v6 := answer.v6, err := answer.err }
    let s := if s.err = none then { s with refetch := call.done + minute }
      else { s with refetch := call.done + second }
    (⟨s.v4, s.v6, s.err⟩, s, some ⟨call.outcome, answer, call.done⟩)
  else (⟨s.v4, s.v6, s.err⟩, s, none)

end DNS

/-! ## What a lookup finds -/

namespace DNS

variable {ipString : IP → String} {s : DNS} {outcome : Except LookupError (List IP)}

theorem pick_eq (v4 v6 : Option IP) (ip : IP) : pick ipString (v4, v6) ip =
    (v4.or ([ip].find? fun ip => !isV6 ipString ip), v6.or ([ip].find? (isV6 ipString))) := by
  cases hip : isV6 ipString ip <;> cases v4 <;> cases v6 <;> simp [pick, hip]

/-- **The loop of `lookup`** finds the first address of each kind. -/
theorem foldl_pick (ips : List IP) (v4 v6 : Option IP) : ips.foldl (pick ipString) (v4, v6) =
    (v4.or (ips.find? fun ip => !isV6 ipString ip), v6.or (ips.find? (isV6 ipString))) := by
  induction ips generalizing v4 v6 with
  | nil => simp
  | cons ip ips ih =>
    rw [List.foldl_cons, pick_eq, ih, Option.or_assoc, Option.or_assoc, ← List.find?_append,
      ← List.find?_append, List.singleton_append]

/-- **A lookup without an error** found the first address of each kind, and one at least. -/
theorem lookup_of_ok (h : (s.lookup ipString outcome).err = none) : ∃ ips, outcome = .ok ips ∧
    (s.lookup ipString outcome).v4 = ips.find? (fun ip => !isV6 ipString ip) ∧
    (s.lookup ipString outcome).v6 = ips.find? (isV6 ipString) ∧
    ((s.lookup ipString outcome).v4 ≠ none ∨ (s.lookup ipString outcome).v6 ≠ none) := by
  cases outcome with
  | error err => cases h
  | ok ips =>
    refine ⟨ips, rfl, ?_⟩
    simp only [lookup, foldl_pick, Option.none_or] at h ⊢
    split_ifs at h ⊢ with hnone
    exact ⟨rfl, rfl, not_and_or.mp hnone⟩

/-- **A lookup with an address** has no error. -/
theorem lookup_of_ne_nil {ips : List IP} (h : ips ≠ []) : (s.lookup ipString (.ok ips)).err = none ∧
    (s.lookup ipString (.ok ips)).v4 = ips.find? (fun ip => !isV6 ipString ip) ∧
    (s.lookup ipString (.ok ips)).v6 = ips.find? (isV6 ipString) := by
  obtain ⟨ip, hip⟩ := List.exists_mem_of_ne_nil ips h
  simp only [lookup, foldl_pick, Option.none_or]
  split_ifs with hnone
  · -- every address is of one of the two kinds
    have h4 := List.find?_eq_none.mp hnone.1 ip hip
    have h6 := List.find?_eq_none.mp hnone.2 ip hip
    rw [Bool.not_eq_true, Bool.not_eq_false'] at h4
    exact absurd h4 h6
  · exact ⟨rfl, rfl, rfl⟩

/-- A lookup with an error has no address. -/
theorem lookup_of_error (h : (s.lookup ipString outcome).err ≠ none) :
    (s.lookup ipString outcome).v4 = none ∧ (s.lookup ipString outcome).v6 = none := by
  cases outcome with
  | error err => exact ⟨rfl, rfl⟩
  | ok ips =>
    simp only [lookup] at h ⊢
    split_ifs at h ⊢ with hnone
    · exact ⟨rfl, rfl⟩
    · exact absurd rfl h

end DNS

/-! ## Runs -/

/-- A `DNS`, the clock, and the lookups performed, the last one first. -/
structure Cache where
  dns : DNS
  clock : ℕ
  lookups : List Performed

namespace Cache

/-- No time has passed between two readings, or some. -/
def Admits (s : Cache) (call : DnsCall) : Prop := s.clock ≤ call.now ∧ call.now ≤ call.done

instance (s : Cache) (call : DnsCall) : Decidable (s.Admits call) :=
  inferInstanceAs (Decidable (_ ∧ _))

/-- The state after a call. -/
def after (ipString : IP → String) (s : Cache) (call : DnsCall) : Cache :=
  match s.dns.get ipString call with
  | (_, dns, some performed) => ⟨dns, call.done, performed :: s.lookups⟩
  | (_, dns, none) => ⟨dns, call.now, s.lookups⟩

def step (ipString : IP → String) (s : Cache) (call : DnsCall) : Option Cache :=
  if s.Admits call then some (s.after ipString call) else none

/-- How long the result of a lookup is kept. -/
def kept (performed : Performed) : ℕ := if performed.answer.err = none then minute else second

/-- A lookup is due. -/
def Due (s : Cache) (now : ℕ) : Prop :=
  ∀ last, s.lookups.head? = some last → last.done + kept last < now

end Cache

/-- **The runs of a `DNS`**: calls with readings of a clock that does not go back, and that has left
the zero time behind. -/
def dnsRuns (ipString : IP → String) (dns domain : String) : Machine Cache DnsCall where
  init := ⟨{ dns, domain }, 1, []⟩
  step := Cache.step ipString

namespace Cache

variable {ipString : IP → String} {dns domain : String} {s : Cache} {call : DnsCall}

/-- **The fields of `DNS`** are those of the last lookup. -/
structure Ok (ipString : IP → String) (s : Cache) : Prop where
  clock : 0 < s.clock
  never : s.lookups = [] → s.dns.refetch = 0
  last : ∀ last, s.lookups.head? = some last →
    last.answer = s.dns.lookup ipString last.outcome ∧
      last.answer = ⟨s.dns.v4, s.dns.v6, s.dns.err⟩ ∧ s.dns.refetch = last.done + kept last

/-- The test of `Get` tells whether a lookup is due. -/
theorem Ok.due_iff (h : s.Ok ipString) (hcall : s.Admits call) :
    s.dns.refetch < call.now ↔ s.Due call.now := by
  unfold Due
  cases hl : s.lookups with
  | nil =>
    rw [h.never hl]
    refine iff_of_true ?_ fun last hlast => by cases hlast
    have := h.clock
    have := hcall.1
    omega
  | cons last lookups =>
    obtain ⟨-, -, hrefetch⟩ := h.last last (by rw [hl]; rfl)
    rw [hrefetch]
    constructor
    · rintro hlt last' hlast'
      cases hlast'
      exact hlt
    · exact fun hall => hall last rfl

/-- **One call.** -/
theorem get_cases (ipString : IP → String) (s : Cache) (call : DnsCall) :
    (s.dns.refetch < call.now ∧ ∃ performed, performed.outcome = call.outcome ∧
      performed.answer = s.dns.lookup ipString call.outcome ∧ performed.done = call.done ∧
      (s.dns.get ipString call).1 = performed.answer ∧
      (s.dns.get ipString call).2.2 = some performed ∧
      s.after ipString call =
        ⟨{ s.dns with v4 := performed.answer.v4, v6 := performed.answer.v6, err := performed.answer.err,
                      refetch := call.done + kept performed }, call.done, performed :: s.lookups⟩) ∨
    (¬ s.dns.refetch < call.now ∧
      (s.dns.get ipString call).1 = ⟨s.dns.v4, s.dns.v6, s.dns.err⟩ ∧
      (s.dns.get ipString call).2.2 = none ∧
      s.after ipString call = ⟨s.dns, call.now, s.lookups⟩) := by
  unfold after DNS.get
  split_ifs with hdue
  · generalize s.dns.lookup ipString call.outcome = answer
    obtain ⟨v4, v6, err⟩ := answer
    refine Or.inl ⟨hdue, ⟨call.outcome, ⟨v4, v6, err⟩, call.done⟩, rfl, rfl, rfl, ?_⟩
    cases err with
    | none => exact ⟨rfl, rfl, by simp [kept]⟩
    | some err => exact ⟨rfl, rfl, by simp [kept]⟩
  · exact Or.inr ⟨hdue, rfl, rfl, rfl⟩

theorem performs_iff (ipString : IP → String) (s : Cache) (call : DnsCall) :
    (s.dns.get ipString call).2.2 ≠ none ↔ s.dns.refetch < call.now := by
  rcases get_cases ipString s call with
    ⟨hlt, performed, -, -, -, -, hsome, -⟩ | ⟨hnot, -, hnone, -⟩
  · exact iff_of_true (by rw [hsome]; exact Option.some_ne_none _) hlt
  · exact iff_of_false (not_not_intro hnone) hnot

/-- **What is returned** is the result of the last lookup, whether this call performs it or not. -/
theorem Ok.last_after (h : s.Ok ipString) (hcall : s.Admits call) :
    ∃ last, (s.after ipString call).lookups.head? = some last ∧
      (s.dns.get ipString call).1 = last.answer ∧
      last.answer = s.dns.lookup ipString last.outcome := by
  rcases get_cases ipString s call with
    ⟨-, performed, ho, ha, -, hgot, -, heq⟩ | ⟨hnot, hgot, -, heq⟩
  · exact ⟨performed, by rw [heq]; rfl, hgot, by rw [ha, ho]⟩
  · rw [heq, hgot]
    cases hl : s.lookups with
    | nil =>
      refine absurd ((h.due_iff hcall).mpr fun last hlast => ?_) hnot
      rw [hl] at hlast
      cases hlast
    | cons last lookups =>
      obtain ⟨ha, ha', -⟩ := h.last last (by rw [hl]; rfl)
      exact ⟨last, rfl, ha'.symm, ha⟩

theorem Ok.after (h : s.Ok ipString) (hcall : s.Admits call) :
    (s.after ipString call).Ok ipString := by
  have hclock := h.clock
  obtain ⟨hle, hle'⟩ := hcall
  rcases get_cases ipString s call with
    ⟨-, performed, ho, ha, hd, -, -, heq⟩ | ⟨-, -, -, heq⟩
  · rw [heq]
    refine ⟨?_, fun hl => absurd hl (List.cons_ne_nil _ _), fun last hlast => ?_⟩
    · show 0 < call.done
      omega
    · cases hlast
      exact ⟨ha.trans (by rw [ho]; rfl), rfl, by rw [hd]⟩
  · rw [heq]
    exact ⟨show 0 < call.now by omega, h.never, h.last⟩

theorem dnsRuns_ok (ipString : IP → String) (dns domain : String) :
    (dnsRuns ipString dns domain).Safe (Ok ipString) := by
  apply Machine.safe_of_step
  · exact ⟨Nat.one_pos, fun _ => rfl, fun last hlast => by cases hlast⟩
  · intro s call s' h hs'
    simp only [dnsRuns, step] at hs'
    split_ifs at hs' with hcall
    exact Option.some.inj hs' ▸ h.after hcall

end Cache

/-- **The cache of a `DNS`.** At every point of every run, whatever the next call meets: it performs a
lookup if and only if there was none, or the last one was completed more than a minute ago, more
than a second if it failed; it returns the result of the last lookup, its own included; there is no error if and
only if that has an address, and then it is the first of each kind; with an error it is no address. -/
theorem cache_is_correct (ipString : IP → String) (dns domain : String) :
    (dnsRuns ipString dns domain).Safe fun s => ∀ call, s.Admits call →
      let got := (s.dns.get ipString call).1
      ((s.dns.get ipString call).2.2 ≠ none ↔ s.lookups = [] ∨
        ∃ last, s.lookups.head? = some last ∧
          last.done + (if last.answer.err = none then minute else second) < call.now) ∧
      (∃ last, (s.after ipString call).lookups.head? = some last ∧ got = last.answer ∧
        last.answer = s.dns.lookup ipString last.outcome ∧
        (got.err = none → ∃ ips, last.outcome = .ok ips ∧
          got.v4 = ips.find? (fun ip => !(ipString ip).toList.contains ':') ∧
          got.v6 = ips.find? (fun ip => (ipString ip).toList.contains ':')) ∧
        ∀ ips, last.outcome = .ok ips → ips ≠ [] → got.err = none ∧
          got.v4 = ips.find? (fun ip => !(ipString ip).toList.contains ':') ∧
          got.v6 = ips.find? (fun ip => (ipString ip).toList.contains ':')) ∧
      (got.err = none → got.v4 ≠ none ∨ got.v6 ≠ none) ∧
      (got.err ≠ none → got.v4 = none ∧ got.v6 = none) := by
  refine (Cache.dnsRuns_ok ipString dns domain).mono fun s h call hcall => ?_
  obtain ⟨last, hhead, hgot, ha⟩ := h.last_after hcall
  refine ⟨?_, ?_, ?_, ?_⟩
  · rw [Cache.performs_iff, h.due_iff hcall]
    unfold Cache.Due Cache.kept
    cases hl : s.lookups with
    | nil => exact iff_of_true (fun last hlast => by cases hlast) (Or.inl rfl)
    | cons last lookups => simp
  · refine ⟨last, hhead, hgot, ha, fun herr => ?_, fun ips hips hne => ?_⟩
    · rw [hgot, ha] at herr ⊢
      obtain ⟨ips, hips, h4, h6, -⟩ := DNS.lookup_of_ok herr
      exact ⟨ips, hips, h4, h6⟩
    · rw [hgot, ha, hips]
      exact DNS.lookup_of_ne_nil hne
  · rw [hgot, ha]
    intro herr
    obtain ⟨ips, -, -, -, hor⟩ := DNS.lookup_of_ok herr
    exact hor
  · rw [hgot, ha]
    exact DNS.lookup_of_error

end Screego
