import Screego.Dns
import Screego.Lib.Ip
import Screego.Settings

/-!
# Where the external addresses come from

`config/ip.go`, `config/ipdns/static.go`: the list of external addresses in the configuration, and
what the provider made of it returns.

* `parseIPProvider`; a panic is `none`;
* `Acceptable`: one DNS entry, one literal, or one literal of each kind;
  **`parseIPProvider_iff`**: those are the lists that are accepted;
* `Provider.Returns`: what `Get` returns without an error;
  **`Provider.Returns.families`**: an address of each slot's kind, in one slot at least.
-/

set_option autoImplicit false

namespace Screego

open Lib

/-! ## The code -/

/-- `ipdns.Provider`: the fields of a `Static`, or a `DNS`. -/
inductive Provider where
  | static (v4 v6 : Option IP)
  | dns (dns : DNS)

/-- `applyIPTo`: whether the literal is an IPv4 address, and the fields with it. -/
def applyIPTo (config ip : String) (static : Option IP × Option IP) :
    Except (List FutureLog) (Bool × Option IP × Option IP) :=
  let invalid := [futureFatal ("invalid " ++ config ++ ": " ++ ip)]
  match parseIP ip with
  | none => .error invalid
  | some parsed =>
    if ip = "0.0.0.0" then .error invalid
    else
      let v4 := (to4 parsed).isSome
      if v4 then .ok (v4, some parsed, static.2) else .ok (v4, static.1, some parsed)

/-- `parseStatic`. -/
def parseStatic (first : String) (rest : List String) (config : String) :
    Except (List FutureLog) (Option IP × Option IP) :=
  match applyIPTo config first (none, none) with
  | .error errs => .error errs
  | .ok (firstV4, static) =>
    match rest with
    | [] => .ok static
    | second :: others =>
      match applyIPTo config second static with
      | .error errs => .error errs
      | .ok (secondV4, static) =>
        if firstV4 = secondV4 then
          .error [futureFatal ("invalid " ++ config ++ ": the ips must be of different type ipv4/ipv6")]
        else if others ≠ [] then
          .error [futureFatal ("invalid " ++ config ++ ": too many ips supplied")]
        else .ok static

/-- `parseDNS`. -/
def parseDNS (dnsString : List Char) : DNS where
  domain := String.ofList (dnsString.takeWhile (· ≠ '@'))
  dns := if '@' ∈ dnsString then String.ofList (dnsString.dropWhile (· ≠ '@')).tail else "system"

/-- **`parseIPProvider`**: the fatal messages, or the provider. -/
def parseIPProvider (ips : List String) (config : String) :
    Option (Except (List FutureLog) Provider) :=
  match ips with
  | [] => none
  | first :: rest =>
    if "dns:".toList.isPrefixOf first.toList then
      if rest ≠ [] then
        some (.error [futureFatal ("invalid " ++ config ++
          ": when dns server is specified, only one value is allowed")])
      else some (.ok (.dns (parseDNS (first.toList.drop 4))))
    else some ((parseStatic first rest config).map fun static => .static static.1 static.2)

/-! ## The lists that are accepted -/

/-- The text is a literal that stands for one address. -/
def IsLiteral (s : String) (ip : IP) : Prop := parseIP s = some ip ∧ s ≠ "0.0.0.0"

/-- **The lists to accept.** -/
inductive Acceptable : List String → Prop
  | dns (s : String) : Acceptable ["dns:" ++ s]
  | one {a : String} {ip : IP} : IsLiteral a ip → Acceptable [a]
  | two {a b : String} {ip ip' : IP} : IsLiteral a ip → IsLiteral b ip' →
      (to4 ip ≠ none ↔ to4 ip' = none) → Acceptable [a, b]

variable {config ip first s : String} {ips rest : List String} {addr : IP}
  {v4 v6 : Option IP} {static : Option IP × Option IP}

theorem applyIPTo_of_literal (h : IsLiteral s addr) (config : String)
    (static : Option IP × Option IP) : applyIPTo config s static =
      .ok ((to4 addr).isSome,
        if (to4 addr).isSome then (some addr, static.2) else (static.1, some addr)) := by
  unfold applyIPTo
  rw [h.1]
  simp only [if_neg h.2]
  split_ifs
  · rfl
  · rfl

/-- `applyIPTo` accepts literals, and its messages are fatal. -/
theorem applyIPTo_cases (config s : String) (static : Option IP × Option IP) :
    (∃ addr, IsLiteral s addr) ∨ ((∀ addr, ¬ IsLiteral s addr) ∧
      ∃ msg, applyIPTo config s static = .error [futureFatal msg]) := by
  unfold applyIPTo
  cases hp : parseIP s with
  | none =>
    refine Or.inr ⟨fun addr h => ?_, _, rfl⟩
    rw [h.1] at hp
    cases hp
  | some parsed =>
    by_cases hs : s = "0.0.0.0"
    · exact Or.inr ⟨fun addr h => h.2 hs, _, if_pos hs⟩
    · exact Or.inl ⟨parsed, hp, hs⟩

theorem isSome_eq_iff {addr' : IP} : (to4 addr).isSome ≠ (to4 addr').isSome ↔
    (to4 addr ≠ none ↔ to4 addr' = none) := by
  cases to4 addr <;> cases to4 addr' <;> simp

/-- The lists `parseStatic` is to accept. -/
def AcceptableStatic (first : String) : List String → Prop
  | [] => ∃ addr, IsLiteral first addr
  | [second] => ∃ addr addr', IsLiteral first addr ∧ IsLiteral second addr' ∧
      (to4 addr ≠ none ↔ to4 addr' = none)
  | _ => False

theorem AcceptableStatic.literal (h : AcceptableStatic first rest) : ∃ addr, IsLiteral first addr := by
  cases rest with
  | nil => exact h
  | cons second others =>
    cases others with
    | nil =>
      obtain ⟨addr, -, ha, -⟩ := h
      exact ⟨addr, ha⟩
    | cons _ _ => exact h.elim

/-- The two outcomes of `parseStatic`. -/
theorem parseStatic_cases (first : String) (rest : List String) (config : String) :
    (AcceptableStatic first rest ∧ ∃ static, parseStatic first rest config = .ok static) ∨
    (¬ AcceptableStatic first rest ∧
      ∃ msg, parseStatic first rest config = .error [futureFatal msg]) := by
  unfold parseStatic
  rcases applyIPTo_cases config first (none, none) with ⟨addr, hfirst⟩ | ⟨hno, msg, heq⟩
  · rw [applyIPTo_of_literal hfirst]
    cases rest with
    | nil => exact Or.inl ⟨⟨addr, hfirst⟩, _, rfl⟩
    | cons second others =>
      dsimp only
      rcases applyIPTo_cases config second
        (if (to4 addr).isSome then (some addr, none) else (none, some addr)) with
        ⟨addr', hsecond⟩ | ⟨hno, msg, heq⟩
      · rw [applyIPTo_of_literal hsecond]
        dsimp only
        by_cases hkind : (to4 addr).isSome = (to4 addr').isSome
        · refine Or.inr ⟨fun h => ?_, _, if_pos hkind⟩
          cases others with
          | nil =>
            obtain ⟨x, y, hx, hy, hxy⟩ := h
            obtain rfl := Option.some.inj (hx.1.symm.trans hfirst.1)
            obtain rfl := Option.some.inj (hy.1.symm.trans hsecond.1)
            exact isSome_eq_iff.mpr hxy hkind
          | cons _ _ => exact h
        · rw [if_neg hkind]
          cases others with
          | nil =>
            exact Or.inl ⟨⟨addr, addr', hfirst, hsecond, isSome_eq_iff.mp hkind⟩, _,
              if_neg (not_not_intro rfl)⟩
          | cons other others =>
            exact Or.inr ⟨id, _, if_pos (List.cons_ne_nil _ _)⟩
      · rw [heq]
        refine Or.inr ⟨fun h => ?_, msg, rfl⟩
        cases others with
        | nil =>
          obtain ⟨x, y, -, hy, -⟩ := h
          exact hno y hy
        | cons _ _ => exact h
  · rw [heq]
    refine Or.inr ⟨fun h => ?_, msg, rfl⟩
    exact h.literal.elim hno

theorem dns_eq (h : "dns:".toList.isPrefixOf s.toList = true) :
    ∃ t, s = "dns:" ++ t ∧ s = String.ofList ('d' :: 'n' :: 's' :: ':' :: t.toList) := by
  obtain ⟨l, hl⟩ := List.isPrefixOf_iff_prefix.mp h
  refine ⟨String.ofList l, ?_, ?_⟩
  · apply String.toList_inj.mp
    rw [String.toList_append, ← hl, String.toList_ofList (l := l)]
  · rw [← String.toList_inj, String.toList_ofList, String.toList_ofList, ← hl]
    rfl

theorem not_isLiteral_dns (h : "dns:".toList.isPrefixOf s.toList = true) (addr : IP) :
    ¬ IsLiteral s addr := by
  obtain ⟨t, -, heq⟩ := dns_eq h
  rintro ⟨hp, -⟩
  rw [heq, parseIP_dns] at hp
  cases hp

theorem isPrefixOf_dns (s : String) : "dns:".toList.isPrefixOf ("dns:" ++ s).toList = true := by
  rw [List.isPrefixOf_iff_prefix, String.toList_append]
  exact List.prefix_append _ _

theorem acceptable_static (h : ¬ "dns:".toList.isPrefixOf first.toList = true) :
    Acceptable (first :: rest) ↔ AcceptableStatic first rest := by
  constructor
  · intro hacc
    cases hacc with
    | dns s => exact absurd (isPrefixOf_dns s) h
    | one ha => exact ⟨_, ha⟩
    | two ha hb hkind => exact ⟨_, _, ha, hb, hkind⟩
  · intro hacc
    cases rest with
    | nil =>
      obtain ⟨_, ha⟩ := hacc
      exact .one ha
    | cons second others =>
      cases others with
      | nil =>
        obtain ⟨_, _, ha, hb, hkind⟩ := hacc
        exact .two ha hb hkind
      | cons _ _ => exact hacc.elim

/-- **The lists that are accepted**; the messages about the others are fatal, and the empty list, for
which `config.Get` does not call it, is a panic. -/
theorem parseIPProvider_iff (ips : List String) (config : String) :
    ((∃ p, parseIPProvider ips config = some (.ok p)) ↔ Acceptable ips) ∧
      (¬ Acceptable ips → ips ≠ [] → ∃ msg,
        parseIPProvider ips config = some (.error [futureFatal msg])) := by
  cases ips with
  | nil =>
    refine ⟨iff_of_false ?_ ?_, fun _ h => absurd rfl h⟩
    · rintro ⟨p, hp⟩
      cases hp
    · intro h
      cases h
  | cons first rest =>
    dsimp only [parseIPProvider]
    split_ifs with hdns hrest
    · have hno : ¬ Acceptable (first :: rest) := by
        intro h
        cases h with
        | dns s => exact hrest rfl
        | one h => exact hrest rfl
        | two h => exact not_isLiteral_dns hdns _ h
      refine ⟨iff_of_false ?_ hno, fun _ _ => ⟨_, rfl⟩⟩
      rintro ⟨p, hp⟩
      cases hp
    · obtain rfl := not_not.mp hrest
      obtain ⟨t, rfl, -⟩ := dns_eq hdns
      exact ⟨iff_of_true ⟨_, rfl⟩ (.dns t), fun hno => absurd (.dns t) hno⟩
    · rw [acceptable_static hdns]
      rcases parseStatic_cases first rest config with ⟨hyes, static, heq⟩ | ⟨hno, msg, heq⟩
      · rw [heq]
        exact ⟨iff_of_true ⟨_, rfl⟩ hyes, fun hno => absurd hyes hno⟩
      · rw [heq]
        refine ⟨iff_of_false ?_ hno, fun _ _ => ⟨msg, rfl⟩⟩
        rintro ⟨p, hp⟩
        cases hp

/-! ## What a provider returns -/

/-- The addresses the resolver answers with, if it does. -/
def DnsCall.addresses (call : DnsCall) : List IP :=
  match call.outcome with
  | .ok ips => ips
  | .error _ => []

/-- **What `Get` returns without an error**: the fields of a `Static` made of the list `ips`, or the
result of a call in a run of a `DNS` whose resolver answers with addresses. `found` are the
addresses of the list, and those the resolver has answered with. -/
inductive Provider.Returns (ipString : IP → String) (ips : List String) :
    Provider → List IP → Option IP → Option IP → Prop
  | static {v4 v6 : Option IP} : Returns ipString ips (.static v4 v6) (ips.filterMap parseIP) v4 v6
  | dns {d : DNS} {calls : List DnsCall} {s : Cache} {call : DnsCall} {v4 v6 : Option IP}
      (hrun : (dnsRuns ipString d.dns d.domain).run calls = some s) (hadmits : s.Admits call)
      (hget : (s.dns.get ipString call).1 = ⟨v4, v6, none⟩)
      (haddr : ∀ ip ∈ (calls ++ [call]).flatMap DnsCall.addresses, IsAddress ip) :
      Returns ipString ips (.dns d) ((calls ++ [call]).flatMap DnsCall.addresses) v4 v6

/-- The text of an address has a colon if the address is none of IPv4. -/
def ColonsTell (ipString : IP → String) : Prop :=
  ∀ ip, IsAddress ip → (':' ∈ (ipString ip).toList ↔ to4 ip = none)

variable {ipString : IP → String} {found : List IP} {p : Provider}

/-- The outcome of every lookup is that of a call. -/
theorem lookups_of_run {dns domain : String} (calls : List DnsCall) {s : Cache}
    (hrun : (dnsRuns ipString dns domain).run calls = some s) :
    ∀ l ∈ s.lookups, ∃ call ∈ calls, call.outcome = l.outcome := by
  induction calls using List.reverseRecOn generalizing s with
  | nil =>
    cases hrun
    exact fun l hl => absurd hl List.not_mem_nil
  | append_singleton calls call ih =>
    rw [Machine.run_concat] at hrun
    obtain ⟨s₀, hs₀, hstep⟩ := Option.bind_eq_some_iff.mp hrun
    simp only [dnsRuns, Cache.step] at hstep
    split_ifs at hstep
    obtain rfl := Option.some.inj hstep
    intro l hl
    rcases Cache.get_cases ipString s₀ call with
      ⟨-, performed, ho, -, -, -, -, heq⟩ | ⟨-, -, -, heq⟩
    · rw [heq] at hl
      rcases List.mem_cons.mp hl with rfl | hl
      · exact ⟨call, List.mem_append_right _ List.mem_cons_self, ho.symm⟩
      · obtain ⟨c, hc, h⟩ := ih hs₀ l hl
        exact ⟨c, List.mem_append_left _ hc, h⟩
    · rw [heq] at hl
      obtain ⟨c, hc, h⟩ := ih hs₀ l hl
      exact ⟨c, List.mem_append_left _ hc, h⟩

/-- What a provider may return: an address in one slot at least, and in each slot one of its kind,
from `found`. -/
structure Families (found : List IP) (v4 v6 : Option IP) : Prop where
  any : v4 ≠ none ∨ v6 ≠ none
  v4 : ∀ ip, v4 = some ip → IsAddress ip ∧ to4 ip ≠ none ∧ ip ∈ found
  v6 : ∀ ip, v6 = some ip → IsAddress ip ∧ to4 ip = none ∧ ip ∈ found

/-- The first address of each kind. -/
theorem families_find (hcolon : ColonsTell ipString) (haddr : ∀ ip ∈ found, IsAddress ip)
    {answer : List IP} (hsub : ∀ ip ∈ answer, ip ∈ found)
    (h4 : v4 = answer.find? fun ip => !DNS.isV6 ipString ip)
    (h6 : v6 = answer.find? (DNS.isV6 ipString)) (hsome : v4 ≠ none ∨ v6 ≠ none) :
    Families found v4 v6 := by
  refine ⟨hsome, fun ip hip => ?_, fun ip hip => ?_⟩
  · rw [hip] at h4
    have hmem := hsub ip (List.mem_of_find?_eq_some h4.symm)
    have htext : (!DNS.isV6 ipString ip) = true :=
      List.find?_some (p := fun ip => !DNS.isV6 ipString ip) h4.symm
    refine ⟨haddr ip hmem, fun hnone => ?_, hmem⟩
    have hc := (hcolon ip (haddr ip hmem)).mpr hnone
    simp [DNS.isV6, hc] at htext
  · rw [hip] at h6
    have hmem := hsub ip (List.mem_of_find?_eq_some h6.symm)
    have htext : DNS.isV6 ipString ip = true := List.find?_some h6.symm
    refine ⟨haddr ip hmem, (hcolon ip (haddr ip hmem)).mp ?_, hmem⟩
    simpa [DNS.isV6] using htext

theorem applyIPTo_eq_ok {v4 : Bool} {static' : Option IP × Option IP}
    (h : applyIPTo config s static = .ok (v4, static')) : ∃ ip, parseIP s = some ip ∧
      ((to4 ip ≠ none ∧ static' = (some ip, static.2)) ∨
        (to4 ip = none ∧ static' = (static.1, some ip))) := by
  unfold applyIPTo at h
  cases hp : parseIP s with
  | none =>
    rw [hp] at h
    cases h
  | some ip =>
    simp only [hp] at h
    split_ifs at h with hzero hkind
    · cases h
      exact ⟨ip, rfl, Or.inl ⟨Option.isSome_iff_ne_none.mp hkind, rfl⟩⟩
    · cases h
      exact ⟨ip, rfl, Or.inr ⟨by simpa using hkind, rfl⟩⟩

/-- A slot filled with a literal of the list. -/
theorem Families.put (hmem : s ∈ ips) {ip : IP} (hp : parseIP s = some ip)
    {static' : Option IP × Option IP}
    (hput : (to4 ip ≠ none ∧ static' = (some ip, static.2)) ∨
      (to4 ip = none ∧ static' = (static.1, some ip)))
    (h4 : ∀ x, static.1 = some x → IsAddress x ∧ to4 x ≠ none ∧ x ∈ ips.filterMap parseIP)
    (h6 : ∀ x, static.2 = some x → IsAddress x ∧ to4 x = none ∧ x ∈ ips.filterMap parseIP) :
    Families (ips.filterMap parseIP) static'.1 static'.2 := by
  have haddr : IsAddress ip := Or.inr (length_parseIP hp)
  have hfound : ip ∈ ips.filterMap parseIP := List.mem_filterMap.mpr ⟨s, hmem, hp⟩
  rcases hput with ⟨hkind, rfl⟩ | ⟨hkind, rfl⟩
  · refine ⟨Or.inl (Option.some_ne_none _), fun x hx => ?_, h6⟩
    cases hx
    exact ⟨haddr, hkind, hfound⟩
  · refine ⟨Or.inr (Option.some_ne_none _), h4, fun x hx => ?_⟩
    cases hx
    exact ⟨haddr, hkind, hfound⟩

theorem parseStatic_families (h : parseStatic first rest config = .ok static) :
    Families ((first :: rest).filterMap parseIP) static.1 static.2 := by
  unfold parseStatic at h
  cases h1 : applyIPTo config first (none, none) with
  | error errs =>
    rw [h1] at h
    cases h
  | ok applied =>
    obtain ⟨firstV4, static₁⟩ := applied
    obtain ⟨ip, hp, hput⟩ := applyIPTo_eq_ok h1
    have hfirst : Families ((first :: rest).filterMap parseIP) static₁.1 static₁.2 :=
      Families.put List.mem_cons_self hp hput (fun x hx => by cases hx) (fun x hx => by cases hx)
    rw [h1] at h
    cases rest with
    | nil =>
      cases h
      exact hfirst
    | cons second others =>
      dsimp only at h
      cases h2 : applyIPTo config second static₁ with
      | error errs =>
        rw [h2] at h
        cases h
      | ok applied =>
        obtain ⟨secondV4, static₂⟩ := applied
        obtain ⟨ip', hp', hput'⟩ := applyIPTo_eq_ok h2
        rw [h2] at h
        dsimp only at h
        split_ifs at h
        cases h
        exact Families.put (List.mem_cons_of_mem _ List.mem_cons_self) hp' hput' hfirst.v4 hfirst.v6

/-- **What an accepted provider returns.** -/
theorem Provider.Returns.families (hcolon : ColonsTell ipString)
    (hp : parseIPProvider ips config = some (.ok p)) (h : p.Returns ipString ips found v4 v6) :
    Families found v4 v6 := by
  cases h with
  | static =>
    cases ips with
    | nil => cases hp
    | cons first rest =>
      dsimp only [parseIPProvider] at hp
      split_ifs at hp
      · cases hp
      · cases hp
      · cases hs : parseStatic first rest config with
        | error errs =>
          rw [hs] at hp
          cases hp
        | ok static =>
          rw [hs] at hp
          cases hp
          exact parseStatic_families hs
  | @dns d calls s call v4 v6 hrun hadmits hget haddr =>
    have hok := Cache.dnsRuns_ok ipString d.dns d.domain calls s hrun
    have hafter : (dnsRuns ipString d.dns d.domain).run (calls ++ [call]) =
        some (s.after ipString call) := by
      rw [Machine.run_concat, hrun]
      exact if_pos hadmits
    -- the lookup behind the result, and the call that performed it
    obtain ⟨last, hhead, hgot, hlookup⟩ := hok.last_after hadmits
    obtain ⟨c, hc, ho⟩ := lookups_of_run _ hafter last (List.mem_of_head? hhead)
    rw [← hgot, hget] at hlookup
    have herr : (s.dns.lookup ipString last.outcome).err = none := by rw [← hlookup]
    obtain ⟨answer, ha, h4, h6, hsome⟩ := DNS.lookup_of_ok herr
    rw [← hlookup] at h4 h6 hsome
    refine families_find hcolon haddr (fun ip hip => ?_) h4 h6 hsome
    refine List.mem_flatMap.mpr ⟨c, hc, ?_⟩
    unfold DnsCall.addresses
    rw [ho, ha]
    exact hip

end Screego
