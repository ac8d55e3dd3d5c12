import Mathlib.Data.List.Infix
import Mathlib.Logic.Relation
import Mathlib.Tactic.Basic

/-!
# Regular expressions

Regular expressions with assertions about what stands before and behind a place, such as the start
of the text or a word boundary, and a matcher for them.

* `Place`: a place in a text; `Regexp.run`: where a match that begins there may end;
* `Regexp.Leads`: what a match is; **`Regexp.mem_run`**: the matcher finds all matches;
* `Regexp.find`: the search for a match anywhere; **`Regexp.find_iff`**;
* `Regexp.Matches.front`, `Regexp.Matches.back`: a match that is only a part does not see the ends of the text;
* `Regexp.StarFree`, `Regexp.width`: **`Regexp.Matches.length_le`**, how long a match can be;
* `Regexp.ofText`: the expression that is one character after another; `Regexp.leads_ofText`;
* `Regexp.pinned`: the expression between the ends of the text; `Regexp.matches_pinned`.
-/

set_option autoImplicit false

namespace Screego.Lib

variable {α : Type}

/-- **A place in a text**: the character before it, and what follows. -/
structure Place (α : Type) where
  prev : Option α
  rest : List α

/-- The place, if the text went on. -/
def Place.append (s : Place α) (x : List α) : Place α := ⟨s.prev, s.rest ++ x⟩

inductive Regexp (α : Type) where
  | empty
  /-- One character. -/
  | set (p : α → Bool)
  /-- An assertion about the characters on both sides. -/
  | look (p : Option α → Option α → Bool)
  | concat (a b : Regexp α)
  | alt (a b : Regexp α)
  | star (a : Regexp α)

/-- What can be reached by up to `n` steps that go forward. -/
def reach (f : Place α → List (Place α)) : ℕ → Place α → List (Place α)
  | 0, s => [s]
  | n + 1, s => s :: ((f s).filter fun t => t.rest.length < s.rest.length).flatMap (reach f n)

namespace Regexp

/-- **The matcher**: where a match that begins here may end. -/
def run : Regexp α → Place α → List (Place α)
  | empty, s => [s]
  | set p, s =>
    match s.rest with
    | [] => []
    | c :: rest => if p c then [⟨some c, rest⟩] else []
  | look p, s => if p s.prev s.rest.head? then [s] else []
  | concat a b, s => (a.run s).flatMap b.run
  | alt a b, s => a.run s ++ b.run s
  | star a, s => reach a.run s.rest.length s

/-- The places of a text from one on. -/
def places (prev : Option α) : List α → List (Place α)
  | [] => [⟨prev, []⟩]
  | c :: rest => ⟨prev, c :: rest⟩ :: places (some c) rest

/-- `Match`: somewhere in the text. -/
def find (r : Regexp α) (text : List α) : Bool := (places none text).any fun s => !(r.run s).isEmpty

/-! ## Matches -/

/-- **A match** from one place to another. -/
inductive Leads : Regexp α → Place α → Place α → Prop
  | empty (s : Place α) : Leads .empty s s
  | set {p : α → Bool} {prev : Option α} {c : α} {rest : List α} : p c = true →
      Leads (.set p) ⟨prev, c :: rest⟩ ⟨some c, rest⟩
  | look {p : Option α → Option α → Bool} {s : Place α} : p s.prev s.rest.head? = true →
      Leads (.look p) s s
  | concat {a b : Regexp α} {s t u : Place α} : Leads a s t → Leads b t u → Leads (.concat a b) s u
  | left {a b : Regexp α} {s t : Place α} : Leads a s t → Leads (.alt a b) s t
  | right {a b : Regexp α} {s t : Place α} : Leads b s t → Leads (.alt a b) s t
  | done {a : Regexp α} (s : Place α) : Leads (.star a) s s
  | more {a : Regexp α} {s t u : Place α} : Leads a s t → Leads (.star a) t u → Leads (.star a) s u

variable {r a b : Regexp α} {s t u : Place α}

/-- A match stands still or goes forward. -/
theorem Leads.forward (h : r.Leads s t) : t = s ∨ t.rest.length < s.rest.length := by
  induction h with
  | empty | look | done => exact Or.inl rfl
  | set => exact Or.inr (Nat.lt_succ_self _)
  | concat _ _ iha ihb | more _ _ iha ihb =>
    rcases iha with rfl | iha
    · exact ihb
    · rcases ihb with rfl | ihb
      · exact Or.inr iha
      · exact Or.inr (ihb.trans iha)
  | left _ ih | right _ ih => exact ih

/-- The steps of a star that go forward are enough. -/
theorem mem_reach {f : Place α → List (Place α)} (hf : ∀ s t, t ∈ f s ↔ a.Leads s t) (n : ℕ)
    (hn : s.rest.length ≤ n) : t ∈ reach f n s ↔ (star a).Leads s t := by
  constructor
  · intro h
    induction n generalizing s with
    | zero =>
      rw [List.mem_singleton.mp h]
      exact .done s
    | succ n ih =>
      rcases List.mem_cons.mp h with rfl | h
      · exact .done _
      · obtain ⟨m, hm, h⟩ := List.mem_flatMap.mp h
        obtain ⟨hm, hlt⟩ := List.mem_filter.mp hm
        have hlt := of_decide_eq_true hlt
        exact .more ((hf s m).mp hm) (ih (by omega) h)
  · intro h
    generalize hr : star a = r at h
    induction h generalizing n with
    | done s => cases n <;> exact List.mem_cons_self
    | @more b s m u hstep _ _ ih =>
      cases hr
      rcases hstep.forward with rfl | hlt
      · exact ih n hn rfl
      · cases n with
        | zero => omega
        | succ n =>
          refine List.mem_cons_of_mem _ (List.mem_flatMap.mpr ⟨m, ?_, ih n (by omega) rfl⟩)
          exact List.mem_filter.mpr ⟨(hf s m).mpr hstep, decide_eq_true hlt⟩
    | _ => cases hr

/-- **The matcher finds all matches**, and nothing else. -/
theorem mem_run : t ∈ r.run s ↔ r.Leads s t := by
  induction r generalizing s t with
  | empty =>
    rw [run, List.mem_singleton]
    constructor
    · rintro rfl
      exact .empty _
    · rintro ⟨⟩
      rfl
  | set p =>
    obtain ⟨prev, rest⟩ := s
    cases rest with
    | nil => exact iff_of_false List.not_mem_nil fun h => by cases h
    | cons c rest =>
      simp only [run]
      split_ifs with hp
      · rw [List.mem_singleton]
        constructor
        · rintro rfl
          exact .set hp
        · rintro ⟨⟩
          rfl
      · refine iff_of_false List.not_mem_nil fun h => ?_
        cases h with
        | set h => exact hp h
  | look p =>
    simp only [run]
    split_ifs with hp
    · rw [List.mem_singleton]
      constructor
      · rintro rfl
        exact .look hp
      · rintro ⟨⟩
        rfl
    · refine iff_of_false List.not_mem_nil fun h => ?_
      cases h with
      | look h => exact hp h
  | concat a b iha ihb =>
    rw [run, List.mem_flatMap]
    constructor
    · rintro ⟨m, ha, hb⟩
      exact .concat (iha.mp ha) (ihb.mp hb)
    · intro h
      cases h with
      | concat ha hb => exact ⟨_, iha.mpr ha, ihb.mpr hb⟩
  | alt a b iha ihb =>
    rw [run, List.mem_append, iha, ihb]
    constructor
    · exact fun h => h.elim .left .right
    · intro h
      cases h with
      | left h => exact Or.inl h
      | right h => exact Or.inr h
  | star a ih => exact mem_reach (fun s t => ih) _ le_rfl

/-! ## Searching -/

/-- The place behind `pre`, before `post`. -/
def between (pre post : List α) : Place α := ⟨pre.getLast?, post⟩

theorem mem_places {pre rest : List α} : s ∈ places pre.getLast? rest ↔
    ∃ mid post, rest = mid ++ post ∧ s = between (pre ++ mid) post := by
  induction rest generalizing pre with
  | nil =>
    rw [places, List.mem_singleton]
    constructor
    · intro h
      exact ⟨[], [], rfl, by rw [List.append_nil, h]; rfl⟩
    · rintro ⟨mid, post, h, rfl⟩
      obtain ⟨rfl, rfl⟩ := List.append_eq_nil_iff.mp h.symm
      rw [List.append_nil]
      rfl
  | cons c rest ih =>
    have hlast : (pre ++ [c]).getLast? = some c := List.getLast?_concat
    rw [places, List.mem_cons, ← hlast, ih]
    constructor
    · rintro (rfl | ⟨mid, post, rfl, rfl⟩)
      · exact ⟨[], c :: rest, rfl, by rw [List.append_nil]; rfl⟩
      · exact ⟨c :: mid, post, rfl, by rw [List.append_assoc]; rfl⟩
    · rintro ⟨mid, post, h, rfl⟩
      rcases List.cons_eq_append_iff.mp h with ⟨rfl, rfl⟩ | ⟨mid, rfl, rfl⟩
      · exact Or.inl (by rw [List.append_nil]; rfl)
      · exact Or.inr ⟨mid, post, rfl, by rw [List.append_assoc]; rfl⟩

/-- What follows a match is an end of what followed its start. -/
theorem Leads.suffix (h : r.Leads s t) : ∃ pre : List α, s.rest = pre ++ t.rest ∧
    t.prev = pre.getLast?.or s.prev := by
  induction h with
  | empty | look | done => exact ⟨[], rfl, rfl⟩
  | @set p prev c rest _ => exact ⟨[c], rfl, rfl⟩
  | concat _ _ iha ihb | more _ _ iha ihb =>
    obtain ⟨x, hx, hprev⟩ := iha
    obtain ⟨y, hy, hprev'⟩ := ihb
    refine ⟨x ++ y, by rw [hx, hy, List.append_assoc], ?_⟩
    rw [hprev', hprev, List.getLast?_append, Option.or_assoc]
  | left _ ih | right _ ih => exact ih

/-- The expression matches `mid` between `pre` and `post`. -/
def Matches (r : Regexp α) (pre mid post : List α) : Prop :=
  r.Leads (between pre (mid ++ post)) (between (pre ++ mid) post)

/-- The expression matches all of the text. -/
def Covers (r : Regexp α) (text : List α) : Prop := r.Matches [] text []

/-- **The search** succeeds if and only if the expression matches some part of the text. -/
theorem find_iff {text : List α} :
    r.find text = true ↔ ∃ pre mid post, text = pre ++ mid ++ post ∧ r.Matches pre mid post := by
  rw [find, List.any_eq_true]
  have hplaces : ∀ s : Place α, s ∈ places none text ↔
      ∃ pre post, text = pre ++ post ∧ s = between pre post := by
    intro s
    show s ∈ places ([] : List α).getLast? text ↔ _
    exact mem_places
  constructor
  · rintro ⟨s, hs, hrun⟩
    obtain ⟨pre, post, rfl, rfl⟩ := (hplaces s).mp hs
    obtain ⟨t, ht⟩ := List.exists_mem_of_ne_nil (r.run (between pre post)) (by simpa using hrun)
    have hleads := mem_run.mp ht
    obtain ⟨mid, hrest, hprev⟩ := hleads.suffix
    refine ⟨pre, mid, t.rest, ?_, ?_⟩
    · rw [List.append_assoc, ← hrest]
      rfl
    · have ht : t = between (pre ++ mid) t.rest := by
        rw [between, List.getLast?_append, ← show (between pre post).prev = pre.getLast? from rfl,
          ← hprev]
      rw [Matches, ← hrest, ← ht]
      exact hleads
  · rintro ⟨pre, mid, post, rfl, h⟩
    refine ⟨between pre (mid ++ post), (hplaces _).mpr ⟨pre, mid ++ post, by simp, rfl⟩, ?_⟩
    have hmem := mem_run.mpr h
    cases hrun : r.run (between pre (mid ++ post)) with
    | nil =>
      rw [hrun] at hmem
      exact absurd hmem List.not_mem_nil
    | cons t ts => rfl

/-! ## What a match depends on -/

/-- A match that does not reach the end of the text does not see it. -/
theorem Leads.append (h : r.Leads s t) (ht : t.rest ≠ []) (x : List α) :
    r.Leads (s.append x) (t.append x) := by
  induction h with
  | empty s => exact .empty _
  | set hp => exact .set hp
  | @look p s hp =>
    refine .look ?_
    show p s.prev (s.rest ++ x).head? = true
    rw [List.head?_append_of_ne_nil _ ht]
    exact hp
  | concat _ hb iha ihb =>
    obtain ⟨pre, hrest, -⟩ := hb.suffix
    exact .concat (iha (hrest ▸ List.append_ne_nil_of_right_ne_nil _ ht)) (ihb ht)
  | left _ ih => exact .left (ih ht)
  | right _ ih => exact .right (ih ht)
  | done s => exact .done _
  | more _ hb iha ihb =>
    obtain ⟨pre, hrest, -⟩ := hb.suffix
    exact .more (iha (hrest ▸ List.append_ne_nil_of_right_ne_nil _ ht)) (ihb ht)

/-- **A match behind something** does not see what comes before that. -/
theorem Matches.front {pre mid post : List α} (h : r.Matches pre mid post) (hpre : pre ≠ [])
    (x : List α) : r.Matches (x ++ pre) mid post := by
  have hbetween : ∀ l post : List α, between (x ++ pre ++ l) post = between (pre ++ l) post := by
    intro l post
    rw [between, between, List.append_assoc, List.getLast?_append_of_ne_nil]
    exact List.append_ne_nil_of_left_ne_nil hpre l
  have hstart := hbetween [] (mid ++ post)
  rw [List.append_nil, List.append_nil] at hstart
  rw [Matches, hbetween, hstart]
  exact h

/-- **A match before something** does not see what comes behind that. -/
theorem Matches.back {pre mid post : List α} (h : r.Matches pre mid post) (hpost : post ≠ [])
    (x : List α) : r.Matches pre mid (post ++ x) := by
  have happend := Leads.append h hpost x
  rw [Matches, ← List.append_assoc]
  exact happend

/-- Nothing is repeated without a bound. -/
def StarFree : Regexp α → Prop
  | empty | set _ | look _ => True
  | concat a b | alt a b => StarFree a ∧ StarFree b
  | star _ => False

/-- How much can be matched where nothing is repeated without a bound. -/
def width : Regexp α → ℕ
  | empty | look _ | star _ => 0
  | set _ => 1
  | concat a b => width a + width b
  | alt a b => max (width a) (width b)

theorem Leads.length_le (h : r.Leads s t) (hr : r.StarFree) :
    s.rest.length ≤ t.rest.length + r.width := by
  induction h with
  | empty | look => exact Nat.le_add_right _ _
  | set => exact le_rfl
  | concat _ _ iha ihb =>
    have ha := iha hr.1
    have hb := ihb hr.2
    simp only [width]
    omega
  | left _ ih => exact (ih hr.1).trans (Nat.add_le_add_left (le_max_left _ _) _)
  | right _ ih => exact (ih hr.2).trans (Nat.add_le_add_left (le_max_right _ _) _)
  | done | more => exact hr.elim

/-- **How long a match can be.** -/
theorem Matches.length_le {pre mid post : List α} (h : r.Matches pre mid post) (hr : r.StarFree) :
    mid.length ≤ r.width := by
  have hle : (mid ++ post).length ≤ post.length + r.width := Leads.length_le h hr
  rw [List.length_append] at hle
  omega

/-! ## One character after another -/

/-- The expression for a text, if `p c` are the characters that `c` stands for. -/
def ofText (p : α → α → Bool) : List α → Regexp α
  | [] => .empty
  | c :: text => .concat (.set (p c)) (ofText p text)

theorem leads_ofText {p : α → α → Bool} {text : List α} : (ofText p text).Leads s t ↔
    ∃ mid, s.rest = mid ++ t.rest ∧ t.prev = mid.getLast?.or s.prev ∧
      List.Forall₂ (fun c d => p c d = true) text mid := by
  induction text generalizing s with
  | nil =>
    constructor
    · intro h
      cases h
      exact ⟨[], rfl, rfl, .nil⟩
    · rintro ⟨mid, hrest, hprev, hmid⟩
      cases hmid
      obtain ⟨prev, rest⟩ := s
      obtain ⟨prev', rest'⟩ := t
      obtain rfl : rest = rest' := hrest
      obtain rfl : prev' = prev := hprev
      exact .empty _
  | cons c text ih =>
    constructor
    · intro h
      cases h with
      | concat hc hrest =>
        cases hc with
        | @set _ prev d rest hcd =>
          obtain ⟨mid, hmid, hprev, hall⟩ := ih.mp hrest
          have hrest : rest = mid ++ t.rest := hmid
          refine ⟨d :: mid, by rw [hrest]; rfl, ?_, .cons hcd hall⟩
          rw [hprev, List.getLast?_cons]
          cases mid.getLast? <;> rfl
    · rintro ⟨mid, hrest, hprev, hmid⟩
      cases hmid with
      | @cons _ d _ mid hcd hmid =>
        obtain ⟨prev, rest⟩ := s
        obtain rfl : rest = d :: (mid ++ t.rest) := hrest
        refine .concat (.set hcd) (ih.mpr ⟨mid, rfl, ?_, hmid⟩)
        rw [hprev, List.getLast?_cons]
        cases mid.getLast? <;> rfl

/-- **Such an expression matches** what its characters stand for, wherever it is. -/
theorem matches_ofText {p : α → α → Bool} {text pre mid post : List α} :
    (ofText p text).Matches pre mid post ↔ List.Forall₂ (fun c d => p c d = true) text mid := by
  rw [Matches, leads_ofText]
  constructor
  · rintro ⟨mid', hrest, -, h⟩
    obtain rfl : mid = mid' := List.append_cancel_right hrest
    exact h
  · exact fun h => ⟨mid, rfl, List.getLast?_append, h⟩

/-! ## All of the text -/

/-- The expression between the start and the end of the text. -/
def pinned (a : Regexp α) : Regexp α :=
  .concat (.look fun prev _ => prev.isNone) (.concat a (.look fun _ next => next.isNone))

/-- **A pinned expression matches nothing but whole texts.** -/
theorem matches_pinned {pre mid post : List α} :
    (pinned a).Matches pre mid post ↔ pre = [] ∧ post = [] ∧ a.Covers mid := by
  constructor
  · intro h
    cases h with
    | concat hstart h =>
      cases hstart with
      | look hstart =>
        cases h with
        | concat ha hend =>
          cases hend with
          | look hend =>
            obtain rfl : pre = [] := List.getLast?_eq_none_iff.mp (Option.isNone_iff_eq_none.mp hstart)
            obtain rfl : post = [] := List.head?_eq_none_iff.mp (Option.isNone_iff_eq_none.mp hend)
            exact ⟨rfl, rfl, ha⟩
  · rintro ⟨rfl, rfl, h⟩
    exact .concat (.look rfl) (.concat h (.look rfl))

end Regexp

end Screego.Lib
