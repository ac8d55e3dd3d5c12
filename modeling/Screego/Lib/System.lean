import Mathlib.Data.List.Induction
import Mathlib.Data.List.Infix
import Mathlib.Tactic.Basic

/-!
# Machines that may crash, or wait

A machine reads inputs one by one; a step without a result is a crash, or one that is not possible.

* `Machine.run`: the state after a list of inputs;
* `Machine.Always P`: every run goes through and ends in a state satisfying `P`. Prefixes of a run
  are runs, so `P` then holds in every state a run passes through;
* **`Machine.always_of_step`**: an invariant that every step keeps, and under which no step crashes.
* `Machine.Safe P`: `P` holds in every state a run reaches, where a step without a result is one that
  cannot be taken; **`Machine.safe_of_step`**;
* `Machine.Always.later`: what holds between the states of one step holds between any two states of
  a run;
* `Machine.Stretch C is js`: the property `C` holds from the state after `is` to the state after
  `is ++ js`; **`Machine.Always.stretch`** is the induction rule for such a part of a run;
* `Machine.Began B C is`: after `is`, `C` holds since a step that satisfied `B`;
  **`Machine.Always.began`**; `Machine.Took B is`: such a step;
* `Machine.Meets C`: a run whose every step satisfies the condition `C` on the state before it and
  the input; **`Machine.meets_iff`** and `Machine.meets_and_throughout_iff` relate such runs to
  properties of all states passed through.
-/

namespace Screego.Lib

/-- **A machine.** -/
structure Machine (S I : Type) where
  init : S
  step : S → I → Option S

namespace Machine

variable {S I : Type} (M : Machine S I)

/-- The state after the inputs `is`, `none` after a crash. -/
def run (is : List I) : Option S := is.foldlM M.step M.init

@[simp] theorem run_nil : M.run [] = some M.init := rfl

theorem run_concat (is : List I) (i : I) :
    M.run (is ++ [i]) = (M.run is).bind fun s => M.step s i := by
  rw [run, List.foldlM_append]
  simp [run]

/-- **Every run goes through and ends in a state satisfying `P`.** -/
def Always (P : S → Prop) : Prop := ∀ is, ∃ s, M.run is = some s ∧ P s

variable {M} {P P' : S → Prop}

theorem Always.mono (h : M.Always P) (hP : ∀ s, P s → P' s) : M.Always P' := fun is => by
  obtain ⟨s, hs, hPs⟩ := h is
  exact ⟨s, hs, hP s hPs⟩

theorem Always.of_run (h : M.Always P) {is : List I} {s : S} (hs : M.run is = some s) : P s := by
  obtain ⟨s', hs', hP⟩ := h is
  rw [hs] at hs'
  exact (Option.some.inj hs') ▸ hP

/-- **Invariants.** -/
theorem always_of_step (h0 : P M.init) (hstep : ∀ s i, P s → ∃ s', M.step s i = some s' ∧ P s') :
    M.Always P := by
  intro is
  induction is using List.reverseRecOn with
  | nil => exact ⟨M.init, rfl, h0⟩
  | append_singleton is i ih =>
    obtain ⟨s, hs, hP⟩ := ih
    obtain ⟨s', hs', hP'⟩ := hstep s i hP
    exact ⟨s', by rw [run_concat, hs, Option.bind_some, hs'], hP'⟩

/-- **Invariants relative to one already established.** -/
theorem Always.and_of_step (h : M.Always P) (h0 : P' M.init)
    (hstep : ∀ s i s', P s → P' s → M.step s i = some s' → P s' → P' s') :
    M.Always fun s => P s ∧ P' s := by
  intro is
  induction is using List.reverseRecOn with
  | nil => exact ⟨M.init, rfl, h.of_run M.run_nil, h0⟩
  | append_singleton is i ih =>
    obtain ⟨s, hs, hP, hP'⟩ := ih
    obtain ⟨s', hs', hPs'⟩ := h (is ++ [i])
    refine ⟨s', hs', hPs', hstep s i s' hP hP' ?_ hPs'⟩
    rw [run_concat, hs, Option.bind_some] at hs'
    exact hs'

variable (M) in
/-- **`P` holds in every state that a run reaches.** -/
def Safe (P : S → Prop) : Prop := ∀ is s, M.run is = some s → P s

theorem Safe.mono (h : M.Safe P) (hP : ∀ s, P s → P' s) : M.Safe P' := fun is s hs =>
  hP s (h is s hs)

/-- **Invariants of the steps that can be taken.** -/
theorem safe_of_step (h0 : P M.init) (hstep : ∀ s i s', P s → M.step s i = some s' → P s') :
    M.Safe P := by
  intro is
  induction is using List.reverseRecOn with
  | nil =>
    intro s hs
    cases hs
    exact h0
  | append_singleton is i ih =>
    intro s' hs'
    rw [run_concat] at hs'
    obtain ⟨s, hs, hst⟩ := Option.bind_eq_some_iff.mp hs'
    exact hstep s i s' (ih s hs) hst

/-- **Two states of one run** are related by every reflexive and transitive relation that holds
between the states of one step. -/
theorem Always.later (h : M.Always P) (Rel : S → S → Prop) (hrefl : ∀ s, Rel s s)
    (htrans : ∀ s t u, Rel s t → Rel t u → Rel s u)
    (hstep : ∀ s i s', P s → M.step s i = some s' → Rel s s') (is js : List I) :
    ∃ s s', M.run is = some s ∧ M.run (is ++ js) = some s' ∧ P s ∧ P s' ∧ Rel s s' := by
  induction js using List.reverseRecOn with
  | nil =>
    obtain ⟨s, hs, hP⟩ := h is
    exact ⟨s, s, hs, by rw [List.append_nil, hs], hP, hP, hrefl s⟩
  | append_singleton js j ih =>
    obtain ⟨s, t, hs, ht, hP, hPt, hrel⟩ := ih
    obtain ⟨u, hu, hPu⟩ := h (is ++ (js ++ [j]))
    refine ⟨s, u, hs, hu, hP, hPu, htrans s t u hrel (hstep t j u hPt ?_)⟩
    rw [← List.append_assoc, run_concat, ht, Option.bind_some] at hu
    exact hu

/-! ## Stretches -/

variable (M) in
/-- **A stretch of a run**: `C` holds in every state from the one after `is` to the one after
`is ++ js`. -/
def Stretch (C : S → Prop) (is js : List I) : Prop :=
  ∀ pre post s, js = pre ++ post → M.run (is ++ pre) = some s → C s

/-- A stretch is a matter of finitely many states. -/
theorem stretch_of_inits {C : S → Prop} {is js : List I}
    (h : ∀ pre ∈ js.inits, ∀ s ∈ M.run (is ++ pre), C s) : M.Stretch C is js :=
  fun pre post s e hs => h pre ((List.mem_inits _ _).mpr ⟨post, e.symm⟩) s (Option.mem_def.mpr hs)

/-- **What a stretch keeps**: steps between states that satisfy `C` keep `Q`. -/
theorem Always.stretch (h : M.Always P) {C Q : S → Prop} {is js : List I}
    (hC : M.Stretch C is js) (h0 : ∀ s, M.run is = some s → Q s)
    (hstep : ∀ s i s', P s → C s → Q s → M.step s i = some s' → C s' → Q s') :
    M.Stretch Q is js := by
  intro pre
  induction pre using List.reverseRecOn with
  | nil =>
    intro post s _ hs
    rw [List.append_nil] at hs
    exact h0 s hs
  | append_singleton pre i ih =>
    intro post s' e hs'
    obtain ⟨s, hs, hP⟩ := h (is ++ pre)
    have hpost : js = pre ++ i :: post := by rw [e, List.append_assoc, List.singleton_append]
    have hst : M.step s i = some s' := by
      rwa [← List.append_assoc, run_concat, hs, Option.bind_some] at hs'
    exact hstep s i s' hP (hC pre _ s hpost hs) (ih _ s hpost hs) hst (hC _ post s' e hs')

theorem Stretch.concat {C : S → Prop} {is js : List I} {i : I} (h : M.Stretch C is js)
    (hi : ∀ s, M.run (is ++ (js ++ [i])) = some s → C s) : M.Stretch C is (js ++ [i]) := by
  intro pre post s e hs
  rcases List.eq_nil_or_concat post with rfl | ⟨post, k, rfl⟩
  · rw [List.append_nil] at e
    exact hi s (e ▸ hs)
  · rw [List.concat_eq_append, ← List.append_assoc] at e
    exact h pre post s (List.append_inj_left' e rfl) hs

/-! ## Origins -/

variable (M) in
/-- **An origin**: after `is`, `C` holds since a step that satisfied `B`. -/
def Began (B : S → I → Prop) (C : S → Prop) (is : List I) : Prop :=
  ∃ pre i post s, is = pre ++ i :: post ∧ M.run pre = some s ∧ B s i ∧
    M.Stretch C (pre ++ [i]) post

/-- **What holds has an origin**, if every step to where it holds kept it or satisfied `B`. -/
theorem Always.began (h : M.Always P) {B : S → I → Prop} {C : S → Prop} (h0 : ¬ C M.init)
    (hstep : ∀ s i s', P s → M.step s i = some s' → C s' → C s ∨ B s i) {is : List I} {s : S}
    (hs : M.run is = some s) (hC : C s) : M.Began B C is := by
  induction is using List.reverseRecOn generalizing s with
  | nil =>
    cases hs
    exact absurd hC h0
  | append_singleton is i ih =>
    obtain ⟨s₀, hs₀, hP⟩ := h is
    have hst : M.step s₀ i = some s := by rwa [run_concat, hs₀, Option.bind_some] at hs
    rcases hstep s₀ i s hP hst hC with hC₀ | hB
    · obtain ⟨pre, j, post, s₁, rfl, hs₁, hB, hstretch⟩ := ih hs₀ hC₀
      refine ⟨pre, j, post ++ [i], s₁, by simp, hs₁, hB, hstretch.concat fun s' hs' => ?_⟩
      have heq : pre ++ [j] ++ (post ++ [i]) = pre ++ j :: post ++ [i] := by simp
      rw [heq, hs] at hs'
      exact Option.some.inj hs' ▸ hC
    · refine ⟨is, i, [], s₀, rfl, hs₀, hB, fun pre post s' e hs' => ?_⟩
      obtain ⟨rfl, -⟩ := List.append_eq_nil_iff.mp e.symm
      rw [List.append_nil, hs] at hs'
      exact Option.some.inj hs' ▸ hC

variable (M) in
/-- A step of the run satisfied `B`. -/
def Took (B : S → I → Prop) (is : List I) : Prop :=
  ∃ pre i post s, is = pre ++ i :: post ∧ M.run pre = some s ∧ B s i

theorem Always.took (h : M.Always P) {B : S → I → Prop} {C : S → Prop} (h0 : ¬ C M.init)
    (hstep : ∀ s i s', P s → M.step s i = some s' → C s' → C s ∨ B s i) {is : List I} {s : S}
    (hs : M.run is = some s) (hC : C s) : M.Took B is := by
  obtain ⟨pre, i, post, s₀, his, hs₀, hB, -⟩ := h.began h0 hstep hs hC
  exact ⟨pre, i, post, s₀, his, hs₀, hB⟩

theorem Took.mono {B B' : S → I → Prop} {is : List I} (h : M.Took B is) (hP : M.Always P)
    (hB : ∀ s i, P s → B s i → B' s i) : M.Took B' is := by
  obtain ⟨pre, i, post, s, his, hs, hBs⟩ := h
  exact ⟨pre, i, post, s, his, hs, hB s i (hP.of_run hs) hBs⟩

/-! ## Runs whose steps meet a condition -/

variable (M)

/-- Every step of the run meets the condition `C`. -/
def Meets (C : S → I → Prop) (is : List I) : Prop :=
  ∀ pre i post s, is = pre ++ i :: post → M.run pre = some s → C s i

/-- `P` holds in every state the run passes through. -/
def Throughout (P : S → Prop) (is : List I) : Prop :=
  ∀ pre post s, is = pre ++ post → M.run pre = some s → P s

variable {M} {C : S → I → Prop}

theorem throughout_concat {is : List I} {i : I} :
    M.Throughout P (is ++ [i]) ↔ M.Throughout P is ∧ ∀ s, M.run (is ++ [i]) = some s → P s := by
  constructor
  · intro h
    exact ⟨fun pre post s e => h pre (post ++ [i]) s (by simp [e]), fun s => h _ [] s (by simp)⟩
  · rintro ⟨h, hi⟩ pre post s e hs
    rcases List.eq_nil_or_concat post with rfl | ⟨post, j, rfl⟩
    · rw [List.append_nil] at e
      exact hi s (e ▸ hs)
    · rw [List.concat_eq_append, ← List.append_assoc] at e
      exact h pre post s (List.append_inj_left' e rfl) hs

theorem meets_concat {is : List I} {i : I} :
    M.Meets C (is ++ [i]) ↔ M.Meets C is ∧ ∀ s, M.run is = some s → C s i := by
  constructor
  · intro h
    exact ⟨fun pre j post s e => h pre j (post ++ [i]) s (by simp [e]), fun s => h is i [] s rfl⟩
  · rintro ⟨h, hi⟩ pre j post s e hs
    rcases List.eq_nil_or_concat post with rfl | ⟨post, k, rfl⟩
    · obtain ⟨rfl, e'⟩ := List.append_inj' e rfl
      obtain rfl := List.singleton_inj.mp e'
      exact hi s hs
    · rw [List.concat_eq_append, ← List.cons_append, ← List.append_assoc] at e
      exact h pre j post s (List.append_inj_left' e rfl) hs

/-- **A step condition exactly right for `P` and `U`**: in a state satisfying `P`, the step meets `U` and
keeps `P` if and only if it meets `C`. Then the runs that meet `C` are those that meet `U` and satisfy `P`
throughout. -/
theorem meets_and_throughout_iff {U : S → I → Prop} (hP : M.Always P') (h0 : P M.init)
    (hstep : ∀ s i s', P' s → P s → M.step s i = some s' → (U s i ∧ P s' ↔ C s i)) (is : List I) :
    M.Meets U is ∧ M.Throughout P is ↔ M.Meets C is := by
  induction is using List.reverseRecOn with
  | nil =>
    refine iff_of_true ⟨fun pre i post s e => by simp at e, fun pre post s e hs => ?_⟩
      fun pre i post s e => by simp at e
    obtain ⟨rfl, -⟩ := List.append_eq_nil_iff.mp e.symm
    cases hs
    exact h0
  | append_singleton is i ih =>
    rw [throughout_concat, meets_concat, meets_concat, and_and_and_comm, ih]
    refine and_congr_right fun hm => ?_
    obtain ⟨s, hs, hP's⟩ := hP is
    obtain ⟨s', hs', -⟩ := hP (is ++ [i])
    have hPs : P s := (ih.mpr hm).2 is [] s (by simp) hs
    have hst : M.step s i = some s' := by rwa [run_concat, hs, Option.bind_some] at hs'
    have key := hstep s i s' hP's hPs hst
    constructor
    · rintro ⟨hU, h⟩ t ht
      rw [hs] at ht
      cases ht
      exact key.mp ⟨hU s hs, h s' hs'⟩
    · intro h
      obtain ⟨hU, hPs'⟩ := key.mpr (h s hs)
      refine ⟨fun t ht => ?_, fun t ht => ?_⟩
      · rw [hs] at ht
        cases ht
        exact hU
      · rw [hs'] at ht
        cases ht
        exact hPs'

/-- **A step condition exactly right for `P`**: in a state satisfying `P`, the step keeps `P` if and
only if it meets `C`. Then the runs that meet `C` are those that satisfy `P` throughout. -/
theorem meets_iff (hP : M.Always P') (h0 : P M.init)
    (hstep : ∀ s i s', P' s → P s → M.step s i = some s' → (P s' ↔ C s i)) (is : List I) :
    M.Throughout P is ↔ M.Meets C is := by
  have hU : M.Meets (fun _ _ => True) is := fun _ _ _ _ _ _ => trivial
  rw [← meets_and_throughout_iff hP h0 (fun s i s' h' h hs =>
    (and_iff_right trivial).trans (hstep s i s' h' h hs)) is]
  exact (and_iff_right hU).symm

end Machine

end Screego.Lib
