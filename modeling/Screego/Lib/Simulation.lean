import Screego.Lib.System

/-!
# Simulations between machines

One machine simulates another one through a relation of their states and a reading of every input of one
as inputs of the other; or it runs inside another one, as a part of its state.

* `Machine.labels`: the inputs of a run, read one by one in the states they meet;
* `Machine.Simulates`: a relation that every step keeps; **`Machine.Simulates.run`**: every run has a
  counterpart, and their ends are related;
* `Machine.Component`: a machine that runs inside another one; **`Machine.Component.safe`**;
* `Machine.Safe.of_meets`, `Machine.Began.of_meets`: invariants and origins, in the runs whose every step
  meets a condition.
-/

set_option autoImplicit false

namespace Screego.Lib.Machine

variable {S I T J : Type}

/-- The state after the inputs `is`, from the state `s` on. -/
def runFrom (M : Machine S I) (s : S) (is : List I) : Option S := is.foldlM M.step s

variable {M : Machine S I} {N : Machine T J} {P : S → Prop} {R : S → T → Prop} {label : S → I → List J}
  {is : List I} {s : S}

theorem runFrom_append (s : S) (is js : List I) :
    M.runFrom s (is ++ js) = (M.runFrom s is).bind fun s' => M.runFrom s' js := List.foldlM_append

theorem runFrom_cons (s : S) (i : I) (is : List I) :
    M.runFrom s (i :: is) = (M.step s i).bind fun s' => M.runFrom s' is := rfl

@[simp] theorem runFrom_singleton (s : S) (i : I) : M.runFrom s [i] = M.step s i := by
  simp [runFrom]

variable (M label) in
/-- **The inputs of a run**, read as inputs of another machine. -/
def labels : S → List I → List J
  | _, [] => []
  | s, i :: is => label s i ++ match M.step s i with
    | some s' => labels s' is
    | none => []

theorem labels_concat (s : S) (is : List I) (i : I) {s' : S} (hs : M.runFrom s is = some s') :
    M.labels label s (is ++ [i]) = M.labels label s is ++ label s' i := by
  induction is generalizing s with
  | nil =>
    obtain rfl : s = s' := Option.some.inj hs
    rw [List.nil_append, labels, labels, List.nil_append]
    cases M.step s i <;> exact List.append_nil _
  | cons j is ih =>
    rw [runFrom_cons] at hs
    obtain ⟨s₁, hs₁, hs⟩ := Option.bind_eq_some_iff.mp hs
    rw [List.cons_append, labels, labels, hs₁, List.append_assoc]
    exact congrArg (label s j ++ ·) (ih s₁ hs)

/-! ## Simulations -/

/-- **The machine `N` simulates `M`** through `R`, in the states that satisfy `P`. -/
structure Simulates (N : Machine T J) (M : Machine S I) (P : S → Prop) (R : S → T → Prop)
    (label : S → I → List J) : Prop where
  init : R M.init N.init
  step : ∀ s i s' t, P s → R s t → M.step s i = some s' → P s' →
    ∃ t', N.runFrom t (label s i) = some t' ∧ R s' t'

/-- **Every run has a counterpart.** -/
theorem Simulates.run (h : N.Simulates M P R label) (hP : M.Safe P) (hs : M.run is = some s) :
    ∃ t, N.run (M.labels label M.init is) = some t ∧ R s t := by
  induction is using List.reverseRecOn generalizing s with
  | nil =>
    obtain rfl := Option.some.inj hs
    exact ⟨N.init, rfl, h.init⟩
  | append_singleton is i ih =>
    have hs' := hs
    rw [run_concat] at hs'
    obtain ⟨s₀, hs₀, hst⟩ := Option.bind_eq_some_iff.mp hs'
    obtain ⟨t, ht, hR⟩ := ih hs₀
    obtain ⟨t', ht', hR'⟩ := h.step s₀ i s t (hP is s₀ hs₀) hR hst (hP _ s hs)
    refine ⟨t', ?_, hR'⟩
    have hrun : N.runFrom N.init (M.labels label M.init is) = some t := ht
    rw [labels_concat M.init is i hs₀]
    exact (runFrom_append _ _ _).trans (by rw [hrun, Option.bind_some, ht'])

/-- **The machine `N` runs inside `M`**: it simulates it through the part of the state that is `N`'s. -/
def Component (N : Machine T J) (M : Machine S I) (part : S → T) (label : S → I → List J) : Prop :=
  N.Simulates M (fun _ => True) (fun s t => part s = t) label

/-- Every run of the whole is one of the component. -/
theorem Component.run {part : S → T} (h : N.Component M part label) (hs : M.run is = some s) :
    N.run (M.labels label M.init is) = some (part s) := by
  obtain ⟨t, ht, rfl⟩ := Simulates.run h (fun _ _ _ => trivial) hs
  exact ht

/-- **What always holds of the component** holds of it in the whole. -/
theorem Component.safe {part : S → T} (h : N.Component M part label) {Q : T → Prop} (hQ : N.Always Q) :
    M.Safe fun s => Q (part s) := fun _ _ hs => hQ.of_run (h.run hs)

/-- What holds in every run of the component holds of it in the whole. -/
theorem Component.transfer {part : S → T} (h : N.Component M part label) {Q : T → Prop} (hQ : N.Safe Q) :
    M.Safe fun s => Q (part s) := fun _ s hs => hQ _ (part s) (h.run hs)

/-! ## Runs that meet a condition -/

/-- **Invariants of the runs that meet a condition.** -/
theorem Safe.of_meets {C : S → I → Prop} {Q : S → Prop} (hP : M.Safe P) (h0 : Q M.init)
    (hstep : ∀ s i s', P s → Q s → C s i → M.step s i = some s' → Q s') (hC : M.Meets C is)
    (hs : M.run is = some s) : Q s := by
  induction is using List.reverseRecOn generalizing s with
  | nil =>
    obtain rfl := Option.some.inj hs
    exact h0
  | append_singleton is i ih =>
    obtain ⟨hC, hi⟩ := meets_concat.mp hC
    rw [run_concat] at hs
    obtain ⟨s₀, hs₀, hst⟩ := Option.bind_eq_some_iff.mp hs
    exact hstep s₀ i s (hP is s₀ hs₀) (ih hC hs₀) (hi s₀ hs₀) hst

/-- Invariants of the steps that can be taken, on top of one that is known. -/
theorem Safe.and_of_step {Q : S → Prop} (hP : M.Safe P) (h0 : Q M.init)
    (hstep : ∀ s i s', P s → Q s → M.step s i = some s' → Q s') : M.Safe fun s => P s ∧ Q s :=
  fun is s hs => ⟨hP is s hs, hP.of_meets h0 (fun s i s' h hQ _ => hstep s i s' h hQ)
    (fun _ _ _ _ _ _ => trivial : M.Meets (fun _ _ => True) is) hs⟩

/-- **What holds has an origin**, in the runs that meet a condition. -/
theorem Began.of_meets {B C : S → I → Prop} {D Q : S → Prop}
    (hQ : ∀ is s, M.Meets C is → M.run is = some s → Q s) (h0 : ¬ D M.init)
    (hstep : ∀ s i s', Q s → M.step s i = some s' → D s' → D s ∨ B s i) (hC : M.Meets C is)
    (hs : M.run is = some s) (hD : D s) : M.Began B D is := by
  induction is using List.reverseRecOn generalizing s with
  | nil =>
    obtain rfl := Option.some.inj hs
    exact absurd hD h0
  | append_singleton is i ih =>
    obtain ⟨hC, -⟩ := meets_concat.mp hC
    have hrun := hs
    rw [run_concat] at hrun
    obtain ⟨s₀, hs₀, hst⟩ := Option.bind_eq_some_iff.mp hrun
    rcases hstep s₀ i s (hQ is s₀ hC hs₀) hst hD with hD₀ | hB
    · obtain ⟨pre, j, post, s₁, rfl, hs₁, hB, hstretch⟩ := ih hC hs₀ hD₀
      refine ⟨pre, j, post ++ [i], s₁, by simp, hs₁, hB, hstretch.concat fun s' hs' => ?_⟩
      have heq : pre ++ [j] ++ (post ++ [i]) = pre ++ j :: post ++ [i] := by simp
      rw [heq, hs] at hs'
      exact Option.some.inj hs' ▸ hD
    · refine ⟨is, i, [], s₀, rfl, hs₀, hB, fun pre post s' e hs' => ?_⟩
      obtain ⟨rfl, -⟩ := List.append_eq_nil_iff.mp e.symm
      rw [List.append_nil, hs] at hs'
      exact Option.some.inj hs' ▸ hD

end Screego.Lib.Machine
