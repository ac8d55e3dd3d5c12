import Mathlib.Data.List.Basic
import Mathlib.Tactic.Basic

/-!
# Past-time properties of finite histories

A history is a list of items, the oldest first.

* `Since Q P`: a `P`-item occurred and no `Q`-item occurred after it;
* `Guarded G`: at every item, `G` held of the history before it;
* `latest f`: the value of `f` at the last item where it has one.

Each has a rule for a history extended by a block of new items (`since_append`, `guarded_append`,
`latest_append`), the form in which a step of a machine changes its history.
-/

namespace Screego.Lib

variable {α β : Type}

/-! ## Since -/

/-- **Some item satisfied `P`, and no item after it satisfied `Q`.** -/
def Since (Q P : α → Prop) (h : List α) : Prop :=
  ∃ pre x post, h = pre ++ x :: post ∧ P x ∧ ∀ y ∈ post, ¬ Q y

variable {Q P : α → Prop}

@[simp] theorem not_since_nil : ¬ Since Q P [] := by
  rintro ⟨pre, x, post, h, _⟩
  simp at h

theorem Since.exists_mem {h : List α} (hs : Since Q P h) : ∃ x ∈ h, P x := by
  obtain ⟨pre, x, post, rfl, hx, _⟩ := hs
  exact ⟨x, by simp, hx⟩

/-- Without a `Q`-item, `Since` only asks for a `P`-item. -/
theorem since_of_forall_not {h : List α} (hQ : ∀ y ∈ h, ¬ Q y) (hP : ∃ x ∈ h, P x) :
    Since Q P h := by
  obtain ⟨x, hx, hPx⟩ := hP
  obtain ⟨pre, post, rfl⟩ := List.append_of_mem hx
  exact ⟨pre, x, post, rfl, hPx, fun y hy => hQ y (by simp [hy])⟩

/-- **New items**: either they contain the witness, or the old ones do and no new item is a `Q`. -/
theorem since_append {h l : List α} :
    Since Q P (h ++ l) ↔ Since Q P l ∨ (Since Q P h ∧ ∀ y ∈ l, ¬ Q y) := by
  constructor
  · rintro ⟨pre, x, post, e, hx, hpost⟩
    rcases List.append_eq_append_iff.mp e with ⟨a, rfl, rfl⟩ | ⟨b, rfl, hb⟩
    · exact Or.inl ⟨a, x, post, rfl, hx, hpost⟩
    · cases b with
      | nil => exact Or.inl ⟨[], x, post, by simpa using hb.symm, hx, hpost⟩
      | cons y b =>
        obtain ⟨rfl, rfl⟩ := List.cons.inj hb
        exact Or.inr ⟨⟨pre, x, b, rfl, hx, fun y hy => hpost y (by simp [hy])⟩,
          fun y hy => hpost y (by simp [hy])⟩
  · rintro (⟨pre, x, post, rfl, hx, hpost⟩ | ⟨⟨pre, x, post, rfl, hx, hpost⟩, hl⟩)
    · exact ⟨h ++ pre, x, post, by simp, hx, hpost⟩
    · refine ⟨pre, x, post ++ l, by simp, hx, fun y hy => ?_⟩
      rcases List.mem_append.mp hy with hy | hy
      · exact hpost y hy
      · exact hl y hy

/-! ## Guards -/

/-- **At every item of the history, `G` relates the items before it to the item.** -/
def Guarded (G : List α → α → Prop) (h : List α) : Prop :=
  ∀ pre x post, h = pre ++ x :: post → G pre x

variable {G : List α → α → Prop}

theorem guarded_nil : Guarded G [] := fun pre x post h => by simp at h

theorem guarded_append {h l : List α} (hh : Guarded G h)
    (hl : ∀ pre x post, l = pre ++ x :: post → G (h ++ pre) x) : Guarded G (h ++ l) := by
  intro pre x post e
  rcases List.append_eq_append_iff.mp e with ⟨a, rfl, rfl⟩ | ⟨b, rfl, hb⟩
  · exact hl a x post rfl
  · cases b with
    | nil =>
      rw [List.append_nil] at hh hl
      simpa using hl [] x post (by simpa using hb.symm)
    | cons y b =>
      obtain ⟨rfl, rfl⟩ := List.cons.inj hb
      exact hh pre x b rfl

/-- Guards that no new item can break need no look at the order of the new items. -/
theorem guarded_append_of_forall {h l : List α} (hh : Guarded G h)
    (hl : ∀ x ∈ l, ∀ pre, G pre x) : Guarded G (h ++ l) :=
  guarded_append hh fun pre x post e => hl x (by simp [e]) _

/-! ## The latest value -/

/-- The value of `f` at the last item where it is defined. -/
def latest (f : α → Option β) (h : List α) : Option β := (h.filterMap f).getLast?

theorem latest_append (f : α → Option β) (h l : List α) :
    latest f (h ++ l) = (latest f l).or (latest f h) := by
  rw [latest, List.filterMap_append, List.getLast?_append, latest, latest]

theorem latest_eq_none {f : α → Option β} {h : List α} :
    latest f h = none ↔ ∀ x ∈ h, f x = none := by
  rw [latest, List.getLast?_eq_none_iff, List.filterMap_eq_nil_iff]

end Screego.Lib
