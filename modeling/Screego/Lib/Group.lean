import Mathlib.Algebra.GroupWithZero.Nat
import Mathlib.Algebra.BigOperators.Group.List.Lemmas
import Mathlib.Data.List.Dedup
import Mathlib.Data.List.Basic
import Mathlib.Data.List.Nodup

/-!
# Grouping a list by a key

A loop over a list that keeps one entry for every key, in the order in which the keys come up.

* `firsts`: the first element with every key (`nodup_firsts`, `exists_firsts`);
* **`firsts_first`**: in a sorted list it is the least one with its key;
* `firsts_concat`: what the loop does with one more element;
* `modify_map_of_nodup`: what it does with the entry of a key it has seen;
* `sum_countP_firsts`: the sizes of the groups add up.
-/

set_option autoImplicit false

namespace Screego.Lib

variable {α κ : Type} [DecidableEq κ] (key : α → κ)

/-- The first element with every key. -/
def firsts : List α → List α
  | [] => []
  | a :: l => a :: (firsts l).filter fun b => key b ≠ key a

theorem firsts_sublist (l : List α) : (firsts key l).Sublist l := by
  induction l with
  | nil => exact List.Sublist.refl _
  | cons a l ih => exact (List.filter_sublist.trans ih).cons_cons a

theorem nodup_firsts (l : List α) : ((firsts key l).map key).Nodup := by
  induction l with
  | nil => exact List.nodup_nil
  | cons a l ih =>
    rw [firsts, List.map_cons, List.nodup_cons]
    refine ⟨fun hmem => ?_, ih.sublist (List.filter_sublist.map key)⟩
    obtain ⟨b, hb, hkey⟩ := List.mem_map.mp hmem
    simp [hkey] at hb

/-- Every key comes up. -/
theorem exists_firsts {l : List α} {a : α} (ha : a ∈ l) : ∃ b ∈ firsts key l, key b = key a := by
  induction l with
  | nil => exact absurd ha List.not_mem_nil
  | cons c l ih =>
    by_cases hc : key c = key a
    · exact ⟨c, List.mem_cons_self, hc⟩
    · obtain ⟨b, hb, hkey⟩ := ih ((List.mem_cons.mp ha).resolve_left fun e => hc (e ▸ rfl))
      refine ⟨b, List.mem_cons_of_mem _ (List.mem_filter.mpr ⟨hb, ?_⟩), hkey⟩
      simpa [hkey] using Ne.symm hc

/-- **The first element is the least one with its key**, in a sorted list. -/
theorem firsts_first {r : α → α → Prop} (hr : ∀ a, r a a) {l : List α} (hl : l.Pairwise r) {a b : α}
    (ha : a ∈ l) (hb : b ∈ firsts key l) (hkey : key b = key a) : r b a := by
  induction l with
  | nil => exact absurd ha List.not_mem_nil
  | cons c l ih =>
    obtain ⟨hc, hl⟩ := List.pairwise_cons.mp hl
    rcases List.mem_cons.mp hb with rfl | hb
    · rcases List.mem_cons.mp ha with rfl | ha
      · exact hr _
      · exact hc a ha
    · obtain ⟨hb, hne⟩ := List.mem_filter.mp hb
      rcases List.mem_cons.mp ha with rfl | ha
      · exact absurd hkey (by simpa using hne)
      · exact ih hl ha hb

/-- **One more element** makes a new group if its key is new. -/
theorem firsts_concat (l : List α) (a : α) :
    firsts key (l ++ [a]) = if ∃ b ∈ l, key b = key a then firsts key l else firsts key l ++ [a] := by
  induction l with
  | nil => simp [firsts]
  | cons c l ih =>
    rw [List.cons_append, firsts, ih]
    by_cases hl : ∃ b ∈ l, key b = key a
    · obtain ⟨b, hb, hkey⟩ := hl
      rw [if_pos ⟨b, hb, hkey⟩, if_pos ⟨b, List.mem_cons_of_mem _ hb, hkey⟩, firsts]
    · by_cases hc : key c = key a
      · rw [if_neg hl, if_pos ⟨c, List.mem_cons_self, hc⟩, firsts, List.filter_append]
        simp [hc]
      · have hnone : ¬ ∃ b ∈ c :: l, key b = key a := by
          rintro ⟨b, hb, hkey⟩
          rcases List.mem_cons.mp hb with rfl | hb
          · exact hc hkey
          · exact hl ⟨b, hb, hkey⟩
        rw [if_neg hl, if_neg hnone, firsts, List.filter_append]
        simp [Ne.symm hc]

theorem firsts_concat_new {l : List α} {a : α} (h : ∀ b ∈ l, key b ≠ key a) :
    firsts key (l ++ [a]) = firsts key l ++ [a] := by
  rw [firsts_concat, if_neg]
  rintro ⟨b, hb, hkey⟩
  exact h b hb hkey

theorem firsts_concat_of_mem {l : List α} {a : α} (h : key a ∈ l.map key) :
    firsts key (l ++ [a]) = firsts key l := by
  obtain ⟨b, hb, hkey⟩ := List.mem_map.mp h
  rw [firsts_concat, if_pos ⟨b, hb, hkey⟩]

theorem mem_keys_firsts {l : List α} {k : κ} : k ∈ (firsts key l).map key ↔ k ∈ l.map key := by
  constructor
  · exact fun hk => ((firsts_sublist key l).map key).subset hk
  · intro hk
    obtain ⟨a, ha, rfl⟩ := List.mem_map.mp hk
    obtain ⟨b, hb, hkey⟩ := exists_firsts key ha
    exact List.mem_map.mpr ⟨b, hb, hkey⟩

omit [DecidableEq κ] in
/-- **Changing the entry of a key**: where the keys are distinct, the others stay. -/
theorem modify_map_of_nodup {β : Type} {l : List α} (hl : (l.map key).Nodup) {k : κ} {i : ℕ}
    (hi : (l.map key)[i]? = some k) {f g : α → β} {change : β → β}
    (heq : ∀ b, key b = k → g b = change (f b)) (hne : ∀ b, key b ≠ k → g b = f b) :
    (l.map f).modify i change = l.map g := by
  refine List.ext_getElem? fun j => ?_
  rw [List.getElem?_modify, List.getElem?_map, List.getElem?_map]
  cases hb : l[j]? with
  | none => rfl
  | some b =>
    have hkey : (l.map key)[j]? = some (key b) := by rw [List.getElem?_map, hb]; rfl
    simp only [Option.map_some, Option.map_eq_map, Option.some.injEq]
    by_cases hj : i = j
    · subst hj
      rw [if_pos rfl, heq b (Option.some.inj (hkey.symm.trans hi))]
    · rw [if_neg hj, hne b]
      intro e
      obtain ⟨hlt, -⟩ := List.getElem?_eq_some_iff.mp hi
      exact hj ((List.getElem?_inj hlt hl).mp (by rw [hi, hkey, e]))

/-- Where a key stands after a new one was added at the end. -/
theorem getElem?_concat_eq_some {l : List κ} {a : κ} (ha : a ∉ l) (k : κ) (i : ℕ) :
    (l ++ [a])[i]? = some k ↔ if k = a then l.length = i else l[i]? = some k := by
  split_ifs with hk
  · subst hk
    constructor
    · intro hi
      by_contra hne
      rcases Nat.lt_or_gt_of_ne hne with hlt | hgt
      · rw [List.getElem?_eq_none (by rw [List.length_append, List.length_singleton]; omega)] at hi
        cases hi
      · rw [List.getElem?_append_left hgt] at hi
        exact ha (List.mem_of_getElem? hi)
    · rintro rfl
      exact List.getElem?_concat_length
  · by_cases hi : i < l.length
    · rw [List.getElem?_append_left hi]
    · rw [List.getElem?_append_right (by omega), List.getElem?_eq_none (l := l) (by omega),
        List.getElem?_singleton]
      split_ifs
      · exact ⟨fun e => absurd (Option.some.inj e).symm hk, fun e => (by cases e)⟩
      · rfl

/-- **The groups make up the list.** -/
theorem sum_countP_firsts (l : List α) :
    ((firsts key l).map fun b => l.countP fun a => key a = key b).sum = l.length := by
  have hperm : ((firsts key l).map key).Perm (l.map key).dedup := by
    rw [List.perm_ext_iff_of_nodup (nodup_firsts key l) (List.nodup_dedup _)]
    exact fun k => by rw [mem_keys_firsts, List.mem_dedup]
  have hcount : ∀ b, (l.countP fun a => key a = key b) = (l.map key).count (key b) := by
    intro b
    rw [List.count, List.countP_map]
    refine List.countP_congr fun a _ => ?_
    rw [decide_eq_true_eq, Function.comp_apply, beq_iff_eq]
  have hlength : (l.map key).length = l.length := List.length_map key
  rw [← hlength, ← List.sum_map_count_dedup_eq_length, ← (hperm.map _).sum_eq, List.map_map]
  exact congrArg List.sum (List.map_congr_left fun b _ => hcount b)

end Screego.Lib
