import Mathlib.Algebra.BigOperators.Group.Finset.Basic
import Mathlib.Data.Finmap
import Mathlib.Data.Finset.Card
import Mathlib.Data.List.Sort

/-!
# Maps with an arbitrary iteration order

A Go map is a finite map that compares by content and that a `range` statement walks in an order
of the runtime's choosing.

* `GoMap`: Mathlib's finite maps, with lookups of updates by cases (`lookup_insert_ite`,
  `lookup_erase_ite`), the bulk updates `insertAll`, `eraseAll`, the length `len` and sums `total`
  over the values;
* `RangeOrder`: a choice of enumeration for every set of keys;
* `range`: the entries met by one `range` statement (`mem_range`, `nodup_range_keys`);
* `sortSlice`: a sorted permutation (`perm_sortSlice`, `pairwise_sortSlice`).
-/

namespace Screego.Lib

/-- A Go map. -/
abbrev GoMap (K V : Type) : Type := Finmap fun _ : K => V

namespace GoMap

variable {K V : Type} [DecidableEq K]

/-! ## Updates -/

theorem lookup_insert_ite (m : GoMap K V) (a k : K) (b : V) :
    Finmap.lookup k (m.insert a b) = if k = a then some b else m.lookup k := by
  split_ifs with h
  · rw [h, Finmap.lookup_insert]
  · exact Finmap.lookup_insert_of_ne m h

theorem lookup_erase_ite (m : GoMap K V) (a k : K) :
    Finmap.lookup k (m.erase a) = if k = a then none else m.lookup k := by
  split_ifs with h
  · rw [h, Finmap.lookup_erase]
  · exact Finmap.lookup_erase_ne h

theorem lookup_insert_eq_some {m : GoMap K V} {a k : K} {b v : V} :
    Finmap.lookup k (m.insert a b) = some v ↔ k = a ∧ b = v ∨ k ≠ a ∧ m.lookup k = some v := by
  rw [lookup_insert_ite]
  split_ifs with h <;> simp [h]

/-- Overwriting a value does not change the keys. -/
theorem mem_insert_of_mem {m : GoMap K V} {a : K} (h : a ∈ m) (b : V) (k : K) :
    k ∈ Finmap.insert a b m ↔ k ∈ m := by
  rw [Finmap.mem_insert]
  exact ⟨fun h' => h'.elim (fun e => e ▸ h) id, Or.inr⟩

theorem insert_self {m : GoMap K V} {a : K} {b : V} (h : m.lookup a = some b) :
    Finmap.insert a b m = m := by
  refine Finmap.ext_lookup fun k => ?_
  rw [lookup_insert_ite]
  split_ifs with hk
  · rw [hk, h]
  · rfl

/-- Deleting a key just added gives the old map back. -/
theorem erase_insert {m : GoMap K V} {a : K} (h : a ∉ m) (b : V) :
    Finmap.erase a (m.insert a b) = m := by
  refine Finmap.ext_lookup fun k => ?_
  rw [lookup_erase_ite, lookup_insert_ite]
  split_ifs with hk
  · rw [hk, Finmap.lookup_eq_none.mpr h]
  · rfl

/-- Deleting a key forgets the value last stored there. -/
theorem erase_insert_self (m : GoMap K V) (a : K) (b : V) :
    Finmap.erase a (m.insert a b) = m.erase a := by
  refine Finmap.ext_lookup fun k => ?_
  rw [lookup_erase_ite, lookup_insert_ite, lookup_erase_ite]
  split_ifs <;> rfl

/-- Delete every key of a list. -/
def eraseAll (m : GoMap K V) (ks : List K) : GoMap K V := ks.foldl (fun m k => m.erase k) m

@[simp] theorem eraseAll_nil (m : GoMap K V) : eraseAll m [] = m := rfl

@[simp] theorem eraseAll_cons (m : GoMap K V) (k : K) (ks : List K) :
    eraseAll m (k :: ks) = eraseAll (m.erase k) ks := rfl

theorem eraseAll_append (m : GoMap K V) (ks ls : List K) :
    eraseAll m (ks ++ ls) = eraseAll (eraseAll m ks) ls := List.foldl_append

theorem lookup_eraseAll (m : GoMap K V) (ks : List K) (k : K) :
    Finmap.lookup k (eraseAll m ks) = if k ∈ ks then none else m.lookup k := by
  induction ks generalizing m with
  | nil => simp
  | cons a ks ih =>
    rw [eraseAll_cons, ih, lookup_erase_ite]
    by_cases h : k = a <;> simp [h]

theorem mem_eraseAll {m : GoMap K V} {ks : List K} {k : K} :
    k ∈ eraseAll m ks ↔ k ∈ m ∧ k ∉ ks := by
  rw [← Finmap.lookup_isSome, ← Finmap.lookup_isSome, lookup_eraseAll]
  by_cases h : k ∈ ks <;> simp [h]

/-- Only the set of the keys matters. -/
theorem eraseAll_congr (m : GoMap K V) {ks ls : List K} (h : ∀ k, k ∈ ks ↔ k ∈ ls) :
    eraseAll m ks = eraseAll m ls := by
  refine Finmap.ext_lookup fun k => ?_
  rw [lookup_eraseAll, lookup_eraseAll]
  exact if_congr (h k) rfl rfl

/-- Store every entry of a list, later entries last. -/
def insertAll (m : GoMap K V) (es : List (K × V)) : GoMap K V :=
  es.foldl (fun m e => m.insert e.1 e.2) m

@[simp] theorem insertAll_nil (m : GoMap K V) : insertAll m [] = m := rfl

@[simp] theorem insertAll_cons (m : GoMap K V) (e : K × V) (es : List (K × V)) :
    insertAll m (e :: es) = insertAll (m.insert e.1 e.2) es := rfl

theorem mem_insertAll {m : GoMap K V} {es : List (K × V)} {k : K} :
    k ∈ insertAll m es ↔ k ∈ m ∨ ∃ e ∈ es, e.1 = k := by
  induction es generalizing m with
  | nil => simp
  | cons e es ih =>
    rw [insertAll_cons, ih, Finmap.mem_insert, List.exists_mem_cons_iff, or_comm (a := k = e.1),
      or_assoc, eq_comm]

/-- **Lookups after storing entries with new, distinct keys.** -/
theorem lookup_insertAll (m : GoMap K V) {es : List (K × V)} (hes : (es.map Prod.fst).Nodup)
    (hm : ∀ e ∈ es, e.1 ∉ m) (k : K) (v : V) :
    Finmap.lookup k (insertAll m es) = some v ↔ m.lookup k = some v ∨ (k, v) ∈ es := by
  induction es generalizing m with
  | nil => simp
  | cons e es ih =>
    obtain ⟨a, b⟩ := e
    rw [List.map_cons, List.nodup_cons] at hes
    have ha : a ∉ m := hm (a, b) List.mem_cons_self
    rw [insertAll_cons]
    have hm' : ∀ e ∈ es, e.1 ∉ m.insert a b := by
      intro e he h
      rcases Finmap.mem_insert.mp h with h | h
      · exact hes.1 (List.mem_map.mpr ⟨e, he, h⟩)
      · exact hm e (List.mem_cons_of_mem _ he) h
    rw [ih _ hes.2 hm', lookup_insert_ite, List.mem_cons, Prod.mk.injEq]
    by_cases hk : k = a
    · subst hk
      have : m.lookup k = none := Finmap.lookup_eq_none.mpr ha
      simp [this, eq_comm]
    · simp [hk]

/-! ## Length -/

/-- `len(m)`. -/
def len (m : GoMap K V) : ℕ := m.keys.card

omit [DecidableEq K] in
theorem len_eq_zero {m : GoMap K V} : len m = 0 ↔ ∀ k, k ∉ m := by
  rw [len, Finset.card_eq_zero, Finset.eq_empty_iff_forall_notMem]
  exact forall_congr' fun k => not_congr Finmap.mem_keys

theorem len_insert (m : GoMap K V) (a : K) (b : V) :
    len (m.insert a b) = len (m.erase a) + 1 := by
  have hkeys : Finmap.keys (m.insert a b) = insert a (m.erase a).keys := by
    ext k
    simp only [Finmap.mem_keys, Finset.mem_insert, Finmap.mem_insert, Finmap.mem_erase]
    tauto
  rw [len, hkeys, Finset.card_insert_of_notMem (by simp [Finmap.mem_keys]), len]

theorem erase_of_notMem {m : GoMap K V} {a : K} (h : a ∉ m) : Finmap.erase a m = m := by
  refine Finmap.ext_lookup fun k => ?_
  rw [lookup_erase_ite]
  split_ifs with hk
  · rw [hk, Finmap.lookup_eq_none.mpr h]
  · rfl

theorem len_insert_of_notMem {m : GoMap K V} {a : K} (h : a ∉ m) (b : V) :
    len (m.insert a b) = len m + 1 := by
  rw [len_insert, erase_of_notMem h]

theorem len_erase {m : GoMap K V} {a : K} (h : a ∈ m) : len (m.erase a) + 1 = len m := by
  obtain ⟨b, hb⟩ := Finmap.mem_iff.mp h
  have hlen := len_insert m a b
  rwa [insert_self hb, eq_comm] at hlen

theorem len_insert_of_mem {m : GoMap K V} {a : K} (h : a ∈ m) (b : V) :
    len (m.insert a b) = len m := by
  rw [len_insert, len_erase h]

theorem len_eraseAll {m : GoMap K V} {ks : List K} (hks : ks.Nodup) (hm : ∀ k ∈ ks, k ∈ m) :
    len (eraseAll m ks) + ks.length = len m := by
  induction ks generalizing m with
  | nil => rfl
  | cons k ks ih =>
    rw [List.nodup_cons] at hks
    have hlen := len_erase (hm k List.mem_cons_self)
    have hrest : ∀ l ∈ ks, l ∈ m.erase k := fun l hl =>
      Finmap.mem_erase.mpr ⟨fun e => hks.1 (e ▸ hl), hm l (List.mem_cons_of_mem _ hl)⟩
    rw [eraseAll_cons, List.length_cons, ← hlen, ← ih hks.2 hrest]
    omega

theorem len_insertAll {m : GoMap K V} {es : List (K × V)} (hes : (es.map Prod.fst).Nodup)
    (hm : ∀ e ∈ es, e.1 ∉ m) : len (insertAll m es) = len m + es.length := by
  induction es generalizing m with
  | nil => rfl
  | cons e es ih =>
    rw [List.map_cons, List.nodup_cons] at hes
    have hrest : ∀ e' ∈ es, e'.1 ∉ m.insert e.1 e.2 := by
      intro e' he' hmem
      rcases Finmap.mem_insert.mp hmem with heq | hmem
      · exact hes.1 (List.mem_map.mpr ⟨e', he', heq⟩)
      · exact hm e' (List.mem_cons_of_mem _ he') hmem
    rw [insertAll_cons, ih hes.2 hrest, len_insert_of_notMem (hm e List.mem_cons_self),
      List.length_cons]
    omega

/-! ## Totals -/

/-- **The sum of `f` over the values of a map.** -/
def total (f : V → ℕ) (m : GoMap K V) : ℕ := m.keys.sum fun k => (m.lookup k).elim 0 f

variable (f : V → ℕ)

/-- The part of one key. -/
theorem total_eq (m : GoMap K V) (a : K) :
    total f m = (m.lookup a).elim 0 f + total f (m.erase a) := by
  have hrest : total f (m.erase a) =
      (m.keys.erase a).sum fun k => (m.lookup k).elim 0 f := by
    rw [total, Finmap.keys_erase]
    refine Finset.sum_congr rfl fun k hk => ?_
    rw [Finmap.lookup_erase_ne (Finset.ne_of_mem_erase hk)]
  rw [hrest, total]
  by_cases ha : a ∈ m
  · exact (Finset.add_sum_erase _ _ (Finmap.mem_keys.mpr ha)).symm
  · rw [Finmap.lookup_eq_none.mpr ha, Finset.erase_eq_of_notMem (mt Finmap.mem_keys.mp ha)]
    exact (Nat.zero_add _).symm

/-- A value replaces another one, or none. -/
theorem total_insert (m : GoMap K V) (a : K) (b : V) :
    total f (m.insert a b) + (m.lookup a).elim 0 f = total f m + f b := by
  have hnew := total_eq f (m.insert a b) a
  have hold := total_eq f m a
  rw [erase_insert_self, Finmap.lookup_insert, Option.elim_some] at hnew
  omega

theorem total_erase {m : GoMap K V} {a : K} {b : V} (h : m.lookup a = some b) :
    total f (m.erase a) + f b = total f m := by
  rw [total_eq f m a, h, Option.elim_some, Nat.add_comm]

end GoMap

/-! ## Iteration -/

/-- **An iteration order**: for every set of keys, a list of these keys, each once. -/
structure RangeOrder (K : Type) where
  keys : Finset K → List K
  keys_val : ∀ s, (keys s : Multiset K) = s.val

namespace RangeOrder

variable {K : Type} (o : RangeOrder K)

@[simp] theorem mem_keys {s : Finset K} {k : K} : k ∈ o.keys s ↔ k ∈ s := by
  rw [← Multiset.mem_coe, o.keys_val, Finset.mem_val]

theorem nodup_keys (s : Finset K) : (o.keys s).Nodup := by
  rw [← Multiset.coe_nodup, o.keys_val]
  exact s.nodup

/-- The increasing order. -/
def increasing [LinearOrder K] : RangeOrder K where
  keys s := Quot.liftOn s.val (List.insertionSort (· ≤ ·)) fun _ _ h =>
    ((List.perm_insertionSort _ _).trans <| h.trans (List.perm_insertionSort _ _).symm).eq_of_pairwise'
      (r := (· ≤ ·)) (List.pairwise_insertionSort _ _) (List.pairwise_insertionSort _ _)
  keys_val s := by
    obtain ⟨⟨l⟩, hl⟩ := s
    exact Quot.sound (List.perm_insertionSort _ _)

end RangeOrder

section Range

variable {K V : Type} [DecidableEq K] (o : RangeOrder K) (m : GoMap K V)

/-- The entries met by `for k, v := range m`, in the order `o`. -/
def range : List (K × V) := (o.keys m.keys).filterMap fun k => (m.lookup k).map (k, ·)

theorem mem_range {e : K × V} : e ∈ range o m ↔ m.lookup e.1 = some e.2 := by
  obtain ⟨k, v⟩ := e
  simp only [range, List.mem_filterMap, RangeOrder.mem_keys, Option.map_eq_some_iff, Prod.mk.injEq]
  constructor
  · rintro ⟨_, _, _, hv, rfl, rfl⟩
    exact hv
  · intro h
    exact ⟨k, Finmap.mem_keys.mpr (Finmap.mem_of_lookup_eq_some h), v, h, rfl, rfl⟩

theorem range_map_fst : (range o m).map Prod.fst = o.keys m.keys := by
  rw [range, List.map_filterMap]
  refine (List.filterMap_congr fun k hk => ?_).trans List.filterMap_some
  obtain ⟨v, hv⟩ := Finmap.mem_iff.mp (Finmap.mem_keys.mp ((o.mem_keys).mp hk))
  simp [hv]

theorem nodup_range_keys : ((range o m).map Prod.fst).Nodup := by
  rw [range_map_fst]
  exact o.nodup_keys _

theorem nodup_range : (range o m).Nodup := (nodup_range_keys o m).of_map _

/-- Two iterations meet the same entries. -/
theorem perm_range (o' : RangeOrder K) : (range o m).Perm (range o' m) := by
  rw [List.perm_ext_iff_of_nodup (nodup_range o m) (nodup_range o' m)]
  exact fun e => (mem_range o m).trans (mem_range o' m).symm

/-- A search through a map. -/
theorem any_range {p : K × V → Bool} :
    (range o m).any p = true ↔ ∃ k v, m.lookup k = some v ∧ p (k, v) = true := by
  rw [List.any_eq_true]
  constructor
  · rintro ⟨⟨k, v⟩, he, hp⟩
    exact ⟨k, v, (mem_range o m).mp he, hp⟩
  · rintro ⟨k, v, hv, hp⟩
    exact ⟨(k, v), (mem_range o m).mpr hv, hp⟩

/-- What a list without duplicates has at one element. -/
theorem filterMap_ite_eq {α β : Type} [DecidableEq α] (f : α → Option β) (a : α) {l : List α}
    (hl : l.Nodup) :
    l.filterMap (fun x => if x = a then f x else none) = if a ∈ l then (f a).toList else [] := by
  induction l with
  | nil => rfl
  | cons x l ih =>
    rw [List.nodup_cons] at hl
    by_cases hx : x = a
    · subst hx
      have hrest : l.filterMap (fun y => if y = x then f y else none) = [] := by
        rw [ih hl.2, if_neg hl.1]
      rw [if_pos List.mem_cons_self]
      cases hf : f x with
      | none => rw [List.filterMap_cons_none (by rw [if_pos rfl, hf]), hrest]; rfl
      | some b => rw [List.filterMap_cons_some (by rw [if_pos rfl, hf]), hrest]; rfl
    · simp only [List.filterMap_cons, hx, if_false, ih hl.2]
      exact if_congr (by simp [Ne.symm hx]) rfl rfl

/-- What a `range` statement meets at one key. -/
theorem filterMap_range_key {γ : Type} (g : K × V → γ) (k : K) :
    (range o m).filterMap (fun e => if e.1 = k then some (g e) else none) =
      ((m.lookup k).map fun v => g (k, v)).toList := by
  have hf : (range o m).filterMap (fun e => if e.1 = k then some (g e) else none) =
      (o.keys m.keys).filterMap fun k' =>
        if k' = k then (m.lookup k').map fun v => g (k', v) else none := by
    rw [range, List.filterMap_filterMap]
    refine List.filterMap_congr fun k' _ => ?_
    cases m.lookup k' <;> simp
  rw [hf, filterMap_ite_eq _ _ (o.nodup_keys _)]
  split_ifs with hk
  · rfl
  · rw [RangeOrder.mem_keys, Finmap.mem_keys, ← Finmap.lookup_eq_none] at hk
    rw [hk]
    rfl

/-- **Deleting the entries of a map that satisfy `p`.** -/
theorem lookup_eraseAll_filter (p : K × V → Bool) (k : K) (v : V) :
    Finmap.lookup k (GoMap.eraseAll m (((range o m).filter p).map Prod.fst)) = some v ↔
      m.lookup k = some v ∧ p (k, v) = false := by
  have hmem : k ∈ ((range o m).filter p).map Prod.fst ↔ ∃ w, m.lookup k = some w ∧ p (k, w) = true := by
    rw [List.mem_map]
    constructor
    · rintro ⟨⟨_, w⟩, he, rfl⟩
      exact ⟨w, (mem_range o m).mp (List.mem_of_mem_filter he), (List.mem_filter.mp he).2⟩
    · rintro ⟨w, hw, hp⟩
      exact ⟨(k, w), List.mem_filter.mpr ⟨(mem_range o m).mpr hw, hp⟩, rfl⟩
  rw [GoMap.lookup_eraseAll]
  split_ifs with h
  · obtain ⟨w, hw, hp⟩ := hmem.mp h
    simp only [hw, Option.some.injEq, false_iff, not_and]
    rintro rfl
    simp [hp]
  · refine ⟨fun hv => ⟨hv, ?_⟩, And.left⟩
    by_contra hp
    exact h (hmem.mpr ⟨v, hv, by simpa using hp⟩)

theorem length_range : (range o m).length = GoMap.len m := by
  rw [← List.length_map (f := Prod.fst), range_map_fst, ← Multiset.coe_card, o.keys_val]
  rfl

end Range

/-! ## Reordering a list -/

/-- **A reordering**: what an algorithm that may permute its input does with a list. -/
structure Shuffle (α : Type) where
  run : List α → List α
  perm : ∀ l, (run l).Perm l

/-- The reordering that keeps the list. -/
def Shuffle.keep (α : Type) : Shuffle α := ⟨id, fun _ => List.Perm.refl _⟩

section Sorting

variable {α : Type} (sh : Shuffle α) (less : α → α → Bool) (l : List α)

/-- `sort.Slice`: a sorted permutation of the list; elements that tie come in any order, the one
`sh` leaves them in. -/
def sortSlice : List α := (sh.run l).insertionSort fun a b => less b a = false

theorem perm_sortSlice : (sortSlice sh less l).Perm l :=
  (List.perm_insertionSort _ _).trans (sh.perm l)

theorem mem_sortSlice {x : α} : x ∈ sortSlice sh less l ↔ x ∈ l := (perm_sortSlice sh less l).mem_iff

variable {less}

/-- **`sort.Slice` sorts** by a `less` that compares ranks. -/
theorem pairwise_sortSlice {κ : Type} [LinearOrder κ] {rank : α → κ}
    (hless : ∀ a b, less a b = true ↔ rank a < rank b) :
    (sortSlice sh less l).Pairwise fun a b => rank a ≤ rank b := by
  have hle : ∀ {a b}, less b a = false ↔ rank a ≤ rank b := fun {a b} => by
    rw [Bool.eq_false_iff, ne_eq, hless, not_lt]
  have htotal : Std.Total fun a b => less b a = false :=
    ⟨fun a b => (le_total (rank a) (rank b)).imp hle.mpr hle.mpr⟩
  have htrans : IsTrans α fun a b => less b a = false :=
    ⟨fun a b c hab hbc => hle.mpr ((hle.mp hab).trans (hle.mp hbc))⟩
  exact (List.pairwise_insertionSort _ _).imp hle.mp

end Sorting

end Screego.Lib
