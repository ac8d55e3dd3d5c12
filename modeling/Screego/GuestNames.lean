import Mathlib.Combinatorics.Enumerative.DoubleCounting
import Screego.Visitors

/-!
# Guest names stay small

The `for` loop of `nextGuestName` has no bound. It ends because only finitely many names are used,
and it ends early because the connections of a visitor share one name.

* `GuestRun`: the loop as it runs, a round for each index; `guestRun_iff`: what it finds;
* `guestLoop_run`: the loop with a bound on its rounds finds the same;
* `Room.visitorIDs`: the visitors of a room; `Room.Visitors.card_usedNames`: one name for each;
* **`guest_names_stay_small`**: a new visitor gets the least free name.
-/

set_option autoImplicit false

namespace Screego

open Lib Outgoing

variable {ch : Choice} {r : Screego.Room} {used : List String} {index k : ℕ} {name v : String}

/-! ## The loop -/

/-- The loop of `nextGuestName` from `index` on ends with `name`. -/
inductive GuestRun (used : List String) : ℕ → String → Prop
  | found {index : ℕ} : guestName index ∉ used → GuestRun used index (guestName index)
  | next {index : ℕ} {name : String} : guestName index ∈ used → GuestRun used (index + 1) name →
      GuestRun used index name

/-- **What the loop finds**: the first free name. -/
theorem guestRun_iff : GuestRun used index name ↔ ∃ k, index ≤ k ∧ name = guestName k ∧
    guestName k ∉ used ∧ ∀ j, index ≤ j → j < k → guestName j ∈ used := by
  constructor
  · intro h
    induction h with
    | @found index hfree => exact ⟨index, le_rfl, rfl, hfree, fun j hj hk => by omega⟩
    | @next index name hused _ ih =>
      obtain ⟨k, hk, hname, hfree, hall⟩ := ih
      refine ⟨k, by omega, hname, hfree, fun j hj hjk => ?_⟩
      by_cases hji : j = index
      · exact hji ▸ hused
      · exact hall j (by omega) hjk
  · rintro ⟨k, hk, rfl, hfree, hall⟩
    -- on the number of rounds to go
    induction hd : k - index generalizing index with
    | zero =>
      obtain rfl : index = k := by omega
      exact .found hfree
    | succ d ih =>
      apply GuestRun.next (hall index le_rfl (by omega))
      exact ih (by omega) (fun j hj hjk => hall j (by omega) hjk) (by omega)

/-- The loop finds one name. -/
theorem GuestRun.unique {name' : String} (h : GuestRun used index name)
    (h' : GuestRun used index name') : name' = name := by
  induction h with
  | found hfree =>
    cases h' with
    | found => rfl
    | next hused => exact absurd hused hfree
  | next hused _ ih =>
    cases h' with
    | found hfree => exact absurd hused hfree
    | next _ h' => exact ih h'

/-- A bound on the rounds makes no difference when a name is free within it. -/
theorem guestLoop_run (used : List String) (rounds index : ℕ)
    (h : ∃ i ≤ rounds, guestName (index + i) ∉ used) :
    GuestRun used index (guestLoop used rounds index) := by
  induction rounds generalizing index with
  | zero =>
    obtain ⟨i, hi, hfree⟩ := h
    obtain rfl : i = 0 := by omega
    exact .found hfree
  | succ rounds ih =>
    unfold guestLoop
    split_ifs with hused
    · apply GuestRun.next hused
      apply ih
      obtain ⟨i, hi, hfree⟩ := h
      cases i with
      | zero => exact absurd hused hfree
      | succ i => exact ⟨i, by omega, by rwa [Nat.add_assoc, Nat.add_comm 1]⟩
    · exact .found hused

/-- The loop passes over no more names than there are different used ones. -/
theorem exists_free_of_card (used : List String) (index : ℕ) :
    ∃ i ≤ used.toFinset.card, guestName (index + i) ∉ used := by
  obtain ⟨i, hi, hfree⟩ := exists_free_name used.toFinset.toList index
  rw [Finset.length_toList] at hi
  exact ⟨i, hi, by simpa using hfree⟩

/-! ## The names of a room -/

/-- The names `nextGuestName` finds in a room. -/
def Room.usedNames (ch : Choice) (r : Screego.Room) : List String :=
  ((range (ch.order .nextGuestName) r.users).map Prod.snd).map Screego.User.name

/-- The different visitor IDs of the users of a room. -/
def Room.visitorIDs (r : Screego.Room) : Finset String :=
  ((range RangeOrder.increasing r.users).map fun e => e.2.visitorID).toFinset

theorem Room.mem_usedNames : name ∈ r.usedNames ch ↔
    ∃ c u, r.users.lookup c = some u ∧ u.name = name := by
  simp only [usedNames, List.map_map, List.mem_map, Function.comp_apply, Prod.exists]
  constructor
  · rintro ⟨c, u, hu, rfl⟩
    exact ⟨c, u, (mem_range _ _).mp hu, rfl⟩
  · rintro ⟨c, u, hu, rfl⟩
    exact ⟨c, u, (mem_range _ _).mpr hu, rfl⟩

theorem Room.mem_visitorIDs : v ∈ r.visitorIDs ↔
    ∃ c u, r.users.lookup c = some u ∧ u.visitorID = v := by
  simp only [visitorIDs, List.mem_toFinset, List.mem_map, Prod.exists]
  constructor
  · rintro ⟨c, u, hu, rfl⟩
    exact ⟨c, u, (mem_range _ _).mp hu, rfl⟩
  · rintro ⟨c, u, hu, rfl⟩
    exact ⟨c, u, (mem_range _ _).mpr hu, rfl⟩

/-- **A visitor has one name**, so there are no more names than visitors. -/
theorem Room.Visitors.card_usedNames (h : r.Visitors) (ch : Choice) :
    (r.usedNames ch).toFinset.card ≤ r.visitorIDs.card := by
  -- a user of each name, by the visitor ID that all users of the name have
  apply Finset.card_le_card_of_forall_subsingleton fun name v =>
    ∃ c u, r.users.lookup c = some u ∧ u.name = name ∧ u.visitorID = v
  · intro name hname
    obtain ⟨c, u, hu, rfl⟩ := mem_usedNames.mp (List.mem_toFinset.mp hname)
    exact ⟨u.visitorID, mem_visitorIDs.mpr ⟨c, u, hu, rfl⟩, c, u, hu, rfl, rfl⟩
  · rintro v - name ⟨-, c, u, hu, rfl, rfl⟩ name' ⟨-, c', u', hu', rfl, hv⟩
    exact ((h.fits c c' u u' hu hu').name.mpr hv.symm)

/-- A visitor without users has no known name. -/
theorem lookup_knownNames_of_notMem (users : List Screego.User) (known : GoMap String String)
    (hnone : ∀ u ∈ users, u.visitorID ≠ v) : (knownNames users known).lookup v = known.lookup v := by
  induction users generalizing known with
  | nil => rfl
  | cons u users ih =>
    unfold knownNames at ih ⊢
    rw [List.foldl_cons, ih _ fun u' hu' => hnone u' (List.mem_cons_of_mem _ hu')]
    split_ifs
    · exact Finmap.lookup_insert_of_ne _ (Ne.symm (hnone u List.mem_cons_self))
    · rfl

/-- A new visitor gets what the loop finds. -/
theorem Room.nextGuestName_new (ch : Choice)
    (hnone : ∀ c u, r.users.lookup c = some u → u.visitorID ≠ v) :
    r.nextGuestName ch v = guestLoop (r.usedNames ch) (r.usedNames ch).length 1 := by
  have hlook : (knownNames ((range (ch.order .nextGuestName) r.users).map Prod.snd) ∅).lookup v =
      none := by
    rw [lookup_knownNames_of_notMem, Finmap.lookup_empty]
    intro u hu
    obtain ⟨⟨c, u⟩, hcu, rfl⟩ := List.mem_map.mp hu
    exact hnone c u ((mem_range _ _).mp hcu)
  unfold knownNames at hlook
  unfold nextGuestName usedNames
  simp only [hlook, Option.getD_none, ne_eq, not_true_eq_false, if_false, List.length_map]

/-- **Guest names.** In every room of every run, a visitor without users makes the unbounded loop of
`nextGuestName` end with the least free name, and there are at least as many visitors as names
passed over. -/
theorem guest_names_stay_small (env : Env) : (server env).Always fun w =>
    ∀ R r ch v, w.rooms.rooms.lookup R = some r →
      (∀ c u, r.users.lookup c = some u → u.visitorID ≠ v) →
      ∃ k, 1 ≤ k ∧ r.nextGuestName ch v = guestName k ∧
        (∀ name, GuestRun (r.usedNames ch) 1 name ↔ name = guestName k) ∧
        (∀ c u, r.users.lookup c = some u → u.name ≠ guestName k) ∧
        (∀ j, 1 ≤ j → j < k → ∃ c u, r.users.lookup c = some u ∧ u.name = guestName j) ∧
        k ≤ r.visitorIDs.card + 1 := by
  refine (server_visitorsOk env).mono fun w hw R r ch v hr hnone => ?_
  have hv := hw.2 R r hr
  have hrun : GuestRun (r.usedNames ch) 1 (r.nextGuestName ch v) := by
    rw [Room.nextGuestName_new ch hnone]
    exact guestLoop_run _ _ _ (exists_free_name _ 1)
  obtain ⟨k, hk, hname, hfree, hleast⟩ := guestRun_iff.mp hrun
  refine ⟨k, hk, hname, fun name => ⟨fun h => ?_, ?_⟩, fun c u hu hu' => ?_, fun j hj hjk => ?_, ?_⟩
  · rw [hrun.unique h, hname]
  · rintro rfl
    exact hname ▸ hrun
  · exact hfree (Room.mem_usedNames.mpr ⟨c, u, hu, hu'⟩)
  · exact Room.mem_usedNames.mp (hleast j hj hjk)
  · obtain ⟨i, hi, hfree'⟩ := exists_free_of_card (r.usedNames ch) 1
    have hki : k ≤ 1 + i := by
      by_contra hlt
      exact hfree' (hleast (1 + i) (by omega) (by omega))
    have hcard := hv.card_usedNames ch
    omega

end Screego
