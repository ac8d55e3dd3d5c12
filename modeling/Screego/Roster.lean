import Mathlib.Data.Prod.Lex
import Mathlib.Data.String.Basic
import Screego.Views
import Screego.Visitors

/-!
# The member list is canonical

Every member is sent a list of its own, made by a loop and a sort of its own. What the lists have in
common does not depend on either.

* `Outgoing.User.rank`: what the member list is sorted by; `lessUser_iff`;
* `Roster`: a list `sort.Slice` may leave for a member; `RoomOk.roster`: `notifyInfoChanged` sends one;
* `Outgoing.User.face`, `Outgoing.User.look`: an entry without `ID` and `You`, and without `ID`;
* **`Roster.face_eq`**: any two rosters of a room have the same faces;
* **`member_list_is_canonical`**: in every state of a run.
-/

set_option autoImplicit false

namespace Screego

open Lib Outgoing

variable {env : Env} {ch : Choice} {c c' : XID} {R : String} {r : Screego.Room}
  {v v' : Screego.User} {L L' : List Outgoing.User}

/-! ## The order of the list -/

/-- What the member list is sorted by: owners, then streamers, then names. -/
def Outgoing.User.rank (y : Outgoing.User) : Bool ×ₗ Bool ×ₗ String :=
  toLex (!y.owner, toLex (!y.streaming, y.name))

/-- The comparison of `notifyInfoChanged` compares ranks. -/
theorem lessUser_iff (y y' : Outgoing.User) : Room.lessUser y y' = true ↔ y.rank < y'.rank := by
  simp only [Outgoing.User.rank, Prod.Lex.toLex_lt_toLex, Room.lessUser]
  cases y.owner <;> cases y'.owner <;> cases y.streaming <;> cases y'.streaming <;> simp

/-- What every recipient sees of a user: the entry without `ID` and `You`. -/
structure Face where
  name : String
  visitorID : String
  streaming : Bool
  owner : Bool

def Outgoing.User.face (y : Outgoing.User) : Face where
  name := y.name
  visitorID := y.visitorID
  streaming := y.streaming
  owner := y.owner

/-- The entry without `ID`. -/
def Outgoing.User.look (y : Outgoing.User) : Face × Bool := (y.face, y.you)

/-- **A list `sort.Slice` may leave** for the member `v`: its entries for the users of the room, each
once, sorted. -/
structure Roster (r : Screego.Room) (v : Screego.User) (L : List Outgoing.User) : Prop where
  nodup : (L.map Outgoing.User.id).Nodup
  entries : ∀ y, y ∈ L ↔ ∃ c a, r.users.lookup c = some a ∧ y = entryFor v c a
  sorted : L.Pairwise fun y y' => y.rank ≤ y'.rank

theorem RoomOk.roster (h : RoomOk R r) (hv : r.users.lookup c = some v) (ch : Choice) :
    Roster r v (r.infoFor ch (c, v)).users where
  nodup := (h.lists hv ch).2.1
  entries := (h.lists hv ch).2.2
  sorted := pairwise_sortSlice _ _ lessUser_iff

/-! ## Two lists -/

namespace Roster

variable (h : Roster r v L)

include h

theorem nodup_list : L.Nodup := h.nodup.of_map _

/-- An entry is found again in the list of another member. -/
theorem exists_entry (h' : Roster r v' L') {y : Outgoing.User} (hy : y ∈ L) :
    ∃ y' ∈ L', y'.id = y.id ∧ y'.face = y.face := by
  obtain ⟨c, a, ha, rfl⟩ := (h.entries y).mp hy
  exact ⟨entryFor v' c a, (h'.entries _).mpr ⟨c, a, ha, rfl⟩, rfl, rfl⟩

/-- The lists of two members show the same users with the same faces. -/
theorem perm_face (h' : Roster r v' L') : (L.map Outgoing.User.face).Perm (L'.map Outgoing.User.face) := by
  let card (y : Outgoing.User) : XID × Face := (y.id, y.face)
  have hnodup : ∀ {M : List Outgoing.User}, (M.map Outgoing.User.id).Nodup → (M.map card).Nodup := by
    intro M hM
    refine List.Nodup.of_map Prod.fst ?_
    rwa [List.map_map]
  have hperm : (L.map card).Perm (L'.map card) := by
    rw [List.perm_ext_iff_of_nodup (hnodup h.nodup) (hnodup h'.nodup)]
    intro x
    constructor
    · intro hx
      obtain ⟨y, hy, rfl⟩ := List.mem_map.mp hx
      obtain ⟨y', hy', hid, hface⟩ := h.exists_entry h' hy
      exact List.mem_map.mpr ⟨y', hy', Prod.ext hid hface⟩
    · intro hx
      obtain ⟨y, hy, rfl⟩ := List.mem_map.mp hx
      obtain ⟨y', hy', hid, hface⟩ := h'.exists_entry h hy
      exact List.mem_map.mpr ⟨y', hy', Prod.ext hid hface⟩
  have hsnd := hperm.map Prod.snd
  rwa [List.map_map, List.map_map] at hsnd

/-- **Entries that tie have one face**: one name is one visitor. -/
theorem face_eq_of_rank_eq (hr : r.Visitors) (h' : Roster r v' L') {y y' : Outgoing.User} (hy : y ∈ L)
    (hy' : y' ∈ L') (hrank : y.rank = y'.rank) : y.face = y'.face := by
  obtain ⟨c, a, ha, rfl⟩ := (h.entries y).mp hy
  obtain ⟨c', a', ha', rfl⟩ := (h'.entries y').mp hy'
  have hrank' := toLex_inj.mp hrank
  have hname : a.name = a'.name := congrArg (fun x => (ofLex x.2).2) hrank'
  have howner : (!a.owner) = !a'.owner := congrArg Prod.fst hrank'
  have hstreaming : (!a.streaming) = !a'.streaming := congrArg (fun x => (ofLex x.2).1) hrank'
  have hvisitor := (hr.fits c c' a a' ha ha').name.mp hname
  simp only [Outgoing.User.face, entryFor, hname, hvisitor, Bool.not_inj howner,
    Bool.not_inj hstreaming]

/-- **Two rosters of a room have the same faces**, entry by entry. -/
theorem face_eq (hr : r.Visitors) (h' : Roster r v' L') :
    L.map Outgoing.User.face = L'.map Outgoing.User.face := by
  let rank (f : Face) : Bool ×ₗ Bool ×ₗ String := toLex (!f.owner, toLex (!f.streaming, f.name))
  have hsorted : (L.map Outgoing.User.face).Pairwise fun f f' => rank f ≤ rank f' :=
    List.pairwise_map.mpr h.sorted
  have hsorted' : (L'.map Outgoing.User.face).Pairwise fun f f' => rank f ≤ rank f' :=
    List.pairwise_map.mpr h'.sorted
  refine (h.perm_face h').eq_of_pairwise ?_ hsorted hsorted'
  intro f f' hf hf' hle hge
  obtain ⟨y, hy, rfl⟩ := List.mem_map.mp hf
  obtain ⟨y', hy', rfl⟩ := List.mem_map.mp hf'
  exact h.face_eq_of_rank_eq hr h' hy hy' (le_antisymm hle hge)

/-- The mark `You` follows from the face. -/
theorem look_eq : L.map Outgoing.User.look =
    (L.map Outgoing.User.face).map fun f => (f, decide (f.visitorID = v.visitorID)) := by
  rw [List.map_map]
  refine List.map_congr_left fun y hy => ?_
  obtain ⟨c, a, -, rfl⟩ := (h.entries y).mp hy
  rfl

end Roster

/-- **The member list is canonical.** Every member is handed one list, with every user once, sorted.
The lists of any two members, for any orders of the loops and any order of ties, agree entry by entry
in all but `ID` and `You`, and two lists of one member in all but `ID`. -/
theorem member_list_is_canonical (env : Env) : (server env).Always fun w =>
    ∀ R r, w.rooms.rooms.lookup R = some r →
      (∀ ch c v, r.users.lookup c = some v →
        heard c (r.notifyInfoChanged ch) = [.room (r.infoFor ch (c, v))] ∧
        Roster r v (r.infoFor ch (c, v)).users) ∧
      (∀ c c' v v' L L', r.users.lookup c = some v → r.users.lookup c' = some v' →
        Roster r v L → Roster r v' L' → L.map Outgoing.User.face = L'.map Outgoing.User.face) ∧
      ∀ c v L L', r.users.lookup c = some v → Roster r v L → Roster r v L' →
        L.map Outgoing.User.look = L'.map Outgoing.User.look := by
  refine (server_visitorsOk env).mono fun w hw R r hr => ?_
  have hR := hw.1.inv.room R r hr
  have hvisitors := hw.2 R r hr
  refine ⟨fun ch c v hv => ⟨?_, hR.roster hv ch⟩, fun c c' v v' L L' hv hv' h h' => ?_,
    fun c v L L' hv h h' => ?_⟩
  · rw [heard_notifyInfoChanged hR.keyed, Room.news_of_lookup hv]
  · exact h.face_eq hvisitors h'
  · rw [h.look_eq, h'.look_eq, h.face_eq hvisitors h']

end Screego
