import Screego.Preserve

/-!
# What one message does to one room

The rooms after a message, each traced to the rooms before it.

* `Room.Like`: the settings of a room;
* `RoomStep`: how a room comes to be what it is: it is as before, new, entered, changed by a user
  that begins or ends to share, or left;
* **`Change.roomStep`**, `Departs.roomStep`: every room after a message comes about in such a way;
* `Rooms.Concerns`: the rooms a message is about; `Departs.lookup_rooms`, **`Change.lookup_rooms`**:
  it leaves the others alone.
-/

set_option autoImplicit false

namespace Screego

open Lib Outgoing

variable {env : Env} {ch : Choice} {s t : Rooms} {info : ClientInfo} {e : Event} {sent : List Send}
  {c : XID} {R : String} {r r' : Screego.Room}

/-- The rooms have the same settings. -/
structure Room.Like (r' r : Screego.Room) : Prop where
  id : r'.id = r.id
  closeOnOwnerLeave : r'.closeOnOwnerLeave = r.closeOnOwnerLeave
  mode : r'.mode = r.mode

/-- **How the room `r'`, stored under `R`, comes about** when the client `info` sends `e`. -/
inductive RoomStep (env : Env) (ch : Choice) (s : Rooms) (info : ClientInfo) (e : Event)
    (R : String) (r' : Screego.Room) : Prop
  | same (hr : s.rooms.lookup R = some r')
  | created {q : Create} (he : e = .create q) (hc : s.connected.lookup info.id = some "")
      (hR : normalizeRoomID q.id = .ok R) (hnew : R ∉ s.rooms) (ha : q.authError env info = none)
      (hr' : r' = createRoom env info R q)
  | joined {r : Screego.Room} {v : String} (hc : s.connected.lookup info.id = some "")
      (he : e.Joins R v) (hr : s.rooms.lookup R = some r) (hget : ∃ ips, ch.get = .ok ips)
      (hlike : r'.Like r) (husers : r'.users = (r.put (joinUser env ch info r v)).users)
  | flagged {r : Screego.Room} {u : Screego.User} {b : Bool} (hin : s.InRoom info.id R r)
      (hu : r.users.lookup info.id = some u) (hlike : r'.Like r)
      (husers : r'.users = (r.put { u with streaming := b }).users)
  | left {r : Screego.Room} {u : Screego.User} (hin : s.InRoom info.id R r)
      (hu : r.users.lookup info.id = some u) (hcl : ¬ r.closesWith ch info.id u)
      (hlike : r'.Like r) (husers : r'.users = (r.without info.id).users)

/-- The rooms after a departure. -/
theorem Departs.roomStep {d : Disconnected} (hd : Departs env ch s c d t sent)
    (hr : t.rooms.lookup R = some r') : s.rooms.lookup R = some r' ∨
      ∃ r u, s.InRoom c R r ∧ r.users.lookup c = some u ∧ ¬ r.closesWith ch c u ∧
        r' = { r.without c with
          sessions := GoMap.eraseAll r.sessions ((r.ending ch c).map Prod.fst) } := by
  cases hd with
  | idle hc => exact Or.inl hr
  | @stays R₀ r u hin hu hcl =>
    rcases GoMap.lookup_insert_eq_some.mp hr with ⟨rfl, rfl⟩ | ⟨-, hr⟩
    · exact Or.inr ⟨r, u, hin, hu, hcl, rfl⟩
    · exact Or.inl hr
  | @closes R₀ r u hin hu hcl =>
    simp only [Rooms.finished, GoMap.lookup_erase_ite] at hr
    split_ifs at hr with hR
    exact Or.inl hr

/-- **The rooms after a message.** -/
theorem Change.roomStep (hch : Change env ch s info e t sent) (hr : t.rooms.lookup R = some r') :
    RoomStep env ch s info e R r' := by
  cases hch with
  | skip | name | stale | relay | bounce => exact .same hr
  | @create R₀ q hc hR hnew ha =>
    rcases GoMap.lookup_insert_eq_some.mp hr with ⟨rfl, rfl⟩ | ⟨-, hr⟩
    · exact .created rfl hc hR hnew ha rfl
    · exact .same hr
  | @join e R₀ v r r₁ v4 v6 A hc he hr₀ hget hr₁ hA =>
    rcases GoMap.lookup_insert_eq_some.mp hr with ⟨rfl, rfl⟩ | ⟨-, hr⟩
    · exact .joined hc he hr₀ ⟨_, hget⟩ (by subst hr₁; exact ⟨rfl, rfl, rfl⟩) (by rw [hr₁])
    · exact .same hr
  | @share R₀ r r₁ u v4 v6 A hin hu hget hr₁ hA =>
    rcases GoMap.lookup_insert_eq_some.mp hr with ⟨rfl, rfl⟩ | ⟨-, hr⟩
    · exact .flagged hin hu (by subst hr₁; exact ⟨rfl, rfl, rfl⟩) (by rw [hr₁])
    · exact .same hr
  | @unshare R₀ r r₁ u hin hu hr₁ =>
    rcases GoMap.lookup_insert_eq_some.mp hr with ⟨rfl, rfl⟩ | ⟨-, hr⟩
    · exact .flagged hin hu (by subst hr₁; exact ⟨rfl, rfl, rfl⟩) (by rw [hr₁])
    · exact .same hr
  | depart d hd =>
    rcases hd.roomStep hr with hr | ⟨r, u, hin, hu, hcl, rfl⟩
    · exact .same hr
    · exact .left hin hu hcl ⟨rfl, rfl, rfl⟩ rfl

/-! ## The rooms a message is about -/

/-- The event asks to enter the room `R`. -/
def Event.Names (R : String) : Event → Prop
  | .join e => normalizeRoomID e.id = .ok R
  | .create e => normalizeRoomID e.id = .ok R
  | _ => False

/-- **The rooms the event `e` of `c` is about**: the room `c` is in and the room `e` names. -/
def Rooms.Concerns (s : Rooms) (c : XID) (e : Event) (R : String) : Prop :=
  (R ≠ "" ∧ s.connected.lookup c = some R) ∨ e.Names R

theorem Event.Joins.names {v : String} (h : e.Joins R v) : e.Names R := by
  cases e with
  | join j => exact h.1
  | create q => exact h.2.1
  | _ => exact h.elim

theorem Rooms.InRoom.concerns (h : s.InRoom c R r) (e : Event) : s.Concerns c e R :=
  Or.inl ⟨h.ne, h.at_⟩

/-- The client `u` is a user of a room the event is about. -/
def Rooms.Near (s : Rooms) (c : XID) (e : Event) (u : XID) : Prop :=
  ∃ R r, s.Concerns c e R ∧ s.rooms.lookup R = some r ∧ u ∈ r.users

theorem Rooms.InRoom.near (h : s.InRoom c R r) (e : Event) {u : XID} (hu : u ∈ r.users) :
    s.Near c e u := ⟨R, r, h.concerns e, h.room, hu⟩

theorem Departs.lookup_rooms {d : Disconnected} (hd : Departs env ch s c d t sent)
    (hR : ∀ r, ¬ s.InRoom c R r) : t.rooms.lookup R = s.rooms.lookup R := by
  have hother : ∀ {R₀ r}, s.InRoom c R₀ r → R ≠ R₀ := fun hin e => hR _ (e ▸ hin)
  cases hd with
  | idle => rfl
  | stays hin => exact Finmap.lookup_insert_of_ne _ (hother hin)
  | closes hin => exact Finmap.lookup_erase_ne (hother hin)

/-- **Rooms that a message is not about** are as before. -/
theorem Change.lookup_rooms (hch : Change env ch s info e t sent)
    (hR : ¬ s.Concerns info.id e R) : t.rooms.lookup R = s.rooms.lookup R := by
  have hother : ∀ {R₀}, s.Concerns info.id e R₀ → R ≠ R₀ := fun hc e => hR (e ▸ hc)
  cases hch with
  | skip | name | stale | relay | bounce => rfl
  | create hc hR₀ => exact Finmap.lookup_insert_of_ne _ (hother (Or.inr hR₀))
  | join hc he => exact Finmap.lookup_insert_of_ne _ (hother (Or.inr he.names))
  | share hin => exact Finmap.lookup_insert_of_ne _ (hother (hin.concerns _))
  | unshare hin => exact Finmap.lookup_insert_of_ne _ (hother (hin.concerns _))
  | depart d hd => exact hd.lookup_rooms fun _ hin => hR (hin.concerns e)

end Screego
