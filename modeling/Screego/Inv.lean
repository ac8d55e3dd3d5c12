import Screego.Loops

/-!
# The invariant of the main loop

What holds of `Rooms` between two messages.

* `RoomOk R r`: a room on its own: it is stored under its ID, its users are stored under theirs and
  it has one; the sessions are those its streaming users owe to the other users;
* `Inv env s`: the rooms, the map `connected` that says who is where, the ids in use and the TURN
  users admitted;
* `Rooms.InRoom s c R r`: the client `c` is in the room `r`.
-/

namespace Screego

open Lib

/-- **A room on its own.** -/
structure RoomOk (R : String) (r : Room) : Prop where
  id_eq : r.id = R
  trimmed : trimSpace R = R
  long : minRoomIDLength ≤ R.utf8ByteSize
  inhabited : ∃ c, c ∈ r.users
  user : ∀ c u, r.users.lookup c = some u → u.id = c ∧ u.write = ⟨c⟩ ∧ u.visitorID ≠ ""
  sound : ∀ sid x, r.sessions.lookup sid = some x → x.host ≠ x.client ∧ x.client ∈ r.users ∧
    ∃ u, r.users.lookup x.host = some u ∧ u.streaming = true
  complete : ∀ h c u, r.users.lookup h = some u → u.streaming = true → c ∈ r.users → c ≠ h →
    ∃ sid, r.sessions.lookup sid = some ⟨h, c⟩

/-- The TURN user name belongs to the session `sid`. -/
def UsernameOf (env : Env) (sid : XID) (name : String) : Prop :=
  name = hostUsername env sid ∨ name = clientUsername env sid

instance (env : Env) (sid : XID) (name : String) : Decidable (UsernameOf env sid name) :=
  inferInstanceAs (Decidable (_ ∨ _))

/-- The TURN user name belongs to a session of the TURN room. -/
def Room.Admits (env : Env) (r : Room) (name : String) : Prop :=
  r.mode = connectionTURN ∧ ∃ sid, sid ∈ r.sessions ∧ UsernameOf env sid name

/-- The TURN user name belongs to a session of a TURN room. -/
def Rooms.Admits (env : Env) (s : Rooms) (name : String) : Prop :=
  ∃ R r, s.rooms.lookup R = some r ∧ r.Admits env name

/-- **The invariant of the main loop.** -/
structure Inv (env : Env) (s : Rooms) : Prop where
  room : ∀ R r, s.rooms.lookup R = some r → RoomOk R r
  member : ∀ c R, R ≠ "" →
    (s.connected.lookup c = some R ↔ ∃ r, s.rooms.lookup R = some r ∧ c ∈ r.users)
  client : ∀ c, c ∈ s.connected → env.Drawn s.drawn c
  session : ∀ R r sid, s.rooms.lookup R = some r → sid ∈ r.sessions → env.Drawn s.drawn sid
  apart : ∀ R R' r r' sid, s.rooms.lookup R = some r → s.rooms.lookup R' = some r' →
    sid ∈ r.sessions → sid ∈ r'.sessions → R = R'
  internal : s.turnServer.isInternal = !env.config.turnExternal
  granted : env.config.turnExternal = false → ∀ name,
    (s.turnServer.authenticate name).isSome = true ↔ s.Admits env name

/-- The client `c` is in the room `r`, stored under `R`. -/
structure Rooms.InRoom (s : Rooms) (c : XID) (R : String) (r : Room) : Prop where
  at_ : s.connected.lookup c = some R
  ne : R ≠ ""
  room : s.rooms.lookup R = some r

namespace RoomOk

variable {R : String} {r : Room} (h : RoomOk R r)

include h

theorem ne_empty : R ≠ "" := by
  rintro rfl
  have := h.long
  simp [minRoomIDLength] at this

theorem seated {c : XID} (hc : c ∈ r.users) : Seated r.users c := by
  obtain ⟨u, hu⟩ := Finmap.mem_iff.mp hc
  exact ⟨u, hu, (h.user c u hu).2.1⟩

theorem host_mem {sid : XID} {x : RoomSession} (hx : r.sessions.lookup sid = some x) :
    x.host ∈ r.users := by
  obtain ⟨-, -, u, hu, -⟩ := h.sound sid x hx
  exact Finmap.mem_of_lookup_eq_some hu

theorem client_mem {sid : XID} {x : RoomSession} (hx : r.sessions.lookup sid = some x) :
    x.client ∈ r.users := (h.sound sid x hx).2.1

/-- The side of a session that is not `c` is a user. -/
theorem other_mem {c sid : XID} {x : RoomSession} (hx : r.sessions.lookup sid = some x) :
    x.other c ≠ c ∧ x.other c ∈ r.users := by
  have hne := (h.sound sid x hx).1
  unfold RoomSession.other
  split_ifs with hcl
  · exact ⟨fun e => hne (e.trans hcl.symm), h.host_mem hx⟩
  · exact ⟨hcl, h.client_mem hx⟩

end RoomOk

namespace Inv

variable {env : Env} {s : Rooms} (h : Inv env s) {c : XID} {R : String} {r : Room}

include h

theorem key_ne_empty (hr : s.rooms.lookup R = some r) : R ≠ "" := (h.room R r hr).ne_empty

theorem inRoom (hr : s.rooms.lookup R = some r) (hc : c ∈ r.users) : s.InRoom c R r :=
  ⟨(h.member c R (h.key_ne_empty hr)).mpr ⟨r, hr, hc⟩, h.key_ne_empty hr, hr⟩

theorem mem_users (hc : s.InRoom c R r) : c ∈ r.users := by
  obtain ⟨r', hr', hmem⟩ := (h.member c R hc.ne).mp hc.at_
  rw [hc.room] at hr'
  exact Option.some.inj hr' ▸ hmem

/-- A connected client is in no room or in one. -/
theorem idle_or_inRoom (hc : c ∈ s.connected) :
    s.connected.lookup c = some "" ∨ ∃ R r, s.InRoom c R r := by
  obtain ⟨R, hR⟩ := Finmap.mem_iff.mp hc
  by_cases hne : R = ""
  · exact Or.inl (hne ▸ hR)
  · obtain ⟨r, hr, -⟩ := (h.member c R hne).mp hR
    exact Or.inr ⟨R, r, hR, hne, hr⟩

/-- A client that is in no room is in the users of no room. -/
theorem notMem_of_idle (hc : s.connected.lookup c = some "") (hr : s.rooms.lookup R = some r) :
    c ∉ r.users := fun hmem => by
  have := (h.inRoom hr hmem).at_
  rw [hc] at this
  exact h.key_ne_empty hr (Option.some.inj this).symm

/-- A client is in one room at most. -/
theorem room_unique {R' : String} {r' : Room} (hr : s.rooms.lookup R = some r) (hc : c ∈ r.users)
    (hr' : s.rooms.lookup R' = some r') (hc' : c ∈ r'.users) : R = R' := by
  have h1 := (h.inRoom hr hc).at_
  have h2 := (h.inRoom hr' hc').at_
  exact Option.some.inj (h1.symm.trans h2)

end Inv

theorem Rooms.InRoom.unique {s : Rooms} {c : XID} {R R' : String} {r r' : Room}
    (hc : s.InRoom c R r) (hc' : s.InRoom c R' r') : R = R' ∧ r = r' := by
  obtain rfl := Option.some.inj (hc.at_.symm.trans hc'.at_)
  exact ⟨rfl, Option.some.inj (hc.room.symm.trans hc'.room)⟩

theorem Rooms.InRoom.currentRoom_eq {s : Rooms} {c : XID} {R : String} {r : Room}
    (hc : s.InRoom c R r) : s.currentRoom c = .ok (R, r) := by
  simp only [Rooms.currentRoom, hc.at_, hc.ne, if_false, hc.room]

theorem inRoom_of_currentRoom {s : Rooms} {c : XID} {R : String} {r : Room}
    (h : s.currentRoom c = .ok (R, r)) : s.InRoom c R r := by
  unfold Rooms.currentRoom at h
  split at h
  · cases h
  · rename_i roomID hc
    split_ifs at h with hne
    split at h
    · cases h
    · rename_i room hr
      cases h
      exact ⟨hc, hne, hr⟩

theorem currentRoom_of_idle {s : Rooms} {c : XID} (hc : s.connected.lookup c = some "") :
    s.currentRoom c = .error "not in a room" := by
  simp only [Rooms.currentRoom, hc, if_true]

end Screego
