import Screego.Run

/-!
# The counters

`ws/prometheus.go`: how many rooms, users and sessions there have been.

* `Rooms.userCount`, `Rooms.sessionCount`: the users and the sessions of all rooms;
* `Counted`: what was counted in is what was counted out and what is there;
* `Counted.store`: a room is replaced by another;
* **`Change.counted`**, **`counters_are_conserved`**.
-/

set_option autoImplicit false

namespace Screego

open Lib Outgoing

variable {env : Env} {ch : Choice} {s t : Rooms} {info : ClientInfo} {e : Event} {sent : List Send}
  {c : XID} {R : String} {r r' : Screego.Room}

/-- The users of all rooms. -/
def Rooms.userCount (s : Rooms) : ℕ := GoMap.total (fun r => GoMap.len r.users) s.rooms

/-- The sessions of all rooms. -/
def Rooms.sessionCount (s : Rooms) : ℕ := GoMap.total (fun r => GoMap.len r.sessions) s.rooms

/-- **What was counted in is what was counted out and what is there.** -/
structure Counted (s : Rooms) : Prop where
  rooms : s.counters.roomsCreated = s.counters.roomsClosed + GoMap.len s.rooms
  users : s.counters.usersJoined = s.counters.usersLeft + s.userCount
  sessions : s.counters.sessionCreated = s.counters.sessionClosed + s.sessionCount

/-! ## Lengths -/

/-- Sessions that begin have new ids. -/
theorem len_insertAll_new (h : Inv env s) (hr : s.rooms.lookup R = some r)
    (ps : List RoomSession) :
    GoMap.len (GoMap.insertAll r.sessions (newEntries env s.drawn ps)) =
      GoMap.len r.sessions + (newEntries env s.drawn ps).length :=
  GoMap.len_insertAll (nodup_newEntries _ _) fun _ ha hmem =>
    not_drawn_of_mem_newEntries ha (h.session R r _ hr hmem)

/-- Sessions that end, chosen by a loop over the sessions of the room. -/
theorem len_eraseAll_filter (o : RangeOrder XID) (p : XID × RoomSession → Bool)
    (r : Screego.Room) :
    GoMap.len (GoMap.eraseAll r.sessions (((range o r.sessions).filter p).map Prod.fst)) +
      ((range o r.sessions).filter p).length = GoMap.len r.sessions := by
  have hnodup : (((range o r.sessions).filter p).map Prod.fst).Nodup :=
    (List.filter_sublist.map _).nodup (nodup_range_keys o r.sessions)
  have hlen := GoMap.len_eraseAll (m := r.sessions) hnodup fun sid hsid => by
    obtain ⟨a, ha, rfl⟩ := List.mem_map.mp hsid
    exact Finmap.mem_of_lookup_eq_some ((mem_range _ _).mp (List.mem_of_mem_filter ha))
  rwa [List.length_map] at hlen

/-! ## One message -/

/-- **The room `r` is replaced by `r'`**, and what comes to it or goes is counted. -/
theorem Counted.store (h : Counted s) (hr : s.rooms.lookup R = some r)
    (hrooms : t.rooms = s.rooms.insert R r')
    (hcreated : t.counters.roomsCreated = s.counters.roomsCreated)
    (hclosed : t.counters.roomsClosed = s.counters.roomsClosed)
    (husers : t.counters.usersJoined + s.counters.usersLeft + GoMap.len r.users =
      s.counters.usersJoined + t.counters.usersLeft + GoMap.len r'.users)
    (hsessions : t.counters.sessionCreated + s.counters.sessionClosed + GoMap.len r.sessions =
      s.counters.sessionCreated + t.counters.sessionClosed + GoMap.len r'.sessions) :
    Counted t := by
  have hlen := GoMap.len_insert_of_mem (Finmap.mem_of_lookup_eq_some hr) r'
  have hu := GoMap.total_insert (fun r => GoMap.len r.users) s.rooms R r'
  have hx := GoMap.total_insert (fun r => GoMap.len r.sessions) s.rooms R r'
  rw [hr, Option.elim_some, ← hrooms] at hu hx
  rw [← hrooms] at hlen
  obtain ⟨h₁, h₂, h₃⟩ := h
  unfold Rooms.userCount at h₂
  unfold Rooms.sessionCount at h₃
  refine ⟨?_, ?_, ?_⟩
  · omega
  · unfold Rooms.userCount
    omega
  · unfold Rooms.sessionCount
    omega

theorem Counted.create (h : Counted s) (hR : R ∉ s.rooms) (q : Create) :
    Counted ((s.seat c R).founded.opened env ch R (createRoom env info R q) []) := by
  have hnone := Finmap.lookup_eq_none.mpr hR
  have hlen := GoMap.len_insert_of_notMem hR (createRoom env info R q)
  have hu := GoMap.total_insert (fun r => GoMap.len r.users) s.rooms R (createRoom env info R q)
  have hx := GoMap.total_insert (fun r => GoMap.len r.sessions) s.rooms R (createRoom env info R q)
  rw [hnone, Option.elim_none] at hu hx
  have hone : GoMap.len (createRoom env info R q).users = 1 :=
    GoMap.len_insert_of_notMem Finmap.notMem_empty _
  have hzero : GoMap.len (createRoom env info R q).sessions = 0 := rfl
  obtain ⟨h₁, h₂, h₃⟩ := h
  unfold Rooms.userCount at h₂
  unfold Rooms.sessionCount at h₃
  refine ⟨?_, ?_, ?_⟩
  · change s.counters.roomsCreated + 1 = s.counters.roomsClosed +
      GoMap.len (s.rooms.insert R (createRoom env info R q))
    omega
  · change s.counters.usersJoined + 1 = s.counters.usersLeft +
      GoMap.total (fun r => GoMap.len r.users) (s.rooms.insert R (createRoom env info R q))
    omega
  · change s.counters.sessionCreated = s.counters.sessionClosed +
      GoMap.total (fun r => GoMap.len r.sessions) (s.rooms.insert R (createRoom env info R q))
    omega

/-- **A room is closed** with the user that leaves, the other users and all sessions. -/
theorem Counted.finished (h : Counted s) (hr : s.rooms.lookup R = some r) (hc : c ∈ r.users) :
    Counted (s.finished env ch c R r) := by
  have hlen := GoMap.len_erase (Finmap.mem_of_lookup_eq_some hr)
  have hu := GoMap.total_erase (fun r => GoMap.len r.users) hr
  have hx := GoMap.total_erase (fun r => GoMap.len r.sessions) hr
  have hothers : GoMap.len (r.without c).users + 1 = GoMap.len r.users := GoMap.len_erase hc
  have hending := len_eraseAll_filter (ch.order .disconnected) (fun a => a.2.involves c) r
  have hremaining : (r.remaining ch c).length =
      GoMap.len (GoMap.eraseAll r.sessions ((r.ending ch c).map Prod.fst)) := length_range _ _
  obtain ⟨h₁, h₂, h₃⟩ := h
  unfold Rooms.userCount at h₂
  unfold Rooms.sessionCount at h₃
  simp only [Room.ending] at hremaining
  refine ⟨?_, ?_, ?_⟩
  · change s.counters.roomsCreated = s.counters.roomsClosed + 1 + GoMap.len (s.rooms.erase R)
    omega
  · change s.counters.usersJoined = s.counters.usersLeft + 1 + GoMap.len (r.without c).users +
      GoMap.total (fun r => GoMap.len r.users) (s.rooms.erase R)
    omega
  · change s.counters.sessionCreated = s.counters.sessionClosed + (r.ending ch c).length +
      (r.remaining ch c).length + GoMap.total (fun r => GoMap.len r.sessions) (s.rooms.erase R)
    simp only [Room.ending]
    omega

theorem Departs.counted (hs : Counted s) {d : Disconnected}
    (hd : Departs env ch s c d t sent) : Counted t := by
  cases hd with
  | idle hc => exact ⟨hs.rooms, hs.users, hs.sessions⟩
  | @stays R r u hin hu hcl =>
    have hothers : GoMap.len (r.without c).users + 1 = GoMap.len r.users :=
      GoMap.len_erase (Finmap.mem_of_lookup_eq_some hu)
    have hending := len_eraseAll_filter (ch.order .disconnected) (fun a => a.2.involves c) r
    refine hs.store hin.room rfl rfl rfl ?_ ?_
    · simp only [Rooms.left, Rooms.closed, Rooms.unseat, Rooms.drop]
      omega
    · simp only [Rooms.left, Rooms.closed, Rooms.unseat, Rooms.drop, Room.without, Room.ending,
        List.length_map]
      omega
  | closes hin hu hcl => exact hs.finished hin.room (Finmap.mem_of_lookup_eq_some hu)

/-- **Every message is counted.** -/
theorem Change.counted (h : Inv env s) (hs : Counted s) (hch : Change env ch s info e t sent) :
    Counted t := by
  cases hch with
  | skip | name | stale | relay => exact hs
  | create hc hR hr ha => exact hs.create hr _
  | @join e R v r r' v4 v6 A hc he hr hget hr' hA =>
    subst hr' hA
    have hnew : GoMap.len (r.put (joinUser env ch info r v)).users = GoMap.len r.users + 1 :=
      GoMap.len_insert_of_notMem (h.notMem_of_idle hc hr) _
    have hbegun := len_insertAll_new h hr
      (joinPairs ch info.id (r.put (joinUser env ch info r v)).users)
    refine hs.store hr rfl rfl rfl ?_ ?_
    · simp only [Rooms.opened, Rooms.seat]
      omega
    · simp only [Rooms.opened, Rooms.seat, Room.put] at hbegun ⊢
      omega
  | bounce =>
    refine ⟨hs.rooms, ?_, hs.sessions⟩
    have hu := hs.users
    change s.counters.usersJoined + 1 = s.counters.usersLeft + 1 + s.userCount
    omega
  | @share R r r' u v4 v6 A hin hu hget hr' hA =>
    subst hr' hA
    have hid := ((h.room R r hin.room).user _ _ hu).1
    have hsame : GoMap.len (r.put { u with streaming := true }).users = GoMap.len r.users :=
      GoMap.len_insert_of_mem (hid ▸ h.mem_users hin) _
    have hbegun := len_insertAll_new h hin.room
      (sharePairs ch info.id (r.put { u with streaming := true }).users)
    refine hs.store hin.room rfl rfl rfl ?_ ?_
    · simp only [Rooms.opened]
      omega
    · simp only [Rooms.opened, Room.put] at hbegun ⊢
      omega
  | @unshare R r r' u hin hu hr' =>
    subst hr'
    have hid := ((h.room R r hin.room).user _ _ hu).1
    have hsame : GoMap.len (r.put { u with streaming := false }).users = GoMap.len r.users :=
      GoMap.len_insert_of_mem (hid ▸ h.mem_users hin) _
    have hended := len_eraseAll_filter (ch.order .stopShare) (fun a => a.2.host = info.id) r
    refine hs.store hin.room rfl rfl rfl ?_ ?_
    · simp only [Rooms.closed]
      omega
    · simp only [Rooms.closed, Room.put, Room.hosted, List.length_map]
      omega
  | depart d hd => exact hd.counted hs

/-! ## Every run -/

/-- **The counters are conserved**: rooms, users and sessions are created or joined, closed or left,
or still there. -/
theorem counters_are_conserved (env : Env) : (server env).Always fun w =>
    w.rooms.counters.roomsCreated = w.rooms.counters.roomsClosed + GoMap.len w.rooms.rooms ∧
    w.rooms.counters.usersJoined = w.rooms.counters.usersLeft +
      GoMap.total (fun r => GoMap.len r.users) w.rooms.rooms ∧
    w.rooms.counters.sessionCreated = w.rooms.counters.sessionClosed +
      GoMap.total (fun r => GoMap.len r.sessions) w.rooms.rooms := by
  have hcounted : (server env).Always fun w => w.Ok env ∧ Counted w.rooms := by
    refine server_always ⟨rfl, rfl, rfl⟩ fun ch w i w' h hs hch _ => ?_
    cases hch with
    | upgrade => exact ⟨hs.rooms, hs.users, hs.sessions⟩
    | stranger | count => exact hs
    | message hc hch => exact hch.counted h.inv hs
  exact hcounted.mono fun w hw => ⟨hw.2.rooms, hw.2.users, hw.2.sessions⟩

end Screego
