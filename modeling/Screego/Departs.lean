import Screego.Inv

/-!
# Departures

What the handlers do to the rooms, as updates of the whole state, and `Disconnected.executeNoError`
in these terms.

* `Rooms.opened`, `Rooms.closed`: sessions begin or end in a room;
* `Rooms.left`, `Rooms.finished`: a client leaves a room, which goes on or is closed;
* `Departs`: the effect of `Disconnected.executeNoError`; **`executeNoError_departs`**;
* `executeNoError_put`: the flags of the user that leaves make no difference;
* **`Departs.state_eq`**: nor does the order of the loops.
-/

set_option autoImplicit false

namespace Screego

open Lib Outgoing

/-! ## Updates -/

section Updates

variable (env : Env) (ch : Choice) (s : Rooms) (c : XID) (R : String) (r : Room)

/-- The room `r` is put under `R`, with the new sessions `A`. -/
def Rooms.opened (A : List (XID × RoomSession)) : Rooms where
  rooms := s.rooms.insert R { r with sessions := GoMap.insertAll r.sessions A }
  connected := s.connected
  turnServer := A.foldl (grantSession env ch r.mode r.users) s.turnServer
  counters := { s.counters with sessionCreated := s.counters.sessionCreated + A.length }
  drawn := s.drawn + A.length

/-- The room `r` is put under `R`, without the sessions `ids`. -/
def Rooms.closed (ids : List XID) : Rooms where
  rooms := s.rooms.insert R { r with sessions := GoMap.eraseAll r.sessions ids }
  connected := s.connected
  turnServer := ids.foldl (revokeSession env r.mode) s.turnServer
  counters := { s.counters with sessionClosed := s.counters.sessionClosed + ids.length }
  drawn := s.drawn

/-- The client `c` is in the room `R`. -/
def Rooms.seat : Rooms :=
  { s with
    connected := s.connected.insert c R
    counters := { s.counters with usersJoined := s.counters.usersJoined + 1 } }

/-- The client `c` is gone. -/
def Rooms.drop : Rooms := { s with connected := s.connected.erase c }

/-- The client `c`, which was in a room, is gone. -/
def Rooms.unseat : Rooms :=
  { s.drop c with counters := { s.counters with usersLeft := s.counters.usersLeft + 1 } }

/-- The room with the user `u`, new or changed. -/
def Room.put (u : User) : Room := { r with users := r.users.insert u.id u }

/-- The room without the user `c`. -/
def Room.without : Room := { r with users := r.users.erase c }

/-- The sessions that end when `c` leaves. -/
def Room.ending : List (XID × RoomSession) :=
  (range (ch.order .disconnected) r.sessions).filter fun a => a.2.involves c

/-- `c` leaves the room, which goes on. -/
def Rooms.left : Rooms :=
  (s.unseat c).closed env R (r.without c) ((r.ending ch c).map Prod.fst)

/-- The members that are removed when `c` leaves the room and the room is closed. -/
def Room.members : List (XID × User) := range (ch.order .ownerLeft) (r.without c).users

/-- The sessions left to `closeRoom` when `c` has left. -/
def Room.remaining : List (XID × RoomSession) :=
  range (ch.order .closeRoom) (GoMap.eraseAll r.sessions ((r.ending ch c).map Prod.fst))

/-- `c` leaves the room and the room is closed. -/
def Rooms.finished : Rooms where
  rooms := s.rooms.erase R
  connected := GoMap.eraseAll (s.connected.erase c) ((r.members ch c).map fun m => m.2.id)
  turnServer := ((r.remaining ch c).map Prod.fst).foldl (revokeSession env r.mode)
    (((r.ending ch c).map Prod.fst).foldl (revokeSession env r.mode) s.turnServer)
  counters := { s.counters with
    usersLeft := s.counters.usersLeft + 1 + GoMap.len (r.without c).users
    sessionClosed := s.counters.sessionClosed + (r.ending ch c).length + (r.remaining ch c).length
    roomsClosed := s.counters.roomsClosed + 1 }
  drawn := s.drawn

/-- The message that closes the writer of `c`. -/
def Disconnected.close (e : Disconnected) : Send := .write ⟨c⟩ (.closeWriter e.code e.reason)

/-- The messages to the members of a room whose owner has left. -/
def ownerLeft (M : List (XID × User)) : List Send :=
  M.map fun m => .write m.2.write (.closeWriter closeNormalClosure closeOwnerLeft)

/-- The departure of `c`, whose user is `u`, closes the room. -/
def Room.closesWith (u : User) : Prop :=
  (u.owner && r.closeOnOwnerLeave && !(r.without c).hasVisitor ch u.visitorID) = true ∨
    GoMap.len (r.without c).users = 0

instance (u : User) : Decidable (r.closesWith ch c u) := by
  unfold Room.closesWith
  infer_instance

end Updates

/-! ## Departures -/

/-- **What `Disconnected.executeNoError` does** with a connected client. -/
inductive Departs (env : Env) (ch : Choice) (s : Rooms) (c : XID) (e : Disconnected) :
    Rooms → List Send → Prop
  | idle (hc : s.connected.lookup c = some "") : Departs env ch s c e (s.drop c) [e.close c]
  | stays {R : String} {r : Room} {u : User} (hc : s.InRoom c R r)
      (hu : r.users.lookup c = some u) (h : ¬ r.closesWith ch c u) :
      Departs env ch s c e (s.left env ch c R r)
        (e.close c :: endShares (RoomSession.other c) (r.ending ch c) ++
          (r.without c).notifyInfoChanged ch)
  | closes {R : String} {r : Room} {u : User} (hc : s.InRoom c R r)
      (hu : r.users.lookup c = some u) (h : r.closesWith ch c u) :
      Departs env ch s c e (s.finished env ch c R r)
        (e.close c :: endShares (RoomSession.other c) (r.ending ch c) ++
          ownerLeft (r.members ch c))

section Departures

variable {env : Env} {ch : Choice} {s : Rooms} {R : String} {r : Room} {info : ClientInfo}
  {e : Disconnected}

theorem executeNoError_idle (hw : info.write = ⟨info.id⟩)
    (hc : s.connected.lookup info.id = some "") :
    e.executeNoError env ch s info = (s.drop info.id, [e.close info.id]) := by
  simp only [Disconnected.executeNoError, hc, Option.getD_some, if_true, hw]
  rfl

theorem closeRoom_store (s : Rooms) :
    (s.store R r).closeRoom env ch R =
      { s with
        rooms := s.rooms.erase R
        turnServer := ((range (ch.order .closeRoom) r.sessions).map Prod.fst).foldl
          (revokeSession env r.mode) s.turnServer
        counters := { s.counters with
          usersLeft := s.counters.usersLeft + GoMap.len r.users
          sessionClosed := s.counters.sessionClosed + (range (ch.order .closeRoom) r.sessions).length
          roomsClosed := s.counters.roomsClosed + 1 } } := by
  simp only [Rooms.closeRoom, Rooms.store, Finmap.lookup_insert, foldl_closeSession, Live.closed,
    List.length_map, GoMap.erase_insert_self]

/-- The user ids of a list of members. -/
theorem foldl_erase_id (M : List (XID × User)) (connected : GoMap XID String) :
    M.foldl (fun m member => m.erase member.2.id) connected =
      GoMap.eraseAll connected (M.map fun m => m.2.id) := by
  rw [GoMap.eraseAll, List.foldl_map]

/-- An owner's departure and the last one end alike: the last user leaves nobody to remove. -/
theorem afterLeave_eq (st : Live) (u : User) :
    st.afterLeave env ch R u =
      let M := range (ch.order .ownerLeft) st.room.users
      if (u.owner && st.room.closeOnOwnerLeave && !st.room.hasVisitor ch u.visitorID) = true ∨
          GoMap.len st.room.users = 0 then
        (({ st.rooms with
            connected := GoMap.eraseAll st.rooms.connected (M.map fun m => m.2.id) } : Rooms).store R
              st.room |>.closeRoom env ch R, st.sent ++ ownerLeft M)
      else (st.rooms.store R st.room, st.sent ++ st.room.notifyInfoChanged ch) := by
  simp only [Live.afterLeave, foldl_erase_id]
  by_cases ho : (u.owner && st.room.closeOnOwnerLeave && !st.room.hasVisitor ch u.visitorID) = true
  · rw [if_pos ho, if_pos (Or.inl ho)]
    rfl
  rw [if_neg ho]
  by_cases hl : GoMap.len st.room.users = 0
  · have hM : range (ch.order .ownerLeft) st.room.users = [] := by
      rw [← List.length_eq_zero_iff, length_range, hl]
    rw [if_pos hl, if_pos (Or.inr hl), hM]
    simp [ownerLeft]
  · rw [if_neg hl, if_neg (not_or.mpr ⟨ho, hl⟩)]

/-- **A client in a room is removed.** The sessions of the room have two sides, and those of the
client have their other side among the users that stay. -/
theorem executeNoError_inRoom {u : User} (hw : info.write = ⟨info.id⟩) (hc : s.InRoom info.id R r)
    (hu : r.users.lookup info.id = some u)
    (hne : ∀ sid x, r.sessions.lookup sid = some x → x.host ≠ x.client)
    (hpeer : ∀ sid x, r.sessions.lookup sid = some x → x.involves info.id = true →
      Seated (r.without info.id).users (x.other info.id)) :
    e.executeNoError env ch s info =
      if r.closesWith ch info.id u then
        (s.finished env ch info.id R r,
          e.close info.id :: endShares (RoomSession.other info.id) (r.ending ch info.id) ++
            ownerLeft (r.members ch info.id))
      else
        (s.left env ch info.id R r,
          e.close info.id :: endShares (RoomSession.other info.id) (r.ending ch info.id) ++
            (r.without info.id).notifyInfoChanged ch) := by
  have hloop := foldl_disconnectedLoop env info.id
    (range (ch.order .disconnected) r.sessions)
    ⟨r.without info.id, s.unseat info.id, [e.close info.id]⟩
    (fun a ha => hne a.1 a.2 ((mem_range _ _).mp ha))
    (fun a ha => hpeer a.1 a.2 ((mem_range _ _).mp ha))
  have hdef : e.executeNoError env ch s info =
      ((range (ch.order .disconnected) r.sessions).foldl (disconnectedLoop env info.id)
        ⟨r.without info.id, s.unseat info.id, [e.close info.id]⟩).afterLeave env ch R u := by
    unfold Disconnected.executeNoError
    rw [hc.at_, Option.getD_some]
    simp only [hc.ne, if_false, hc.room, hu, hw]
    rfl
  rw [hdef, hloop, afterLeave_eq]
  by_cases h : r.closesWith ch info.id u
  · refine (if_pos h).trans ?_
    rw [closeRoom_store, if_pos h]
    simp only [Rooms.finished, Live.closed, List.length_map]
    rfl
  · refine (if_neg h).trans ?_
    rw [if_neg h]
    rfl

/-- The other sides of the sessions of `c` are among the users that stay. -/
theorem RoomOk.seated_other (h : RoomOk R r) {c sid : XID} {x : RoomSession}
    (hx : r.sessions.lookup sid = some x) : Seated (r.without c).users (x.other c) := by
  obtain ⟨hne, hmem⟩ := h.other_mem (c := c) hx
  obtain ⟨u, hu, hw⟩ := h.seated hmem
  exact ⟨u, by rw [Room.without, Finmap.lookup_erase_ne hne, hu], hw⟩

/-- A new or changed user listens on its own channel, like the others. -/
theorem RoomOk.put_user (h : RoomOk R r) {u : User} (hw : u.write = ⟨u.id⟩) {c : XID} {u' : User}
    (hu : (r.put u).users.lookup c = some u') : u'.id = c ∧ u'.write = ⟨c⟩ := by
  rcases GoMap.lookup_insert_eq_some.mp hu with ⟨rfl, rfl⟩ | ⟨-, hu⟩
  · exact ⟨rfl, hw⟩
  · obtain ⟨hid, hw', -⟩ := h.user c u' hu
    exact ⟨hid, hw'⟩

theorem RoomOk.seated_put (h : RoomOk R r) {u : User} (hw : u.write = ⟨u.id⟩) {c : XID}
    (hc : c ∈ (r.put u).users) : Seated (r.put u).users c := by
  obtain ⟨u', hu⟩ := Finmap.mem_iff.mp hc
  exact ⟨u', hu, (h.put_user hw hu).2⟩

theorem RoomOk.seated_range (h : RoomOk R r) {u : User} (hw : u.write = ⟨u.id⟩) {e : XID × User}
    {o : RangeOrder XID} (he : e ∈ range o (r.put u).users) : Seated (r.put u).users e.2.id := by
  have hu := (mem_range _ _).mp he
  rw [(h.put_user hw hu).1]
  exact ⟨e.2, hu, (h.put_user hw hu).2⟩

variable (ch e) in
/-- **Disconnecting a client.** -/
theorem executeNoError_departs (h : Inv env s) (hw : info.write = ⟨info.id⟩)
    (hc : info.id ∈ s.connected) :
    Departs env ch s info.id e (e.executeNoError env ch s info).1
      (e.executeNoError env ch s info).2 := by
  rcases h.idle_or_inRoom hc with hidle | ⟨R, r, hin⟩
  · rw [executeNoError_idle hw hidle]
    exact .idle hidle
  obtain ⟨u, hu⟩ := Finmap.mem_iff.mp (h.mem_users hin)
  have hR := h.room R r hin.room
  rw [executeNoError_inRoom hw hin hu (fun sid x hx => (hR.sound sid x hx).1)
    fun sid x hx _ => hR.seated_other hx]
  split_ifs with hcl
  · exact .closes hin hu hcl
  · exact .stays hin hu hcl

/-- A change of the flags of the user that is removed makes no difference. -/
theorem executeNoError_put (h : Inv env s) (hw : info.write = ⟨info.id⟩) (hc : s.InRoom info.id R r)
    {u : User} (u' : User) (hu : r.users.lookup info.id = some u) (hid : u'.id = info.id)
    (ho : u'.owner = u.owner) (hv : u'.visitorID = u.visitorID) :
    e.executeNoError env ch (s.store R (r.put u')) info = e.executeNoError env ch s info := by
  have hR := h.room R r hc.room
  have hwithout : (r.put u').without info.id = r.without info.id := by
    simp only [Room.without, Room.put, hid, GoMap.erase_insert_self]
  have hin : (s.store R (r.put u')).InRoom info.id R (r.put u') :=
    ⟨hc.at_, hc.ne, Finmap.lookup_insert _⟩
  have hu' : (r.put u').users.lookup info.id = some u' := by
    rw [Room.put, ← hid, Finmap.lookup_insert]
  have hcl : (r.put u').closesWith ch info.id u' ↔ r.closesWith ch info.id u := by
    simp only [Room.closesWith, hwithout, ho, hv]
    rfl
  rw [executeNoError_inRoom hw hc hu (fun sid x hx => (hR.sound sid x hx).1)
    fun sid x hx _ => hR.seated_other hx]
  rw [executeNoError_inRoom hw hin hu' (fun sid x hx => (hR.sound sid x hx).1) fun sid x hx _ => by
    rw [hwithout]
    exact hR.seated_other hx]
  have hleft : (s.store R (r.put u')).left env ch info.id R (r.put u') =
      s.left env ch info.id R r := by
    simp only [Rooms.left, hwithout, Rooms.closed, Rooms.unseat, Rooms.drop, Rooms.store,
      Finmap.insert_insert]
    rfl
  have hfinished : (s.store R (r.put u')).finished env ch info.id R (r.put u') =
      s.finished env ch info.id R r := by
    simp only [Rooms.finished, Room.members, hwithout, Rooms.store, GoMap.erase_insert_self]
    rfl
  simp only [hcl, hleft, hfinished, Room.members, hwithout]
  rfl

end Departures

/-! ## The order of the loops -/

section Orders

variable {env : Env} {ch ch' : Choice} {s t t' : Rooms} {c : XID} {R : String} {r : Room}

instance (mode : ConnectionMode) : RightCommutative (revokeSession env mode) where
  right_comm turn id id' := by
    unfold revokeSession
    split_ifs
    · cases turn with
      | external => rfl
      | internal lookup =>
        simp only [Turn.Server.disallow]
        refine congrArg _ (Finmap.ext_lookup fun name => ?_)
        simp only [GoMap.lookup_erase_ite]
        split_ifs <;> rfl
    · rfl

variable (ch ch') in
theorem perm_ending (r : Room) (c : XID) : (r.ending ch c).Perm (r.ending ch' c) :=
  (perm_range _ _ _).filter _

variable (ch ch') in
theorem eraseAll_ending {V : Type} (m : GoMap XID V) (r : Room) (c : XID) :
    GoMap.eraseAll m ((r.ending ch c).map Prod.fst) =
      GoMap.eraseAll m ((r.ending ch' c).map Prod.fst) :=
  GoMap.eraseAll_congr m fun _ => ((perm_ending ch ch' r c).map _).mem_iff

variable (ch ch') in
theorem perm_remaining (r : Room) (c : XID) : (r.remaining ch c).Perm (r.remaining ch' c) := by
  rw [Room.remaining, Room.remaining, eraseAll_ending ch ch']
  exact perm_range _ _ _

variable (ch ch') in
theorem closesWith_iff (r : Room) (c : XID) (u : User) :
    r.closesWith ch c u ↔ r.closesWith ch' c u := by
  have hvisitor : (r.without c).hasVisitor ch u.visitorID =
      (r.without c).hasVisitor ch' u.visitorID := by
    rw [Bool.eq_iff_iff, Room.hasVisitor_iff, Room.hasVisitor_iff]
  rw [Room.closesWith, Room.closesWith, hvisitor]

variable (ch ch') in
theorem left_eq (s : Rooms) (c : XID) (R : String) (r : Room) :
    s.left env ch c R r = s.left env ch' c R r := by
  have hperm := (perm_ending ch ch' r c).map Prod.fst
  simp only [Rooms.left, Rooms.closed, eraseAll_ending ch ch', hperm.foldl_eq, hperm.length_eq]

variable (ch ch') in
theorem finished_eq (s : Rooms) (c : XID) (R : String) (r : Room) :
    s.finished env ch c R r = s.finished env ch' c R r := by
  have hending := perm_ending ch ch' r c
  have hremaining := perm_remaining ch ch' r c
  have hmembers : GoMap.eraseAll (s.connected.erase c) ((r.members ch c).map fun m => m.2.id) =
      GoMap.eraseAll (s.connected.erase c) ((r.members ch' c).map fun m => m.2.id) :=
    GoMap.eraseAll_congr _ fun _ => ((perm_range _ _ _).map _).mem_iff
  simp only [Rooms.finished, hmembers, (hending.map Prod.fst).foldl_eq,
    (hremaining.map Prod.fst).foldl_eq, hending.length_eq, hremaining.length_eq]

/-- **A departure leaves one state**, whatever the order of the loops and the reason given. -/
theorem Departs.state_eq {d d' : Disconnected} {sent sent' : List Send}
    (h : Departs env ch s c d t sent) (h' : Departs env ch' s c d' t' sent') : t = t' := by
  have hidle : ∀ {R r}, s.connected.lookup c = some "" → ¬ s.InRoom c R r := fun hc hin =>
    hin.ne (Option.some.inj (hin.at_.symm.trans hc))
  cases h with
  | idle hc =>
    cases h' with
    | idle => rfl
    | stays hin | closes hin => exact absurd hin (hidle hc)
  | @stays R r u hin hu hcl =>
    cases h' with
    | idle hc => exact absurd hin (hidle hc)
    | stays hin' hu' hcl' =>
      obtain ⟨rfl, rfl⟩ := hin.unique hin'
      exact left_eq ch ch' s c R r
    | closes hin' hu' hcl' =>
      obtain ⟨rfl, rfl⟩ := hin.unique hin'
      obtain rfl := Option.some.inj (hu.symm.trans hu')
      exact absurd ((closesWith_iff ch ch' r c u).mpr hcl') hcl
  | @closes R r u hin hu hcl =>
    cases h' with
    | idle hc => exact absurd hin (hidle hc)
    | stays hin' hu' hcl' =>
      obtain ⟨rfl, rfl⟩ := hin.unique hin'
      obtain rfl := Option.some.inj (hu.symm.trans hu')
      exact absurd ((closesWith_iff ch ch' r c u).mp hcl) hcl'
    | closes hin' hu' hcl' =>
      obtain ⟨rfl, rfl⟩ := hin.unique hin'
      exact finished_eq ch ch' s c R r

end Orders

end Screego
