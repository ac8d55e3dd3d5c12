import Screego.Departs

/-!
# What one message can do

The body of the main loop in closed form: under the invariant a message of a client does one of
eleven things to the rooms, and every case says which messages are handed out.

* `joinUser`, `createRoom`: what a request to enter a room adds to it;
* `Signal`: the four kinds of signalling messages;
* `Change`: the effect of one message; `Executed`: how its handler ends, before the main loop
  removes a client whose event failed;
* `Asks`: what an event asks for, whatever is chosen while it is handled;
* **`execute_executed`**, **`handle_change`**: the handlers and the main loop neither crash nor do
  anything else.
-/

set_option autoImplicit false

namespace Screego

open Lib Outgoing

/-! ## Requests -/

/-- The event asks to join the room `R` under the visitor ID `v`. -/
def Event.Joins (R v : String) : Event → Prop
  | .join e => normalizeRoomID e.id = .ok R ∧ e.visitorID = v
  | .create e => e.joinIfExist = true ∧ normalizeRoomID e.id = .ok R ∧ e.visitorID = v
  | _ => False

section Requests

variable (env : Env) (ch : Choice) (info : ClientInfo)

/-- The user `Join.Execute` adds to the room `r`. -/
def joinUser (r : Room) (v : String) : User where
  id := info.id
  visitorID := normalizeVisitorID env v info.id
  addr := info.addr
  name := r.nextGuestName ch (normalizeVisitorID env v info.id)
  streaming := false
  owner := r.visitorOwner ch (normalizeVisitorID env v info.id)
  write := info.write

/-- The new user owns the room with the other connections of its visitor. -/
theorem joinUser_owner (env : Env) (ch : Choice) (info : ClientInfo) (r : Room) (v : String) :
    (joinUser env ch info r v).owner = r.visitorOwner ch (joinUser env ch info r v).visitorID := by
  simp only [joinUser]

/-- The sessions a user that stops to share is the host of. -/
def Room.hosted (c : XID) (r : Room) : List (XID × RoomSession) :=
  (range (ch.order .stopShare) r.sessions).filter fun a => a.2.host = c

/-- The user `Create.Execute` puts into a new room. -/
def createUser (e : Create) : User where
  id := info.id
  visitorID := normalizeVisitorID env e.visitorID info.id
  addr := info.addr
  name := guestName 1
  streaming := false
  owner := true
  write := info.write

/-- The room `Create.Execute` makes. -/
def createRoom (R : String) (e : Create) : Room where
  id := R
  closeOnOwnerLeave := e.closeOnOwnerLeave
  mode := e.mode
  users := (∅ : GoMap XID User).insert info.id (createUser env info e)
  sessions := ∅

/-- A room was created. -/
def Rooms.founded (s : Rooms) : Rooms :=
  { s with counters := { s.counters with roomsCreated := s.counters.roomsCreated + 1 } }

end Requests

/-- The four kinds of signalling messages. -/
inductive Signal where
  | hostOffer
  | hostICE
  | clientAnswer
  | clientICE

namespace Signal

/-- The event of the kind. -/
def event : Signal → P2PMessage → Event
  | hostOffer => .hostOffer
  | hostICE => .hostICE
  | clientAnswer => .clientAnswer
  | clientICE => .clientICE

/-- The outgoing message of the kind. -/
def message : Signal → P2PMessage → Message
  | hostOffer => .hostOffer
  | hostICE => .hostICE
  | clientAnswer => .clientAnswer
  | clientICE => .clientICE

/-- The side of a session that may send the kind. -/
def sender : Signal → RoomSession → XID
  | hostOffer => RoomSession.host
  | hostICE => RoomSession.host
  | clientAnswer => RoomSession.client
  | clientICE => RoomSession.client

/-- The side of a session that gets the kind. -/
def receiver : Signal → RoomSession → XID
  | hostOffer => RoomSession.client
  | hostICE => RoomSession.client
  | clientAnswer => RoomSession.host
  | clientICE => RoomSession.host

theorem execute_event (env : Env) (ch : Choice) (s : Rooms) (current : ClientInfo) (k : Signal)
    (m : P2PMessage) :
    (k.event m).execute env ch s current = relay env k.sender k.receiver k.message m s current := by
  cases k <;> rfl

end Signal

/-! ## One message -/

/-- **What the main loop does with a message** of the client `info`: the rooms after it, and the
messages handed out. -/
inductive Change (env : Env) (ch : Choice) (s : Rooms) (info : ClientInfo) :
    Event → Rooms → List Send → Prop
  /-- The message of a client that is gone. -/
  | skip {e : Event} (hc : info.id ∉ s.connected) : Change env ch s info e s []
  | name {R : String} {r : Room} (n : String) (hc : s.InRoom info.id R r) :
      Change env ch s info (.name n) s (r.notifyInfoChanged ch)
  /-- A signalling message for a session that is not there. -/
  | stale {R : String} {r : Room} (k : Signal) (m : P2PMessage) (hc : s.InRoom info.id R r)
      (hx : m.sid ∉ r.sessions) : Change env ch s info (k.event m) s []
  | relay {R : String} {r : Room} {x : RoomSession} (k : Signal) (m : P2PMessage)
      (hc : s.InRoom info.id R r) (hx : r.sessions.lookup m.sid = some x)
      (hs : k.sender x = info.id) :
      Change env ch s info (k.event m) s [.write ⟨k.receiver x⟩ (k.message m)]
  | create {R : String} {e : Create} (hc : s.connected.lookup info.id = some "")
      (hR : normalizeRoomID e.id = .ok R) (hr : R ∉ s.rooms) (ha : e.authError env info = none) :
      Change env ch s info (.create e)
        ((s.seat info.id R).founded.opened env ch R (createRoom env info R e) [])
        ((createRoom env info R e).notifyInfoChanged ch)
  | join {e : Event} {R v : String} {r r' : Room} {v4 v6 : Option IP} {A : List (XID × RoomSession)}
      (hc : s.connected.lookup info.id = some "") (he : e.Joins R v)
      (hr : s.rooms.lookup R = some r) (hget : ch.get = .ok (v4, v6))
      (hr' : r' = r.put (joinUser env ch info r v))
      (hA : A = newEntries env s.drawn (joinPairs ch info.id r'.users)) :
      Change env ch s info e ((s.seat info.id R).opened env ch R r' A)
        (r'.notifyInfoChanged ch ++ A.flatMap (announce env ch v4 v6 r.mode s.turnServer))
  /-- Without an address the new user is sent away; the room is as before. -/
  | bounce {e : Event} {R v err : String} {r : Room} (hc : s.connected.lookup info.id = some "")
      (he : e.Joins R v) (hr : s.rooms.lookup R = some r) (hget : ch.get = .error err) :
      Change env ch s info e ((s.seat info.id R).unseat info.id)
        ((r.put (joinUser env ch info r v)).notifyInfoChanged ch ++
          Disconnected.close info.id ⟨closeNormalClosure, err⟩ :: r.notifyInfoChanged ch)
  | share {R : String} {r r' : Room} {u : User} {v4 v6 : Option IP} {A : List (XID × RoomSession)}
      (hc : s.InRoom info.id R r) (hu : r.users.lookup info.id = some u)
      (hget : ch.get = .ok (v4, v6)) (hr' : r' = r.put { u with streaming := true })
      (hA : A = newEntries env s.drawn (sharePairs ch info.id r'.users)) :
      Change env ch s info .startShare (s.opened env ch R r' A)
        (A.flatMap (announce env ch v4 v6 r.mode s.turnServer) ++ r'.notifyInfoChanged ch)
  | unshare {R : String} {r r' : Room} {u : User} (hc : s.InRoom info.id R r)
      (hu : r.users.lookup info.id = some u) (hr' : r' = r.put { u with streaming := false }) :
      Change env ch s info .stopShare (s.closed env R r' ((r.hosted ch info.id).map Prod.fst))
        (endShares RoomSession.client (r.hosted ch info.id) ++ r'.notifyInfoChanged ch)
  /-- A `Disconnected`, or an event with an error. -/
  | depart {e : Event} {s' : Rooms} {sent : List Send} (d : Disconnected)
      (h : Departs env ch s info.id d s' sent) : Change env ch s info e s' sent

section Handle

variable {env : Env} {ch : Choice} {s : Rooms} {info : ClientInfo} {e : Event}

theorem handle_eq (hc : info.id ∈ s.connected) :
    s.handle env ch ⟨info, false, e⟩ = (e.execute env ch s info).map fun out =>
      match out.err with
      | none => (out.rooms, out.sent)
      | some reason =>
        let gone := Disconnected.executeNoError env ch ⟨closeNormalClosure, reason⟩ out.rooms info
        (gone.1, out.sent ++ gone.2) := by
  obtain ⟨R, hR⟩ := Finmap.mem_iff.mp hc
  simp only [Rooms.handle, hR, Option.isNone_some, Bool.and_false]
  cases e.execute env ch s info with
  | none => rfl
  | some out =>
    obtain ⟨s', sent, err⟩ := out
    cases err <;> rfl

theorem handle_disconnected (hc : info.id ∈ s.connected) (d : Disconnected) :
    s.handle env ch ⟨info, false, .disconnected d⟩ = some (d.executeNoError env ch s info) := by
  rw [handle_eq hc]
  rfl

/-- The message has the effect `Change` describes. -/
def Handled (env : Env) (ch : Choice) (s : Rooms) (info : ClientInfo) (e : Event) : Prop :=
  ∃ s' sent, s.handle env ch ⟨info, false, e⟩ = some (s', sent) ∧ Change env ch s info e s' sent

/-- **How the handler of a connected client's event ends**, before the main loop removes the client
whose event failed. Two handlers fail half way: the user that joins is in the room by then, the
user that shares is marked as streaming. -/
inductive Executed (env : Env) (ch : Choice) (s : Rooms) (info : ClientInfo) :
    Event → Outcome → Prop
  /-- The client stays. -/
  | done {e : Event} {s' : Rooms} {sent : List Send} (h : Change env ch s info e s' sent)
      (hc : info.id ∈ s'.connected) : Executed env ch s info e ⟨s', sent, none⟩
  | gone (d : Disconnected) : Executed env ch s info (.disconnected d)
      ⟨(d.executeNoError env ch s info).1, (d.executeNoError env ch s info).2, none⟩
  | failed {e : Event} (err : String) : Executed env ch s info e (.fail s err)
  | joined {e : Event} {R v err : String} {r : Room} (hc : s.connected.lookup info.id = some "")
      (he : e.Joins R v) (hr : s.rooms.lookup R = some r) (hget : ch.get = .error err) :
      Executed env ch s info e
        ⟨(s.seat info.id R).store R (r.put (joinUser env ch info r v)),
          (r.put (joinUser env ch info r v)).notifyInfoChanged ch, some err⟩
  | shared {R err : String} {r : Room} {u : User} (hc : s.InRoom info.id R r)
      (hu : r.users.lookup info.id = some u) (hget : ch.get = .error err) :
      Executed env ch s info .startShare
        ⟨s.store R (r.put { u with streaming := true }), [], some err⟩

/-! Events of a client in a room -/

theorem execute_name {R : String} {r : Room} (hin : s.InRoom info.id R r) (n : String) :
    (Event.name n).execute env ch s info = some ⟨s, r.notifyInfoChanged ch, none⟩ := by
  simp only [Event.execute, executeName, hin.currentRoom_eq]

/-- A signalling message on a session of the room, from the side that sends the kind. -/
theorem execute_signal (h : Inv env s) {R : String} {r : Room} (hin : s.InRoom info.id R r)
    {k : Signal} {m : P2PMessage} {x : RoomSession} (hx : r.sessions.lookup m.sid = some x)
    (hs : k.sender x = info.id) : (k.event m).execute env ch s info =
      some ⟨s, [.write ⟨k.receiver x⟩ (k.message m)], none⟩ := by
  have hR := h.room R r hin.room
  have hrec : Seated r.users (k.receiver x) := by
    cases k
    · exact hR.seated (hR.client_mem hx)
    · exact hR.seated (hR.client_mem hx)
    · exact hR.seated (hR.host_mem hx)
    · exact hR.seated (hR.host_mem hx)
  obtain ⟨u, hu, huw⟩ := hrec
  rw [k.execute_event]
  simp [relay, hin.currentRoom_eq, hx, hs, hu, huw]

/-- A signalling message for a session the room does not have. -/
theorem execute_stale {R : String} {r : Room} (hin : s.InRoom info.id R r) (k : Signal)
    {m : P2PMessage} (hx : m.sid ∉ r.sessions) :
    (k.event m).execute env ch s info = some ⟨s, [], none⟩ := by
  rw [k.execute_event]
  simp only [relay, hin.currentRoom_eq, Finmap.lookup_eq_none.mpr hx]

/-- A signalling message from the wrong side. -/
theorem execute_forbidden {R : String} {r : Room} (hin : s.InRoom info.id R r) {k : Signal}
    {m : P2PMessage} {x : RoomSession} (hx : r.sessions.lookup m.sid = some x)
    (hs : k.sender x ≠ info.id) : (k.event m).execute env ch s info =
      some (.fail s ("permission denied for session " ++ env.xidString m.sid)) := by
  rw [k.execute_event]
  simp only [relay, hin.currentRoom_eq, hx, ne_eq, hs, not_false_eq_true, if_true]

/-- A signalling message of a client in no room. -/
theorem execute_signal_idle (hc : s.connected.lookup info.id = some "") (k : Signal)
    (m : P2PMessage) : (k.event m).execute env ch s info = some (.fail s "not in a room") := by
  rw [k.execute_event]
  simp only [relay, currentRoom_of_idle hc]

/-- `StartShare.Execute` of a user, when there is an address. -/
theorem execute_share (h : Inv env s) {R : String} {r : Room} {u : User} {v4 v6 : Option IP}
    (hin : s.InRoom info.id R r) (hu : r.users.lookup info.id = some u)
    (hget : ch.get = .ok (v4, v6)) :
    Event.startShare.execute env ch s info =
      let r' := r.put { u with streaming := true }
      let A := newEntries env s.drawn (sharePairs ch info.id r'.users)
      some ⟨s.opened env ch R r' A,
        A.flatMap (announce env ch v4 v6 r.mode s.turnServer) ++ r'.notifyInfoChanged ch, none⟩ := by
  have hR := h.room R r hin.room
  obtain ⟨hid, huw, -⟩ := hR.user _ _ hu
  have hwu : ({ u with streaming := true } : User).write = ⟨u.id⟩ := by rw [huw, hid]
  have hmem : info.id ∈ (r.put { u with streaming := true }).users := by
    simp [Room.put, hid]
  have hex : Event.startShare.execute env ch s info =
      ((range (ch.order .startShare) (r.put { u with streaming := true }).users).foldlM
        (fun st user => if info.id = user.2.id then some st
          else st.newSession env ch info.id user.2.id v4 v6)
        (⟨r.put { u with streaming := true }, s, []⟩ : Live)).bind fun st =>
          some ⟨st.rooms.store R st.room, st.sent ++ st.room.notifyInfoChanged ch, none⟩ := by
    simp only [Event.execute, executeStartShare, hin.currentRoom_eq, hu, hget, Option.bind_eq_bind,
      Option.bind_some, Room.put, hid]
  rw [hex, foldlM_share env ch v4 v6 (fun e he => hR.seated_range hwu he) (hR.seated_put hwu hmem)]
  rfl

variable (ch) in
/-- `StopShare.Execute` of a user. -/
theorem execute_unshare (h : Inv env s) {R : String} {r : Room} {u : User}
    (hin : s.InRoom info.id R r) (hu : r.users.lookup info.id = some u) :
    Event.stopShare.execute env ch s info =
      let r' := r.put { u with streaming := false }
      some ⟨s.closed env R r' ((r.hosted ch info.id).map Prod.fst),
        endShares RoomSession.client (r.hosted ch info.id) ++ r'.notifyInfoChanged ch, none⟩ := by
  have hR := h.room R r hin.room
  obtain ⟨hid, huw, -⟩ := hR.user _ _ hu
  have hwu : ({ u with streaming := false } : User).write = ⟨u.id⟩ := by rw [huw, hid]
  have hloop := foldl_stopShareLoop env info.id
    (range (ch.order .stopShare) r.sessions) ⟨r.put { u with streaming := false }, s, []⟩
    fun a ha _ => hR.seated_put hwu (Finmap.mem_insert.mpr
      (Or.inr (hR.client_mem ((mem_range _ _).mp ha))))
  have hex : Event.stopShare.execute env ch s info =
      let st := (range (ch.order .stopShare) r.sessions).foldl (stopShareLoop env info.id)
        ⟨r.put { u with streaming := false }, s, []⟩
      some ⟨st.rooms.store R st.room, st.sent ++ st.room.notifyInfoChanged ch, none⟩ := by
    simp only [Event.execute, executeStopShare, hin.currentRoom_eq, hu, Option.bind_eq_bind,
      Option.bind_some, Room.put, hid]
  rw [hex, hloop]
  rfl

/-- `StartShare.Execute` of a user, when there is no address. -/
theorem execute_share_error (h : Inv env s) {R err : String} {r : Room} {u : User}
    (hin : s.InRoom info.id R r) (hu : r.users.lookup info.id = some u)
    (hget : ch.get = .error err) : Event.startShare.execute env ch s info =
      some ⟨s.store R (r.put { u with streaming := true }), [], some err⟩ := by
  obtain ⟨hid, -, -⟩ := (h.room R r hin.room).user _ _ hu
  simp only [Event.execute, executeStartShare, hin.currentRoom_eq, hu, hget, Option.bind_eq_bind,
    Option.bind_some, Room.put, hid]

/-! Events of a client in no room -/

/-- A room keeps a visitor that is an owner as long as it has one. -/
theorem Room.hasVisitor_of_visitorOwner {r : Room} {v : String}
    (h : r.visitorOwner ch v = true) : r.hasVisitor ch v = true := by
  obtain ⟨hv, c, u, hu, hvis, -⟩ := Room.visitorOwner_iff.mp h
  exact Room.hasVisitor_iff.mpr ⟨hv, c, u, hu, hvis⟩

variable (ch) in
/-- **A user that has just entered leaves the room as it was**: it has no session, and owns the
room only together with a user that stays. -/
theorem executeNoError_bounce (h : Inv env s) (hw : info.write = ⟨info.id⟩)
    (hc : s.connected.lookup info.id = some "") {R v : String} {r : Room}
    (hr : s.rooms.lookup R = some r) (d : Disconnected) :
    d.executeNoError env ch ((s.seat info.id R).store R (r.put (joinUser env ch info r v))) info =
      ((s.seat info.id R).unseat info.id, d.close info.id :: r.notifyInfoChanged ch) := by
  have hR := h.room R r hr
  have hnot := h.notMem_of_idle hc hr
  have hsess : ∀ sid x, r.sessions.lookup sid = some x → x.involves info.id = false := by
    intro sid x hx
    have h1 : x.host ≠ info.id := fun e => hnot (e ▸ hR.host_mem hx)
    have h2 : x.client ≠ info.id := fun e => hnot (e ▸ hR.client_mem hx)
    simp [RoomSession.involves, h1, h2]
  set u := joinUser env ch info r v
  have hwithout : (r.put u).without info.id = r := by
    have : u.id = info.id := rfl
    simp only [Room.without, Room.put, this, GoMap.erase_insert hnot]
  have hending : (r.put u).ending ch info.id = [] := by
    rw [Room.ending, List.filter_eq_nil_iff]
    intro a ha
    rw [hsess a.1 a.2 ((mem_range _ _).mp ha)]
    exact Bool.false_ne_true
  have hcl : ¬ (r.put u).closesWith ch info.id u := by
    rw [Room.closesWith, hwithout]
    rintro (hown | hempty)
    · simp only [Bool.and_eq_true, Bool.not_eq_true'] at hown
      have howner : r.visitorOwner ch u.visitorID = true :=
        (joinUser_owner env ch info r v).symm.trans hown.1.1
      have hvisitor := Room.hasVisitor_of_visitorOwner howner
      rw [hown.2] at hvisitor
      exact absurd hvisitor Bool.false_ne_true
    · obtain ⟨c, hcmem⟩ := hR.inhabited
      exact GoMap.len_eq_zero.mp hempty c hcmem
  have hin : ((s.seat info.id R).store R (r.put u)).InRoom info.id R (r.put u) :=
    ⟨Finmap.lookup_insert _, h.key_ne_empty hr, Finmap.lookup_insert _⟩
  rw [executeNoError_inRoom hw hin (u := u) (Finmap.lookup_insert _)
    (fun sid x hx => (hR.sound sid x hx).1) fun sid x hx hinv => by
      rw [hsess sid x hx] at hinv
      exact absurd hinv Bool.false_ne_true, if_neg hcl, hending, hwithout]
  refine Prod.ext ?_ rfl
  simp only [Rooms.left, hending, hwithout, List.map_nil, Rooms.closed, GoMap.eraseAll_nil,
    Rooms.store, Rooms.unseat, Rooms.drop, Rooms.seat, Finmap.insert_insert, GoMap.insert_self hr]
  rfl

/-- `Join.Execute` after its checks. -/
theorem join_execute (h : Inv env s) (hw : info.write = ⟨info.id⟩)
    (hc : s.connected.lookup info.id = some "") {j : Join} {R : String} {r : Room}
    (hj : normalizeRoomID j.id = .ok R) (hr : s.rooms.lookup R = some r) :
    j.execute env ch s info =
      let r' := r.put (joinUser env ch info r j.visitorID)
      match ch.get with
      | .error err => some ⟨(s.seat info.id R).store R r', r'.notifyInfoChanged ch, some err⟩
      | .ok (v4, v6) =>
        let A := newEntries env s.drawn (joinPairs ch info.id r'.users)
        some ⟨(s.seat info.id R).opened env ch R r' A,
          r'.notifyInfoChanged ch ++ A.flatMap (announce env ch v4 v6 r.mode s.turnServer), none⟩ := by
  have hR := h.room R r hr
  have hwu : (joinUser env ch info r j.visitorID).write = ⟨info.id⟩ := hw
  have hmem : info.id ∈ (r.put (joinUser env ch info r j.visitorID)).users :=
    Finmap.mem_insert.mpr (Or.inl rfl)
  obtain rfl := hR.id_eq
  simp only [Join.execute, hc, Option.getD_some, ne_eq, not_true_eq_false, if_false, hj, hr]
  cases hget : ch.get with
  | error err => rfl
  | ok v =>
    obtain ⟨v4, v6⟩ := v
    let st : Live := ⟨r.put (joinUser env ch info r j.visitorID), s.seat info.id r.id,
      (r.put (joinUser env ch info r j.visitorID)).notifyInfoChanged ch⟩
    have hloop := foldlM_join env ch v4 v6 (c := info.id)
      (show ∀ e ∈ range (ch.order .join) st.room.users, _ from fun e he => hR.seated_range hwu he)
      (hR.seated_put hwu hmem)
    let done (st : Live) : Option Outcome := some ⟨st.rooms.store r.id st.room, st.sent, none⟩
    exact congrArg (Option.bind · done) hloop

variable (env ch) in
/-- A request to join an existing room is executed by `Join`. -/
theorem Event.Joins.execute_eq (hc : s.connected.lookup info.id = some "") {R v : String}
    {r : Room} (he : e.Joins R v) (hr : s.rooms.lookup R = some r) :
    ∃ j : Join, normalizeRoomID j.id = .ok R ∧ j.visitorID = v ∧
      e.execute env ch s info = j.execute env ch s info := by
  cases e with
  | join j => exact ⟨j, he.1, he.2, rfl⟩
  | create q =>
    obtain ⟨hjoin, hq, rfl⟩ := he
    refine ⟨⟨R, q.userName, q.visitorID⟩, normalizeRoomID_idem hq, rfl, ?_⟩
    simp only [Event.execute, Create.execute, hc, Option.getD_some, ne_eq, not_true_eq_false,
      if_false, hq, hr, hjoin, if_true]
  | _ => exact he.elim

variable (ch) in
/-- **A request to join an existing room**, made directly or by `Create`. -/
theorem execute_joins (h : Inv env s) (hw : info.write = ⟨info.id⟩)
    (hc : s.connected.lookup info.id = some "") {R v : String} {r : Room} (he : e.Joins R v)
    (hr : s.rooms.lookup R = some r) :
    e.execute env ch s info =
      let r' := r.put (joinUser env ch info r v)
      match ch.get with
      | .error err => some ⟨(s.seat info.id R).store R r', r'.notifyInfoChanged ch, some err⟩
      | .ok (v4, v6) =>
        let A := newEntries env s.drawn (joinPairs ch info.id r'.users)
        some ⟨(s.seat info.id R).opened env ch R r' A,
          r'.notifyInfoChanged ch ++ A.flatMap (announce env ch v4 v6 r.mode s.turnServer), none⟩ := by
  obtain ⟨j, hj, rfl, hex⟩ := he.execute_eq env ch hc hr
  rw [hex, join_execute h hw hc hj hr]

/-- **A request to join an existing room is granted**, when there is an address. -/
theorem handle_joins (h : Inv env s) (hw : info.write = ⟨info.id⟩)
    (hc : s.connected.lookup info.id = some "") {R v : String} {r : Room} {ips : Option IP × Option IP}
    (he : e.Joins R v) (hr : s.rooms.lookup R = some r) (hget : ch.get = .ok ips) :
    ∃ sent, s.handle env ch ⟨info, false, e⟩ =
      let r' := r.put (joinUser env ch info r v)
      some ((s.seat info.id R).opened env ch R r'
        (newEntries env s.drawn (joinPairs ch info.id r'.users)), sent) := by
  rw [handle_eq (Finmap.mem_of_lookup_eq_some hc), execute_joins ch h hw hc he hr, hget]
  exact ⟨_, rfl⟩

variable (env ch) in
/-- A request to join a room that is not there. -/
theorem execute_join_missing (hc : s.connected.lookup info.id = some "") {j : Join} {R : String}
    (hj : normalizeRoomID j.id = .ok R) (hr : R ∉ s.rooms) : (Event.join j).execute env ch s info =
      some (.fail s ("room with id " ++ R ++ " does not exist")) := by
  have hex : (Event.join j).execute env ch s info = j.execute env ch s info := rfl
  rw [hex]
  simp only [Join.execute, hc, Option.getD_some, ne_eq, not_true_eq_false, if_false, hj,
    Finmap.lookup_eq_none.mpr hr]

variable (env ch) in
/-- A request to create a room that is there. -/
theorem execute_create_exists (hc : s.connected.lookup info.id = some "") {q : Create} {R : String}
    (hj : normalizeRoomID q.id = .ok R) (hr : R ∈ s.rooms) (hjoin : ¬ q.joinIfExist = true) :
    (Event.create q).execute env ch s info =
      some (.fail s ("room with id " ++ R ++ " does already exist")) := by
  have hex : (Event.create q).execute env ch s info = q.execute env ch s info := rfl
  obtain ⟨r, hr⟩ := Finmap.mem_iff.mp hr
  rw [hex]
  simp only [Create.execute, hc, Option.getD_some, ne_eq, not_true_eq_false, if_false, hj, hr, hjoin,
    Bool.false_eq_true]

variable (ch) in
/-- **A request to create a room is granted.** -/
theorem execute_create (hc : s.connected.lookup info.id = some "") {q : Create} {R : String}
    (hj : normalizeRoomID q.id = .ok R) (hr : R ∉ s.rooms) (ha : q.authError env info = none) :
    (Event.create q).execute env ch s info =
      some ⟨(s.seat info.id R).founded.opened env ch R (createRoom env info R q) [],
        (createRoom env info R q).notifyInfoChanged ch, none⟩ := by
  have hex : (Event.create q).execute env ch s info = q.execute env ch s info := rfl
  rw [hex]
  simp only [Create.execute, hc, Option.getD_some, ne_eq, not_true_eq_false, if_false, hj,
    Finmap.lookup_eq_none.mpr hr, ha]
  rfl

/-! ## What an event asks for -/

variable (env s info) in
/-- **What the event of a connected client asks for**, whatever is chosen: it is refused before it has
changed anything, or it is one of eight requests. -/
inductive Asks : Event → Prop
  | refused {e : Event} (err : String)
      (h : ∀ ch, e.execute env ch s info = some (.fail s err)) : Asks e
  | leave (d : Disconnected) : Asks (.disconnected d)
  | name {R : String} {r : Room} (n : String) (hin : s.InRoom info.id R r) : Asks (.name n)
  | stale {R : String} {r : Room} (k : Signal) (m : P2PMessage) (hin : s.InRoom info.id R r)
      (hx : m.sid ∉ r.sessions) : Asks (k.event m)
  | relay {R : String} {r : Room} {x : RoomSession} (k : Signal) (m : P2PMessage)
      (hin : s.InRoom info.id R r) (hx : r.sessions.lookup m.sid = some x)
      (hs : k.sender x = info.id) : Asks (k.event m)
  | create {R : String} {q : Create} (hc : s.connected.lookup info.id = some "")
      (hR : normalizeRoomID q.id = .ok R) (hr : R ∉ s.rooms) (ha : q.authError env info = none) :
      Asks (.create q)
  | join {e : Event} {R v : String} {r : Room} (hc : s.connected.lookup info.id = some "")
      (he : e.Joins R v) (hr : s.rooms.lookup R = some r) : Asks e
  | share {R : String} {r : Room} {u : User} (hin : s.InRoom info.id R r)
      (hu : r.users.lookup info.id = some u) : Asks .startShare
  | unshare {R : String} {r : Room} {u : User} (hin : s.InRoom info.id R r)
      (hu : r.users.lookup info.id = some u) : Asks .stopShare

theorem asks_signal (h : Inv env s) (hc : info.id ∈ s.connected) (k : Signal) (m : P2PMessage) :
    Asks env s info (k.event m) := by
  rcases h.idle_or_inRoom hc with hidle | ⟨R, r, hin⟩
  · exact .refused _ fun ch => execute_signal_idle hidle k m
  cases hx : r.sessions.lookup m.sid with
  | none => exact .stale k m hin (Finmap.lookup_eq_none.mp hx)
  | some x =>
    by_cases hs : k.sender x = info.id
    · exact .relay k m hin hx hs
    · exact .refused _ fun ch => execute_forbidden hin hx hs

theorem asks_join (h : Inv env s) (hc : info.id ∈ s.connected) (j : Join) :
    Asks env s info (.join j) := by
  have hex : ∀ ch, (Event.join j).execute env ch s info = j.execute env ch s info := fun _ => rfl
  rcases h.idle_or_inRoom hc with hidle | ⟨R, r, hin⟩
  · cases hj : normalizeRoomID j.id with
    | error err =>
      refine .refused err fun ch => ?_
      rw [hex]
      simp only [Join.execute, hidle, Option.getD_some, ne_eq, not_true_eq_false, if_false, hj]
    | ok R =>
      cases hr : s.rooms.lookup R with
      | none =>
        exact .refused _ fun ch => execute_join_missing env ch hidle hj (Finmap.lookup_eq_none.mp hr)
      | some r => exact .join hidle ⟨hj, rfl⟩ hr
  · refine .refused "cannot join room, you are already in one" fun ch => ?_
    rw [hex]
    simp only [Join.execute, hin.at_, Option.getD_some, ne_eq, hin.ne, not_false_eq_true, if_true]

theorem asks_create (h : Inv env s) (hc : info.id ∈ s.connected) (q : Create) :
    Asks env s info (.create q) := by
  have hex : ∀ ch, (Event.create q).execute env ch s info = q.execute env ch s info := fun _ => rfl
  rcases h.idle_or_inRoom hc with hidle | ⟨R, r, hin⟩
  · cases hj : normalizeRoomID q.id with
    | error err =>
      refine .refused err fun ch => ?_
      rw [hex]
      simp only [Create.execute, hidle, Option.getD_some, ne_eq, not_true_eq_false, if_false, hj]
    | ok R =>
      cases hr : s.rooms.lookup R with
      | some r =>
        by_cases hjoin : q.joinIfExist = true
        · exact .join hidle ⟨hjoin, hj, rfl⟩ hr
        · exact .refused _ fun ch =>
            execute_create_exists env ch hidle hj (Finmap.mem_of_lookup_eq_some hr) hjoin
      | none =>
        cases ha : q.authError env info with
        | some err =>
          refine .refused err fun ch => ?_
          rw [hex]
          simp only [Create.execute, hidle, Option.getD_some, ne_eq, not_true_eq_false, if_false, hj,
            hr, ha]
        | none => exact .create hidle hj (Finmap.lookup_eq_none.mp hr) ha
  · refine .refused "cannot join room, you are already in one" fun ch => ?_
    rw [hex]
    simp only [Create.execute, hin.at_, Option.getD_some, ne_eq, hin.ne, not_false_eq_true, if_true]

/-- **Every event of a connected client asks for one of these.** -/
theorem asks (h : Inv env s) (hc : info.id ∈ s.connected) (he : e.fromClient = true) :
    Asks env s info e := by
  have hidle : ∀ {e : Event}, s.connected.lookup info.id = some "" →
      e = .startShare ∨ e = .stopShare ∨ (∃ n, e = .name n) → Asks env s info e := by
    rintro e hidle (rfl | rfl | ⟨n, rfl⟩)
    · refine .refused "not in a room" fun ch => ?_
      simp only [Event.execute, executeStartShare, currentRoom_of_idle hidle]
    · refine .refused "not in a room" fun ch => ?_
      simp only [Event.execute, executeStopShare, currentRoom_of_idle hidle]
    · refine .refused "not in a room" fun ch => ?_
      simp only [Event.execute, executeName, currentRoom_of_idle hidle]
  cases e with
  | connected => exact absurd he Bool.false_ne_true
  | create q => exact asks_create h hc q
  | join j => exact asks_join h hc j
  | name n =>
    rcases h.idle_or_inRoom hc with hno | ⟨R, r, hin⟩
    · exact hidle hno (Or.inr (Or.inr ⟨n, rfl⟩))
    · exact .name n hin
  | startShare =>
    rcases h.idle_or_inRoom hc with hno | ⟨R, r, hin⟩
    · exact hidle hno (Or.inl rfl)
    · obtain ⟨u, hu⟩ := Finmap.mem_iff.mp (h.mem_users hin)
      exact .share hin hu
  | stopShare =>
    rcases h.idle_or_inRoom hc with hno | ⟨R, r, hin⟩
    · exact hidle hno (Or.inr (Or.inl rfl))
    · obtain ⟨u, hu⟩ := Finmap.mem_iff.mp (h.mem_users hin)
      exact .unshare hin hu
  | hostOffer m => exact asks_signal h hc .hostOffer m
  | hostICE m => exact asks_signal h hc .hostICE m
  | clientAnswer m => exact asks_signal h hc .clientAnswer m
  | clientICE m => exact asks_signal h hc .clientICE m
  | disconnected d => exact .leave d
  | health => exact absurd he Bool.false_ne_true

variable (ch) in
/-- **The handlers**: under the invariant the event of a connected client is executed without a
crash, and ends in one of the ways of `Executed`. -/
theorem execute_executed (h : Inv env s) (hw : info.write = ⟨info.id⟩) (hc : info.id ∈ s.connected)
    (he : e.fromClient = true) :
    ∃ out, e.execute env ch s info = some out ∧ Executed env ch s info e out := by
  cases asks h hc he with
  | refused err hex => exact ⟨_, hex ch, .failed err⟩
  | leave d => exact ⟨_, rfl, .gone d⟩
  | name n hin => exact ⟨_, execute_name hin n, .done (.name n hin) hc⟩
  | stale k m hin hx => exact ⟨_, execute_stale hin k hx, .done (.stale k m hin hx) hc⟩
  | relay k m hin hx hs =>
    exact ⟨_, execute_signal h hin hx hs, .done (.relay k m hin hx hs) hc⟩
  | create hidle hR hr ha =>
    exact ⟨_, execute_create ch hidle hR hr ha,
      .done (.create hidle hR hr ha) (Finmap.mem_insert.mpr (Or.inl rfl))⟩
  | join hidle he hr =>
    have hex := execute_joins ch h hw hidle he hr
    cases hget : ch.get with
    | error err =>
      rw [hget] at hex
      exact ⟨_, hex, .joined hidle he hr hget⟩
    | ok v =>
      obtain ⟨v4, v6⟩ := v
      rw [hget] at hex
      exact ⟨_, hex, .done (.join hidle he hr hget rfl rfl) (Finmap.mem_insert.mpr (Or.inl rfl))⟩
  | share hin hu =>
    cases hget : ch.get with
    | error err => exact ⟨_, execute_share_error h hin hu hget, .shared hin hu hget⟩
    | ok v =>
      obtain ⟨v4, v6⟩ := v
      exact ⟨_, execute_share h hin hu hget, .done (.share hin hu hget rfl rfl) hc⟩
  | unshare hin hu => exact ⟨_, execute_unshare ch h hin hu, .done (.unshare hin hu rfl) hc⟩

/-- **Removing the client whose event failed** undoes what its handler did before it failed. -/
theorem Executed.handled {out : Outcome} (h : Inv env s) (hw : info.write = ⟨info.id⟩)
    (hc : info.id ∈ s.connected) (hex : e.execute env ch s info = some out)
    (hout : Executed env ch s info e out) : Handled env ch s info e := by
  rw [Handled, handle_eq hc, hex]
  cases hout with
  | done hch => exact ⟨_, _, rfl, hch⟩
  | gone d => exact ⟨_, _, rfl, .depart d (executeNoError_departs ch d h hw hc)⟩
  | failed err =>
    exact ⟨_, _, rfl, .depart _ (executeNoError_departs ch ⟨closeNormalClosure, err⟩ h hw hc)⟩
  | @joined _ R v err r hidle he hr hget =>
    refine ⟨_, _, rfl, ?_⟩
    simp only [executeNoError_bounce ch h hw hidle hr]
    exact .bounce hidle he hr hget
  | @shared R err r u hin hu hget =>
    obtain ⟨hid, -, -⟩ := (h.room R r hin.room).user _ _ hu
    refine ⟨_, _, rfl, ?_⟩
    simp only [executeNoError_put h hw hin { u with streaming := true } hu hid rfl rfl]
    exact .depart _ (executeNoError_departs ch _ h hw hc)

variable (ch) in
/-- **The main loop**: under the invariant a message of a client is handled without a crash, and
with one of the effects of `Change`. -/
theorem handle_change (h : Inv env s) (hw : info.write = ⟨info.id⟩) (he : e.fromClient = true) :
    Handled env ch s info e := by
  by_cases hc : info.id ∈ s.connected
  · obtain ⟨out, hex, hout⟩ := execute_executed ch h hw hc he
    exact hout.handled h hw hc hex
  · refine ⟨s, [], ?_, .skip hc⟩
    simp only [Rooms.handle, Finmap.lookup_eq_none.mpr hc, Option.isNone_none, Bool.not_false,
      Bool.and_true, if_true]

end Handle

end Screego
