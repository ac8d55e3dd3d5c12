import Screego.Roster

/-!
# What a member list was

A client is sent more member lists than its last one, and handles them later.

* `Moment`: a room as it is in the course of a step: after it, or while a user is in it for whom there is
  no address to connect by;
* `Change.mem_room`: the member lists of one message;
* `told_by_a_step`: where a message of a log comes from;
* **`member_lists_were_right`**, **`announcements_were_right`**: all of them.
-/

set_option autoImplicit false

namespace Screego

open Lib Outgoing

variable {env : Env} {ch : Choice} {s t : Rooms} {info : ClientInfo} {e : Event} {sent : List Send}
  {c u : XID} {R : String} {r r' : Screego.Room} {m : Outgoing.Room} {w w' : World} {i : Input}

/-- **A room in the course of a message**, in the rooms `t` after it or with a user that is about to be
sent away again. -/
inductive Moment (env : Env) (ch : Choice) (s : Rooms) (info : ClientInfo) (e : Event) (t : Rooms) :
    Screego.Room → Prop
  | after {R : String} {r : Screego.Room} (hr : t.rooms.lookup R = some r) : Moment env ch s info e t r
  | entering {R v err : String} {r : Screego.Room} (hc : s.connected.lookup info.id = some "")
      (he : e.Joins R v) (hr : s.rooms.lookup R = some r) (hget : ch.get = .error err) :
      Moment env ch s info e t (r.put (joinUser env ch info r v))

/-! ## One message -/

/-- The message is a member list of the room, for its user `u`. -/
def Outgoing.Room.IsOf (m : Outgoing.Room) (r : Screego.Room) (u : XID) : Prop :=
  ∃ v, r.users.lookup u = some v ∧ m.id = r.id ∧ Roster r v m.users

/-- A member list is one of the room that is broadcast. -/
theorem RoomOk.isOf_of_mem (h : RoomOk R r) (hm : .write ⟨u⟩ (.room m) ∈ r.notifyInfoChanged ch) :
    m.IsOf r u := by
  have hm' := mem_heard.mpr hm
  rw [heard_notifyInfoChanged h.keyed, Room.news] at hm'
  cases hv : r.users.lookup u with
  | none => simp [hv] at hm'
  | some v =>
    simp only [hv, Option.map_some, Option.toList_some, List.mem_singleton, Message.room.injEq] at hm'
    exact hm' ▸ ⟨v, hv, rfl, h.roster hv ch⟩

/-- The message lists a room at some moment. -/
def ListsAt (env : Env) (ch : Choice) (s : Rooms) (info : ClientInfo) (e : Event) (t : Rooms) (u : XID)
    (m : Outgoing.Room) : Prop :=
  ∃ r, Moment env ch s info e t r ∧ m.IsOf r u

/-- A broadcast of a room that is there after the message, but for its sessions. -/
theorem listsAt_after (ht : Inv env t) (hr : t.rooms.lookup R = some r') (hid : r.id = r'.id)
    (hu : r.users = r'.users) (hm : .write ⟨u⟩ (.room m) ∈ r.notifyInfoChanged ch) :
    ListsAt env ch s info e t u m := by
  have hsame : r.notifyInfoChanged ch = r'.notifyInfoChanged ch := by
    simp only [Room.notifyInfoChanged, Room.infoFor, hid, hu]
  rw [hsame] at hm
  exact ⟨r', .after hr, (ht.room R r' hr).isOf_of_mem hm⟩

theorem room_notMem_announce {v4 v6 : Option IP} {mode : ConnectionMode} {turn : Turn.Server}
    {A : List (XID × RoomSession)} :
    .write ⟨u⟩ (.room m) ∉ A.flatMap (announce env ch v4 v6 mode turn) := fun hm =>
  every_announce (p := fun m' => roomOf m' = none) (fun _ => rfl) (fun _ => rfl) v4 v6 mode turn A _ _ hm
    |> Option.some_ne_none m

theorem room_notMem_endShares {peer : RoomSession → XID} {L : List (XID × RoomSession)} :
    .write ⟨u⟩ (.room m) ∉ endShares peer L := fun hm =>
  every_endShares (p := fun m' => roomOf m' = none) (fun _ => rfl) peer L _ _ hm
    |> Option.some_ne_none m

/-- **The member lists of one message.** -/
theorem Change.mem_room (h : Inv env s) (hw : info.write = ⟨info.id⟩)
    (hch : Change env ch s info e t sent) (hm : .write ⟨u⟩ (.room m) ∈ sent) :
    ListsAt env ch s info e t u m := by
  have ht := h.change hw hch
  cases hch with
  | skip | stale => exact absurd hm List.not_mem_nil
  | name n hc => exact listsAt_after ht hc.room rfl rfl hm
  | relay k m' =>
    rw [List.mem_singleton, Send.write.injEq] at hm
    cases k <;> exact absurd hm.2 (by simp [Signal.message])
  | create => exact listsAt_after ht (Finmap.lookup_insert _) rfl rfl hm
  | join hc he hr hget hr' hA =>
    rcases List.mem_append.mp hm with hm | hm
    · exact listsAt_after ht (Finmap.lookup_insert _) rfl rfl hm
    · exact absurd hm room_notMem_announce
  | @bounce e R v err r hc he hr hget =>
    rcases List.mem_append.mp hm with hm | hm
    · -- for the member list, the sessions of the new user do not matter
      have hok : RoomOk R { r.put (joinUser env ch info r v) with
          sessions := GoMap.insertAll r.sessions (newEntries env s.drawn
            (joinPairs ch info.id (r.put (joinUser env ch info r v)).users)) } := h.room_joined hw hc hr
      obtain ⟨v', hv', hid, hroster⟩ := hok.isOf_of_mem hm
      exact ⟨_, .entering hc he hr hget, v', hv', hid, hroster.nodup, hroster.entries, hroster.sorted⟩
    · rw [List.mem_cons] at hm
      rcases hm with hm | hm
      · cases hm
      · exact listsAt_after ht hr rfl rfl hm
  | share =>
    rcases List.mem_append.mp hm with hm | hm
    · exact absurd hm room_notMem_announce
    · exact listsAt_after ht (Finmap.lookup_insert _) rfl rfl hm
  | unshare =>
    rcases List.mem_append.mp hm with hm | hm
    · exact absurd hm room_notMem_endShares
    · exact listsAt_after ht (Finmap.lookup_insert _) rfl rfl hm
  | depart d hd =>
    cases hd with
    | idle => cases List.mem_singleton.mp hm
    | stays =>
      rw [List.cons_append, List.mem_cons] at hm
      rcases hm with hm | hm
      · cases hm
      rcases List.mem_append.mp hm with hm | hm
      · exact absurd hm room_notMem_endShares
      · exact listsAt_after ht (Finmap.lookup_insert _) rfl rfl hm
    | closes =>
      rw [List.cons_append, List.mem_cons] at hm
      rcases hm with hm | hm
      · cases hm
      rcases List.mem_append.mp hm with hm | hm
      · exact absurd hm room_notMem_endShares
      · exact absurd ((every_ownerLeft (p := fun m' => roomOf m' = none) (fun _ _ => rfl) _) _ _ hm)
          (Option.some_ne_none m)

/-! ## Every run -/

/-- **The step tells** the client `u` the message `m`. -/
def Tells (env : Env) (u : XID) (m : Message) (w : World) (i : Choice × Input) : Prop :=
  ∃ c e he info t sent, i.2 = .receive c e he ∧ w.clients.lookup c = some info ∧
    Change env i.1 w.rooms info e t sent ∧ w.step env i = some (w.after [.got c e] (t, sent)) ∧
    .write ⟨u⟩ m ∈ sent

/-- A client was told what is in its log by a step of the run. -/
theorem told_by_a_step {is : List (Choice × Input)} {m : Message} (hw : (server env).run is = some w)
    (hm : m ∈ w.log u) : (server env).Took (Tells env u m) is := by
  have hinit : m ∉ (World.init env).log u := List.not_mem_nil
  refine (server_ok env).took (C := fun w => m ∈ w.log u) hinit (fun w i w' h hs hm => ?_) hw hm
  have hst : w.step env (i.1, i.2) = some w' := hs
  generalize hi : i.2 = input at hst
  cases h.change_of_step hst with
  | upgrade | stranger => exact Or.inl hm
  | count =>
    rw [log_count] at hm
    exact Or.inl hm
  | @message c info e he t sent hc hch =>
    rw [log_after, List.mem_append, mem_heard] at hm
    exact hm.imp_right fun hm => ⟨c, e, he, info, t, sent, hi, hc, hch, hs, hm⟩

/-- **The step shows the list**: it is that of a room of `u`, in the course of the step. -/
def Shows (env : Env) (u : XID) (m : Outgoing.Room) (w : World) (i : Choice × Input) : Prop :=
  ∃ c e he info w', i.2 = .receive c e he ∧ w.clients.lookup c = some info ∧ w.step env i = some w' ∧
    ListsAt env i.1 w.rooms info e w'.rooms u m

/-- **Every member list that was ever sent** to a client was that of its room, when it was sent. -/
theorem member_lists_were_right {is : List (Choice × Input)} (hw : (server env).run is = some w)
    (hm : .room m ∈ w.log u) : (server env).Took (Shows env u m) is := by
  refine (told_by_a_step hw hm).mono (server_ok env) fun w i h htells => ?_
  obtain ⟨c, e, he, info, t, sent, hi, hc, hch, hs, hm⟩ := htells
  obtain ⟨rfl, hwr⟩ := h.info c info hc
  exact ⟨_, e, he, info, _, hi, hc, hs, hch.mem_room h.inv hwr hm⟩

/-- Member lists are sorted, whenever they were sent. -/
theorem sorted_of_mem_log {is : List (Choice × Input)} (hw : (server env).run is = some w)
    (hm : .room m ∈ w.log u) : m.users.Pairwise fun y y' => y.rank ≤ y'.rank := by
  obtain ⟨_, _, _, _, _, _, hshows⟩ := member_lists_were_right hw hm
  obtain ⟨_, _, _, _, _, _, _, _, r, _, v, _, _, hroster⟩ := hshows
  exact hroster.sorted

/-- The session serves the host's screen to the viewer, after the step. -/
def Serves (env : Env) (sid : XID) (x : RoomSession) (w : World) (i : Choice × Input) : Prop :=
  ∃ w', w.step env i = some w' ∧ w'.rooms.Serves sid x

/-- **Every session that was ever announced** to a viewer was there, when it was announced. -/
theorem announcements_were_right {is : List (Choice × Input)} {q : P2PSession}
    (hw : (server env).run is = some w) (hq : .clientSession q ∈ w.log u) :
    (server env).Took (Serves env q.id ⟨q.peer, u⟩) is := by
  refine (told_by_a_step hw hq).mono (server_ok env) fun w i h htells => ?_
  obtain ⟨c, e, he, info, t, sent, hi, hc, hch, hs, hm⟩ := htells
  obtain ⟨A, L, heff⟩ := hch.effect h.inv
  have hann : (Send.write ⟨u⟩ (.clientSession q)).Announces q.id := rfl
  obtain ⟨⟨sid, x⟩, ha, hsid, ⟨ice, hy⟩ | ⟨ice, hy⟩⟩ := heff.mem_announced hm hann
  · cases hy
  · obtain rfl : sid = q.id := hsid
    simp only [Send.write.injEq, Chan.mk.injEq, Message.clientSession.injEq] at hy
    obtain ⟨rfl, hy⟩ := hy
    refine ⟨_, hs, (heff.serves _ _).mpr (Or.inr ?_)⟩
    rw [hy]
    exact ha

end Screego
