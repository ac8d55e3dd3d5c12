import Screego.Relay

/-!
# What the members see

The last member list a user was sent, and the sessions it takes to be live, against the room.

* `Lists`: a member list is that of a room, for one of its users;
* **`views_agree`**: the last member list of every user is that of its room;
* **`sessions_agree`**: the sessions a user takes to be live are those of its room.
-/

set_option autoImplicit false

namespace Screego

open Lib Outgoing

variable {env : Env} {ch : Choice} {s t : Rooms} {info : ClientInfo} {sent : List Send}
  {R : String} {r r' : Screego.Room} {c u sid : XID} {v : Screego.User} {x : RoomSession}
  {w w' : World} {i : Input}

/-! ## Member lists -/

/-- The entry for the user `a`, stored under `c`, in the list of `v`. -/
def entryFor (v : Screego.User) (c : XID) (a : Screego.User) : Outgoing.User where
  id := c
  name := a.name
  visitorID := a.visitorID
  streaming := a.streaming
  you := a.visitorID = v.visitorID
  owner := a.owner

/-- **The member list shows the users of the room**, each once, as the user `v` sees them. -/
def Lists (m : Outgoing.Room) (r : Screego.Room) (v : Screego.User) : Prop :=
  m.id = r.id ∧ (m.users.map Outgoing.User.id).Nodup ∧
    ∀ y, y ∈ m.users ↔ ∃ c a, r.users.lookup c = some a ∧ y = entryFor v c a

theorem Lists.congr {m : Outgoing.Room} (h : Lists m r v) (hid : r.id = r'.id)
    (hu : r.users = r'.users) : Lists m r' v := by
  obtain ⟨h1, h2, h3⟩ := h
  exact ⟨h1.trans hid, h2, fun y => by rw [h3 y, hu]⟩

/-- What `notifyInfoChanged` sends to a user. -/
theorem RoomOk.lists (h : RoomOk R r) (hv : r.users.lookup u = some v) (ch : Choice) :
    Lists (r.infoFor ch (u, v)) r v := by
  have hentry : ∀ c a, r.users.lookup c = some a →
      Room.outgoingUser (u, v) (c, a) = entryFor v c a := by
    intro c a ha
    obtain ⟨hid, -, hvis⟩ := h.user c a ha
    obtain ⟨hidv, -, hvisv⟩ := h.user u v hv
    have hyou : Room.sameVisitor (u, v) (c, a) = decide (a.visitorID = v.visitorID) := by
      rw [Bool.eq_iff_iff]
      simp only [Room.sameVisitor, Bool.or_eq_true, decide_eq_true_eq, Bool.and_eq_true, ne_eq, hvisv,
        not_false_eq_true, decide_true, true_and]
      constructor
      · rintro (rfl | he)
        · rw [ha] at hv
          cases hv
          rfl
        · exact he.symm
      · exact fun he => Or.inr he.symm
    simp only [Room.outgoingUser, entryFor, hid, hyou]
  refine ⟨rfl, ?_, fun y => ?_⟩
  · have hperm := (perm_sortSlice (ch.ties u) Room.lessUser
      ((range (ch.order (.notifyFor u)) r.users).map (Room.outgoingUser (u, v)))).map
        Outgoing.User.id
    refine hperm.nodup_iff.mpr ?_
    rw [List.map_map]
    have hfst : (range (ch.order (.notifyFor u)) r.users).map
        (Outgoing.User.id ∘ Room.outgoingUser (u, v)) =
          (range (ch.order (.notifyFor u)) r.users).map Prod.fst :=
      List.map_congr_left fun e he => (h.user e.1 e.2 ((mem_range _ _).mp he)).1
    rw [hfst]
    exact nodup_range_keys _ _
  · rw [Room.infoFor, mem_sortSlice, List.mem_map]
    constructor
    · rintro ⟨⟨c, a⟩, he, rfl⟩
      have ha := (mem_range _ _).mp he
      exact ⟨c, a, ha, hentry c a ha⟩
    · rintro ⟨c, a, ha, rfl⟩
      exact ⟨(c, a), (mem_range _ _).mpr ha, hentry c a ha⟩

/-- Every user has been sent the member list of its room. -/
def NewsOk (w : World) : Prop :=
  ∀ R r, w.rooms.rooms.lookup R = some r → ∀ u v, r.users.lookup u = some v →
    ∃ m, latest roomOf (w.log u) = some m ∧ Lists m r v

theorem NewsOk.change (h : w.Ok env) (hn : NewsOk w) (hch : w.Change env ch i w')
    (h' : w'.Ok env) : NewsOk w' := by
  cases hch with
  | upgrade => exact hn
  | stranger => exact hn
  | count =>
    intro R r hr u v hv
    rw [log_count]
    exact hn R r hr u v hv
  | @message c info e he s sent hc hch =>
    obtain ⟨rfl, hw⟩ := h.info c info hc
    intro R r hr u v hv
    rw [log_after, latest_append]
    rcases hch.heard_news h.inv hw hr (Finmap.mem_of_lookup_eq_some hv) with
      ⟨v', hv', hl⟩ | ⟨hl, q, hq, hid, husers⟩
    · rw [hv] at hv'
      cases hv'
      rw [hl]
      exact ⟨_, rfl, (h'.inv.room R r hr).lists hv ch⟩
    · rw [hl, Option.none_or]
      obtain ⟨m, hm, hlists⟩ := hn R q hq u v (husers ▸ hv)
      exact ⟨m, hm, hlists.congr hid husers⟩

theorem server_newsOk (env : Env) : (server env).Always fun w => w.Ok env ∧ NewsOk w := by
  refine server_always (fun R r hr => ?_) fun ch w i w' h hn hch h' => hn.change h hch h'
  simp [World.init, newRooms] at hr

/-- **Room views.** The last member list a user was sent shows the users of its room. -/
theorem views_agree (env : Env) : (server env).Always fun w =>
    ∀ R r, w.rooms.rooms.lookup R = some r → ∀ u v, r.users.lookup u = some v →
      ∃ m, latest roomOf (w.log u) = some m ∧ Lists m r v :=
  (server_newsOk env).mono fun _ hw => hw.2

/-! ## Sessions -/

/-- The announcements a client heard are those that went to its channel. -/
theorem filter_log (w : World) (u sid : XID) :
    (w.log u).filter (Message.Announces sid) =
      heard u (w.sends.filter (Send.Announces sid)) := by
  rw [log_eq_heard, heard, heard, List.filter_filterMap, List.filterMap_filter]
  refine List.filterMap_congr fun y _ => ?_
  cases y with
  | respond n => rfl
  | write ch m =>
    by_cases hch : ch = ⟨u⟩
    · simp only [Send.heardBy, Send.Announces, if_pos hch, Option.filter]
    · simp [Send.heardBy, hch]

/-- What the two sides of a session heard of its beginning. -/
theorem StoryOk.filter_log (hs : StoryOk env w) (h : Inv env w.rooms) (hx : w.rooms.Serves sid x) :
    (∃ ice, (w.log x.host).filter (Message.Announces sid) =
      [.hostSession ⟨sid, x.client, ice⟩]) ∧
    ∃ ice, (w.log x.client).filter (Message.Announces sid) =
      [.clientSession ⟨sid, x.host, ice⟩] := by
  obtain ⟨ice, ice', hf⟩ := hs.announced sid x hx
  have hne := h.serves_ne hx
  rw [Screego.filter_log, Screego.filter_log, hf]
  exact ⟨⟨ice, by simp [heard, Send.heardBy, hne.symm]⟩,
    ice', by simp [heard, Send.heardBy, hne]⟩

/-- **Session views.** A user takes exactly those sessions to be live that its room has for it, as
viewer and as host; it was told of each once, with the other side as its peer; and nobody is told of
the end of a session it has not heard of, or twice. -/
theorem sessions_agree (env : Env) : (server env).Always fun w =>
    (∀ R r, w.rooms.rooms.lookup R = some r → ∀ u, u ∈ r.users →
      (∀ sid, Viewing sid (w.log u) ↔ ∃ x, r.sessions.lookup sid = some x ∧ x.client = u) ∧
      (∀ sid, Hosting sid (w.view u) ↔ ∃ x, r.sessions.lookup sid = some x ∧ x.host = u) ∧
      (∀ sid x, r.sessions.lookup sid = some x → x.client = u → ∃ ice,
        (w.log u).filter (Message.Announces sid) = [.clientSession ⟨sid, x.host, ice⟩]) ∧
      ∀ sid x, r.sessions.lookup sid = some x → x.host = u → ∃ ice,
        (w.log u).filter (Message.Announces sid) = [.hostSession ⟨sid, x.client, ice⟩]) ∧
    ∀ u, Guarded EndGuard (w.log u) := by
  refine (server_storyOk env).mono fun w hw => ?_
  obtain ⟨h, -, hs⟩ := hw
  refine ⟨fun R r hr u hu => ⟨fun sid => ⟨fun hv => ?_, ?_⟩, fun sid => ⟨fun hv => ?_, ?_⟩, ?_, ?_⟩,
    hs.ends⟩
  · obtain ⟨x, hx, hc⟩ := hs.viewers u sid ⟨R, r, hr, hu⟩ hv
    exact ⟨x, (h.inv.serves_iff hr hu (Or.inr hc)).mp hx, hc⟩
  · rintro ⟨x, hx, rfl⟩
    exact hs.viewing ⟨R, r, hr, hx⟩
  · obtain ⟨x, hx, hh⟩ := hs.hosts u sid ⟨R, r, hr, hu⟩ hv
    exact ⟨x, (h.inv.serves_iff hr hu (Or.inl hh)).mp hx, hh⟩
  · rintro ⟨x, hx, rfl⟩
    exact hs.hosting sid x ⟨R, r, hr, hx⟩
  · rintro sid x hx rfl
    exact (hs.filter_log h.inv ⟨R, r, hr, hx⟩).2
  · rintro sid x hx rfl
    exact (hs.filter_log h.inv ⟨R, r, hr, hx⟩).1

end Screego
