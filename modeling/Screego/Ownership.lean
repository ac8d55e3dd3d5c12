import Screego.Views
import Screego.Visitors

/-!
# What members are told about owners

The visitor IDs of all users are in the member lists, and a visitor ID is all a connection needs to
be taken for another connection of the visitor.

* `Message.Tells`: the texts in the places of ids and visitor IDs of a message;
* `Room.Clean`: the texts a room has to tell are trimmed; **`TextsOk`**: so is all that was told;
* **`only_the_owner_id_owns`**: of all a member was told, the visitor ID of the owner, and nothing
  else, makes a new connection an owner; every member was told it;
* `told_id_owns`: a run in which a member is told so.
-/

set_option autoImplicit false

namespace Screego

open Lib Outgoing

variable {env : Env} {ch : Choice} {s t : Rooms} {info : ClientInfo} {e : Event} {sent : List Send}
  {w w' w₁ w₂ : World} {i : Input} {c u : XID} {R v o : String} {r r' : Screego.Room}

/-! ## Texts -/

/-- **The text stands in the place of an id or of a visitor ID** in the message. -/
def Outgoing.Message.Tells (env : Env) (v : String) : Message → Prop
  | .room m => v = m.id ∨ ∃ u ∈ m.users, v = env.xidString u.id ∨ v = u.visitorID
  | .hostSession m => v = env.xidString m.id ∨ v = env.xidString m.peer
  | .clientSession m => v = env.xidString m.id ∨ v = env.xidString m.peer
  | .hostICE m => v = env.xidString m.sid
  | .clientICE m => v = env.xidString m.sid
  | .clientAnswer m => v = env.xidString m.sid
  | .hostOffer m => v = env.xidString m.sid
  | .endShare id => v = env.xidString id
  | .closeWriter _ _ => False

instance (env : Env) (v : String) : DecidablePred (Message.Tells env v)
  | .room m => inferInstanceAs
      (Decidable (v = m.id ∨ ∃ u ∈ m.users, v = env.xidString u.id ∨ v = u.visitorID))
  | .hostSession m => inferInstanceAs (Decidable (v = env.xidString m.id ∨ v = env.xidString m.peer))
  | .clientSession m =>
    inferInstanceAs (Decidable (v = env.xidString m.id ∨ v = env.xidString m.peer))
  | .hostICE m => inferInstanceAs (Decidable (v = env.xidString m.sid))
  | .clientICE m => inferInstanceAs (Decidable (v = env.xidString m.sid))
  | .clientAnswer m => inferInstanceAs (Decidable (v = env.xidString m.sid))
  | .hostOffer m => inferInstanceAs (Decidable (v = env.xidString m.sid))
  | .endShare id => inferInstanceAs (Decidable (v = env.xidString id))
  | .closeWriter _ _ => inferInstanceAs (Decidable False)

/-- The client was told the text. -/
def World.Told (env : Env) (w : World) (u : XID) (v : String) : Prop :=
  ∃ m ∈ w.log u, m.Tells env v

/-- The message tells trimmed texts. -/
def Neat (env : Env) (m : Message) : Prop := ∀ v, m.Tells env v → Trimmed v

/-- The texts the room has to tell are trimmed. -/
structure Room.Clean (r : Screego.Room) : Prop where
  id : Trimmed r.id
  visitorID : ∀ c u, r.users.lookup c = some u → Trimmed u.visitorID

theorem Room.Clean.put (h : r.Clean) {u : Screego.User} (hu : Trimmed u.visitorID) :
    (r.put u).Clean where
  id := h.id
  visitorID c u' hu' := by
    rw [lookup_put] at hu'
    split_ifs at hu'
    · exact Option.some.inj hu' ▸ hu
    · exact h.visitorID c u' hu'

theorem Room.Clean.without (h : r.Clean) (c : XID) : (r.without c).Clean where
  id := h.id
  visitorID c' u' hu' := by
    obtain ⟨u, hu, hlike⟩ := lookup_remaining hu'
    exact hlike.visitorID ▸ h.visitorID c' u hu

theorem RoomOk.clean (h : RoomOk R r) (hv : r.Visitors) : r.Clean where
  id := by
    rw [h.id_eq]
    exact ⟨h.trimmed, h.ne_empty⟩
  visitorID := hv.visitorID

/-- The member lists of a room. -/
theorem Room.Clean.neat (h : r.Clean) (env : Env) (ch : Choice) :
    Every (Neat env) (r.notifyInfoChanged ch) := by
  intro out m hm v hv
  obtain ⟨current, -, heq⟩ := List.mem_map.mp hm
  cases heq
  rcases hv with rfl | ⟨y, hy, hv⟩
  · exact h.id
  · rw [Room.infoFor, mem_sortSlice, List.mem_map] at hy
    obtain ⟨⟨c, a⟩, ha, rfl⟩ := hy
    rcases hv with rfl | rfl
    · exact trimmed_xidString env _
    · exact h.visitorID c a ((mem_range _ _).mp ha)

theorem neat_announce (v4 v6 : Option IP) (mode : ConnectionMode) (turn : Turn.Server)
    (A : List (XID × RoomSession)) :
    Every (Neat env) (A.flatMap (announce env ch v4 v6 mode turn)) := by
  refine every_announce (fun q v hv => ?_) (fun q v hv => ?_) v4 v6 mode turn A
  · rcases hv with rfl | rfl <;> exact trimmed_xidString env _
  · rcases hv with rfl | rfl <;> exact trimmed_xidString env _

theorem neat_endShares (peer : RoomSession → XID) (L : List (XID × RoomSession)) :
    Every (Neat env) (endShares peer L) :=
  every_endShares (fun id v hv => by rw [hv]; exact trimmed_xidString env id) peer L

theorem neat_close (d : Disconnected) (c : XID) : Every (Neat env) [d.close c] :=
  every_close (fun _ _ _ hv => hv.elim) d c

theorem neat_signal (k : Signal) (m : P2PMessage) (u : XID) :
    Every (Neat env) [.write ⟨u⟩ (k.message m)] := by
  refine every_signal (fun v hv => ?_) u
  have hsid : v = env.xidString m.sid := by cases k <;> exact hv
  rw [hsid]
  exact trimmed_xidString env m.sid

/-! ## Everything told -/

/-- All rooms have trimmed texts to tell. -/
def Rooms.Clean (s : Rooms) : Prop := ∀ R r, s.rooms.lookup R = some r → r.Clean

theorem Departs.neat (hs : s.Clean) {d : Disconnected} (hd : Departs env ch s c d t sent) :
    Every (Neat env) sent := by
  cases hd with
  | idle => exact neat_close d c
  | stays hin =>
    exact ((neat_close d c).append (neat_endShares _ _)).append
      (((hs _ _ hin.room).without c).neat env ch)
  | closes =>
    exact ((neat_close d c).append (neat_endShares _ _)).append
      (every_ownerLeft (fun _ _ _ hv => hv.elim) _)

/-- **A message tells trimmed texts.** -/
theorem Change.neat (hs : s.Clean) (hch : Change env ch s info e t sent) :
    Every (Neat env) sent := by
  cases hch with
  | skip | stale => exact every_nil
  | name n hin => exact (hs _ _ hin.room).neat env ch
  | relay k m => exact neat_signal k m _
  | @create R q hc hR hr ha =>
    refine Room.Clean.neat ⟨?_, (createRoom_visitors env info R q).visitorID⟩ env ch
    obtain ⟨rfl, hlen⟩ := normalizeRoomID_eq_ok.mp hR
    refine ⟨trimSpace_idem _, fun hempty => ?_⟩
    have hid : trimSpace q.id = "" := hempty
    rw [hid] at hlen
    exact absurd hlen (by decide)
  | @join e R v r r' v4 v6 A hc he hr hget hr' hA =>
    subst hr'
    have hnew := joinUser_visitorID_trimmed env ch info r v
    exact (((hs R r hr).put hnew).neat env ch).append (neat_announce _ _ _ _ _)
  | @bounce e R v err r hc he hr hget =>
    have hnew := joinUser_visitorID_trimmed env ch info r v
    exact (((hs R r hr).put hnew).neat env ch).append
      ((neat_close _ _).append ((hs R r hr).neat env ch))
  | @share R r r' u v4 v6 A hin hu hget hr' hA =>
    subst hr'
    have hr := hs R r hin.room
    exact (neat_announce _ _ _ _ _).append
      ((hr.put (u := { u with streaming := true }) (hr.visitorID _ u hu)).neat env ch)
  | @unshare R r r' u hin hu hr' =>
    subst hr'
    have hr := hs R r hin.room
    exact (neat_endShares _ _).append
      ((hr.put (u := { u with streaming := false }) (hr.visitorID _ u hu)).neat env ch)
  | depart d hd => exact hd.neat hs

/-- **All texts told are trimmed.** -/
def TextsOk (env : Env) (w : World) : Prop := ∀ u, ∀ m ∈ w.log u, Neat env m

theorem server_textsOk (env : Env) : (server env).Always fun w =>
    (w.Ok env ∧ VisitorsOk w) ∧ TextsOk env w := by
  refine (server_visitorsOk env).and_of_step (fun u m hm => ?_) ?_
  · exact absurd hm List.not_mem_nil
  rintro w ⟨ch, i⟩ w' ⟨h, hv⟩ ht hs -
  cases h.change_of_step hs with
  | upgrade | stranger => exact ht
  | count =>
    intro u m hm
    rw [log_count] at hm
    exact ht u m hm
  | message hc hch =>
    intro u m hm
    rw [log_after, List.mem_append] at hm
    have hclean : w.rooms.Clean := fun R r hr => (h.inv.room R r hr).clean (hv R r hr)
    rcases hm with hm | hm
    · exact ht u m hm
    · exact (hch.neat hclean).heard u m hm

/-! ## New connections -/

/-- The visitor owns the room. -/
def Room.OwnedBy (r : Screego.Room) (o : String) : Prop :=
  ∃ c u, r.users.lookup c = some u ∧ u.visitorID = o ∧ u.owner = true

/-- The room has one owner, the visitor `o`. -/
theorem Room.Visitors.visitorOwner_iff (h : r.Visitors) (ho : r.OwnedBy o) (hv : v ≠ "") :
    r.visitorOwner ch v = true ↔ v = o := by
  obtain ⟨c, u, hu, huo, howner⟩ := ho
  rw [Room.visitorOwner_iff]
  constructor
  · rintro ⟨-, c', u', hu', rfl, howner'⟩
    rw [← huo]
    exact (h.fits c' c u' u hu' hu).visitorID howner' howner
  · rintro rfl
    exact ⟨hv, c, u, hu, huo, howner⟩

/-- **The connection that joins is an owner** if and only if it joins under the owner's visitor ID,
and the server knows an address. -/
theorem owns_iff (h : w.Ok env) (hvis : VisitorsOk w) (hinfo : w.clients.lookup c = some info)
    (hidle : w.rooms.connected.lookup c = some "") (hr : w.rooms.rooms.lookup R = some r)
    (ho : r.OwnedBy o) {j : Join} (hj : normalizeRoomID j.id = .ok R) (hv : Trimmed j.visitorID)
    (hs : w.step env (ch, .receive c (.join j) rfl) = some w') :
    (∃ r' u', w'.rooms.rooms.lookup R = some r' ∧ r'.users.lookup c = some u' ∧
      u'.owner = true) ↔ j.visitorID = o ∧ ∃ ips, ch.get = .ok ips := by
  obtain ⟨rfl, hw⟩ := h.info c info hinfo
  have hjoins : (Event.join j).Joins R j.visitorID := ⟨hj, rfl⟩
  have howner : (joinUser env ch info r j.visitorID).owner = true ↔ j.visitorID = o := by
    rw [joinUser_owner]
    simp only [joinUser, normalizeVisitorID_of_trimmed env hv]
    exact (hvis R r hr).visitorOwner_iff ho hv.2
  constructor
  · rintro ⟨r', u', hr', hu', hown⟩
    cases h.change_of_step hs with
    | stranger hc => exact absurd (Finmap.mem_of_lookup_eq_some hinfo) hc
    | @message _ info' _ _ s sent hinfo' hch =>
      obtain rfl := Option.some.inj (hinfo.symm.trans hinfo')
      have hnew := h.inv.notMem_of_idle hidle hr
      have hold : ∀ {q : Screego.Room}, w.rooms.rooms.lookup R = some q →
          q.users.lookup info.id ≠ some u' := by
        intro q hq hu
        obtain rfl := Option.some.inj (hr.symm.trans hq)
        exact hnew (Finmap.mem_of_lookup_eq_some hu)
      have hin : ∀ {q}, ¬ w.rooms.InRoom info.id R q := fun hin =>
        hin.ne (Option.some.inj (hin.at_.symm.trans hidle))
      cases hch.roomStep hr' with
      | same hr₀ => exact absurd hu' (hold hr₀)
      | created he => cases he
      | @joined q v hc he hq hget hlike husers =>
        obtain rfl := Option.some.inj (hr.symm.trans hq)
        obtain ⟨-, rfl⟩ := he
        have hid : (joinUser env ch info r j.visitorID).id = info.id := rfl
        rw [husers, lookup_put, if_pos hid.symm] at hu'
        cases hu'
        exact ⟨howner.mp hown, hget⟩
      | flagged hc => exact absurd hc hin
      | left hc => exact absurd hc hin
  · rintro ⟨hvo, ips, hget⟩
    obtain ⟨sent, hhandle⟩ := handle_joins h.inv hw hidle hjoins hr hget
    simp only [World.step, hinfo, hhandle, Option.map_some, Option.some.injEq] at hs
    subst hs
    refine ⟨_, joinUser env ch info r j.visitorID, Finmap.lookup_insert _, ?_, howner.mpr hvo⟩
    exact Finmap.lookup_insert _

/-- **Ownership by hearsay.** In a room with an owner, every user was told the owner's visitor ID;
and of all texts a user was told as ids or visitor IDs, only this one makes a new connection that
joins under it an owner. -/
theorem only_the_owner_id_owns (env : Env) : (server env).Always fun w =>
    ∀ R r o u, w.rooms.rooms.lookup R = some r → r.OwnedBy o → u ∈ r.users →
      w.Told env u o ∧
      ∀ v, w.Told env u v → ∀ ch₀ ch addr user authenticated (j : Join) w₁ w₂,
        normalizeRoomID j.id = .ok R → j.visitorID = v →
        w.step env (ch₀, .upgrade addr user authenticated) = some w₁ →
        w₁.step env (ch, .receive (env.xidNew w.rooms.drawn) (.join j) rfl) = some w₂ →
        ((∃ r' u', w₂.rooms.rooms.lookup R = some r' ∧
          r'.users.lookup (env.xidNew w.rooms.drawn) = some u' ∧ u'.owner = true) ↔
            v = o ∧ ∃ ips, ch.get = .ok ips) := by
  intro is
  obtain ⟨w, hrun, ⟨h, hvis⟩, htexts⟩ := server_textsOk env is
  have hnews := ((server_newsOk env).of_run hrun).2
  refine ⟨w, hrun, fun R r o u hr ho hu => ⟨?_, fun v htold => ?_⟩⟩
  · obtain ⟨a, ha⟩ := Finmap.mem_iff.mp hu
    obtain ⟨m, hm, -, -, hlist⟩ := hnews R r hr u a ha
    obtain ⟨c, b, hb, hbo, -⟩ := ho
    have hmem : Message.room m ∈ w.log u := by
      obtain ⟨x, hx, hxm⟩ := List.mem_filterMap.mp (List.mem_of_getLast? hm)
      cases x with
      | room q => exact Option.some.inj hxm ▸ hx
      | _ => cases hxm
    exact ⟨_, hmem, Or.inr ⟨entryFor a c b, (hlist _).mpr ⟨c, b, hb, rfl⟩, Or.inr hbo.symm⟩⟩
  · rintro ch₀ ch addr user authenticated j w₁ w₂ hj rfl hs₁ hs₂
    obtain ⟨m, hm, htells⟩ := htold
    have hch := h.change_of_step hs₁
    have h₁ := h.change hch
    cases hch with
    | upgrade =>
      exact owns_iff h₁ hvis (Finmap.lookup_insert _) (Finmap.lookup_insert _) hr ho hj
        (htexts u m hm _ htells) hs₂

/-! ## A member that is told -/

/-- A visitor creates a room, and another one joins it. -/
def guestJoins : List (Choice × Input) :=
  createAlone ++ [.upgrade [] "" false, .join ⟨1⟩ ⟨"room", "", "b"⟩].map
    fun i => (Choice.plain, i)

/-- A new connection joins the room under the first visitor's ID. -/
def replays : List (Choice × Input) :=
  [.upgrade [] "" false, .join ⟨2⟩ ⟨"room", "", "a"⟩].map fun i => (Choice.plain, i)

/-- **A guest is told what makes a new connection an owner.** -/
theorem told_id_owns : ∃ w r a b w' r' x,
    (server openServer).run guestJoins = some w ∧ w.rooms.rooms.lookup "room" = some r ∧
    r.users.lookup ⟨0⟩ = some a ∧ a.visitorID = "a" ∧ a.owner = true ∧
    r.users.lookup ⟨1⟩ = some b ∧ b.visitorID ≠ "a" ∧ w.Told openServer ⟨1⟩ "a" ∧
    (server openServer).run (guestJoins ++ replays) = some w' ∧
    w'.rooms.rooms.lookup "room" = some r' ∧ r'.users.lookup ⟨2⟩ = some x ∧ x.owner = true := by
  have hbefore : ((server openServer).run guestJoins).bind (fun w =>
      (w.rooms.rooms.lookup "room").bind fun r => (r.users.lookup ⟨0⟩).bind fun a =>
        (r.users.lookup ⟨1⟩).map fun b => (a.visitorID, a.owner, decide (b.visitorID = "a"),
          decide (∃ m ∈ w.log ⟨1⟩, m.Tells openServer "a"))) = some ("a", true, false, true) := by
    decide +kernel
  have hafter : ((server openServer).run (guestJoins ++ replays)).bind (fun w =>
      (w.rooms.rooms.lookup "room").bind fun r => (r.users.lookup ⟨2⟩).map Screego.User.owner) =
        some true := by
    decide +kernel
  obtain ⟨w, hw, hbefore⟩ := Option.bind_eq_some_iff.mp hbefore
  obtain ⟨r, hr, hbefore⟩ := Option.bind_eq_some_iff.mp hbefore
  obtain ⟨a, ha, hbefore⟩ := Option.bind_eq_some_iff.mp hbefore
  obtain ⟨b, hb, hbefore⟩ := Option.map_eq_some_iff.mp hbefore
  obtain ⟨w', hw', hafter⟩ := Option.bind_eq_some_iff.mp hafter
  obtain ⟨r', hr', hafter⟩ := Option.bind_eq_some_iff.mp hafter
  obtain ⟨x, hx, howner⟩ := Option.map_eq_some_iff.mp hafter
  simp only [Prod.mk.injEq, decide_eq_false_iff_not, decide_eq_true_eq] at hbefore
  obtain ⟨hav, hao, hbv, htold⟩ := hbefore
  exact ⟨w, r, a, b, w', r', x, hw, hr, ha, hav, hao, hb, hbv, htold, hw', hr', hx, howner⟩

end Screego
