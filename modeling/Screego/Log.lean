import Screego.Effect
import Screego.RoomStep

/-!
# What a client is told

The log of a client, by what the server knows of the client.

* `NoClose`, `Open`, `Closed`: the shapes of logs;
* `Change.heard_other`, `Change.heard_idle`, `Change.heard_seated`: what one message adds to the log
  of a client that is not its sender and in no room, of its sender in no room, of a user;
* `Change.heard_news`: a user whose room changes hears its member list last;
* **`LogOk`**, `LogOk.change`: the logs in every state of a run.
-/

set_option autoImplicit false

namespace Screego

open Lib Outgoing

variable {env : Env} {ch : Choice} {s t : Rooms} {info : ClientInfo} {e : Event} {sent : List Send}
  {R : String} {r r' : Room} {u c : XID}

/-! ## Shapes of logs -/

/-- The writer is not closed. -/
def NoClose (l : List Message) : Prop := ∀ m ∈ l, ¬ m.IsClose

/-- The log begins with a member list, and the writer is not closed. -/
def Open (l : List Message) : Prop := ∃ m body, l = .room m :: body ∧ NoClose body

/-- The log ends with the one message that closes the writer. -/
def Closed (l : List Message) : Prop := ∃ pre m, l = pre ++ [m] ∧ m.IsClose ∧ (pre = [] ∨ Open pre)

theorem NoClose.append {l l' : List Message} (h : NoClose l) (h' : NoClose l') : NoClose (l ++ l') :=
  fun m hm => (List.mem_append.mp hm).elim (h m) (h' m)

theorem noClose_nil : NoClose [] := fun _ hm => absurd hm List.not_mem_nil

theorem Open.append {l l' : List Message} (h : Open l) (h' : NoClose l') : Open (l ++ l') := by
  obtain ⟨m, body, rfl, hbody⟩ := h
  exact ⟨m, body ++ l', rfl, hbody.append h'⟩

theorem Open.closed {l pre : List Message} {m : Message} (h : Open l) (hpre : NoClose pre)
    (hm : m.IsClose) : Closed (l ++ (pre ++ [m])) :=
  ⟨l ++ pre, m, by rw [List.append_assoc], hm, Or.inr (h.append hpre)⟩

theorem noClose_news (ch : Choice) (r : Room) (u : XID) : NoClose (r.news ch u) := by
  intro m hm
  obtain ⟨v, -, rfl⟩ := Option.map_eq_some_iff.mp (Option.mem_toList.mp hm)
  exact id

theorem noClose_announce (v4 v6 : Option IP) (mode : ConnectionMode) (turn : Turn.Server)
    (A : List (XID × RoomSession)) (u : XID) :
    NoClose (heard u (A.flatMap (announce env ch v4 v6 mode turn))) :=
  (every_announce (fun _ => id) (fun _ => id) v4 v6 mode turn A).heard u

theorem noClose_endShares (peer : RoomSession → XID) (L : List (XID × RoomSession)) (u : XID) :
    NoClose (heard u (endShares peer L)) := (every_endShares (fun _ => id) peer L).heard u

theorem noClose_signal (k : Signal) (m : P2PMessage) (v u : XID) :
    NoClose (heard u [.write ⟨v⟩ (k.message m)]) :=
  (every_signal (by cases k <;> exact id) v).heard u

/-! ## Who hears anything -/

theorem mem_users_of_mem_notify (h : r.Keyed) {m : Message}
    (hm : .write ⟨u⟩ m ∈ r.notifyInfoChanged ch) : u ∈ r.users := by
  by_contra hu
  have := mem_heard.mpr hm
  rw [heard_notifyInfoChanged h, Room.news_of_notMem hu] at this
  exact absurd this List.not_mem_nil

theorem mem_of_mem_announce {v4 v6 : Option IP} {mode : ConnectionMode} {turn : Turn.Server}
    {A : List (XID × RoomSession)} {m : Message}
    (hm : .write ⟨u⟩ m ∈ A.flatMap (announce env ch v4 v6 mode turn)) :
    ∃ a ∈ A, u = a.2.host ∨ u = a.2.client := by
  obtain ⟨a, ha, hy⟩ := List.mem_flatMap.mp hm
  refine ⟨a, ha, ?_⟩
  rcases List.mem_cons.mp hy with hy | hy
  · cases hy
    exact Or.inl rfl
  · cases List.mem_singleton.mp hy
    exact Or.inr rfl

theorem mem_of_mem_endShares {peer : RoomSession → XID} {L : List (XID × RoomSession)} {m : Message}
    (hm : .write ⟨u⟩ m ∈ endShares peer L) : ∃ a ∈ L, u = peer a.2 := by
  obtain ⟨a, ha, he⟩ := List.mem_map.mp hm
  cases he
  exact ⟨a, ha, rfl⟩

theorem heard_eq_nil {l : List Send} (h : ∀ m, .write ⟨u⟩ m ∉ l) : heard u l = [] :=
  List.eq_nil_iff_forall_not_mem.mpr fun m hm => h m (mem_heard.mp hm)

/-- Who is a user is a matter of `connected`. -/
theorem Inv.seats_iff (h : Inv env s) : s.Seats u ↔ ∃ R, R ≠ "" ∧ s.connected.lookup u = some R := by
  constructor
  · rintro ⟨R, r, hr, hu⟩
    exact ⟨R, h.key_ne_empty hr, (h.inRoom hr hu).at_⟩
  · rintro ⟨R, hne, hR⟩
    obtain ⟨r, hr, hu⟩ := (h.member u R hne).mp hR
    exact ⟨R, r, hr, hu⟩

theorem Inv.seats_inRoom (h : Inv env s) (hc : s.InRoom c R r) : s.Seats c :=
  ⟨R, r, hc.room, h.mem_users hc⟩

theorem RoomOk.keyed_put (h : RoomOk R r) {v : User} (hw : v.write = ⟨v.id⟩) : (r.put v).Keyed :=
  fun _ _ hu => h.put_user hw hu

/-- Putting a user back changes a flag, not the keys. -/
theorem RoomOk.keyed_stream (h : RoomOk R r) {v : User} (hv : r.users.lookup c = some v) (b : Bool) :
    v.id = c ∧ (r.put { v with streaming := b }).Keyed := by
  obtain ⟨hid, hw, -⟩ := h.user c v hv
  exact ⟨hid, h.keyed_put (v := { v with streaming := b }) (by rw [hw, hid])⟩

theorem createRoom_keyed (hw : info.write = ⟨info.id⟩) (R : String) (q : Create) :
    (createRoom env info R q).Keyed := by
  intro c v hv
  obtain ⟨rfl, rfl⟩ := lookup_createRoom hv
  exact ⟨rfl, hw⟩

/-- Whom the new sessions of a joining user concern. -/
theorem mem_joined (h : r.Keyed) {a : XID × RoomSession} {n : ℕ}
    (ha : a ∈ newEntries env n (joinPairs ch c r.users)) (hu : u = a.2.host ∨ u = a.2.client) :
    u = c ∨ u ∈ r.users := by
  obtain ⟨hcl, -, v, hv, -⟩ :=
    (mem_joinPairs fun c v hv => (h c v hv).1).mp (exists_newEntries.mp ⟨a, ha, rfl⟩)
  rcases hu with rfl | rfl
  · exact Or.inr (Finmap.mem_of_lookup_eq_some hv)
  · exact Or.inl hcl

/-- Whom the new sessions of a sharing user concern. -/
theorem mem_shared (h : r.Keyed) {a : XID × RoomSession} {n : ℕ}
    (ha : a ∈ newEntries env n (sharePairs ch c r.users)) (hu : u = a.2.host ∨ u = a.2.client) :
    u = c ∨ u ∈ r.users := by
  obtain ⟨hh, -, hcl⟩ :=
    (mem_sharePairs fun c v hv => (h c v hv).1).mp (exists_newEntries.mp ⟨a, ha, rfl⟩)
  rcases hu with rfl | rfl
  · exact Or.inl hh
  · exact Or.inr hcl

theorem Rooms.Near.seats (h : s.Near c e u) : s.Seats u := by
  obtain ⟨R, r, -, hr, hu⟩ := h
  exact ⟨R, r, hr, hu⟩

theorem Departs.mem_sent (h : Inv env s) {d : Disconnected} (hd : Departs env ch s c d t sent)
    {m : Message} (hm : .write ⟨u⟩ m ∈ sent) : u = c ∨ s.Near c e u := by
  have hending : ∀ {R r}, s.InRoom c R r →
      .write ⟨u⟩ m ∈ endShares (RoomSession.other c) (r.ending ch c) → s.Near c e u := by
    intro R r hin hm
    obtain ⟨a, ha, rfl⟩ := mem_of_mem_endShares hm
    have hx := (mem_range _ _).mp (List.mem_of_mem_filter ha)
    exact hin.near e ((h.room R r hin.room).other_mem hx).2
  cases hd with
  | idle hc =>
    cases List.mem_singleton.mp hm
    exact Or.inl rfl
  | @stays R r v hin hv hcl =>
    rw [List.cons_append] at hm
    rcases List.mem_cons.mp hm with hm | hm
    · cases hm
      exact Or.inl rfl
    rcases List.mem_append.mp hm with hm | hm
    · exact Or.inr (hending hin hm)
    · have hu := mem_users_of_mem_notify ((h.room R r hin.room).keyed.without c) hm
      exact Or.inr (hin.near e ((mem_without r c u).mp hu).2)
  | @closes R r v hin hv hcl =>
    rw [List.cons_append] at hm
    rcases List.mem_cons.mp hm with hm | hm
    · cases hm
      exact Or.inl rfl
    rcases List.mem_append.mp hm with hm | hm
    · exact Or.inr (hending hin hm)
    · have hu := mem_heard.mpr hm
      rw [heard_ownerLeft (h.room R r hin.room).keyed] at hu
      split_ifs at hu with hmem
      · exact Or.inr (hin.near e ((mem_without r c u).mp hmem).2)
      · exact absurd hu List.not_mem_nil

/-- **Messages go to the sender and to users of the rooms the event is about.** -/
theorem Change.mem_sent (h : Inv env s) (hw : info.write = ⟨info.id⟩)
    (hch : Change env ch s info e t sent) {m : Message} (hm : .write ⟨u⟩ m ∈ sent) :
    u = info.id ∨ s.Near info.id e u := by
  have hput : ∀ {R r} {v : User}, s.Concerns info.id e R → s.rooms.lookup R = some r →
      v.id = info.id → u ∈ (r.put v).users → u = info.id ∨ s.Near info.id e u := by
    intro R r v hR hr hid hu
    rcases (mem_put r v u).mp hu with rfl | hu
    · exact Or.inl hid
    · exact Or.inr ⟨R, r, hR, hr, hu⟩
  cases hch with
  | skip hc => exact absurd hm List.not_mem_nil
  | @name R r n hc =>
    exact Or.inr (hc.near _ (mem_users_of_mem_notify (h.room R r hc.room).keyed hm))
  | stale k m' hc hx => exact absurd hm List.not_mem_nil
  | @relay R r x k m' hc hx hs =>
    cases List.mem_singleton.mp hm
    have hR := h.room R r hc.room
    refine Or.inr (hc.near _ ?_)
    cases k
    · exact hR.client_mem hx
    · exact hR.client_mem hx
    · exact hR.host_mem hx
    · exact hR.host_mem hx
  | @create R q hc hR hr ha =>
    have hu := mem_users_of_mem_notify (createRoom_keyed hw R q) hm
    refine Or.inl ?_
    simpa [createRoom, Finmap.notMem_empty] using hu
  | @join e R v r r' v4 v6 A hc he hr hget hr' hA =>
    subst hr' hA
    have hk : (r.put (joinUser env ch info r v)).Keyed := (h.room R r hr).keyed_put hw
    have hR : s.Concerns info.id e R := Or.inr he.names
    rcases List.mem_append.mp hm with hm | hm
    · exact hput hR hr rfl (mem_users_of_mem_notify hk hm)
    · obtain ⟨a, ha, hu⟩ := mem_of_mem_announce hm
      exact (mem_joined hk ha hu).elim Or.inl (hput hR hr rfl)
  | @bounce e R v err r hc he hr hget =>
    have hk : (r.put (joinUser env ch info r v)).Keyed := (h.room R r hr).keyed_put hw
    have hR : s.Concerns info.id e R := Or.inr he.names
    rcases List.mem_append.mp hm with hm | hm
    · exact hput hR hr rfl (mem_users_of_mem_notify hk hm)
    rcases List.mem_cons.mp hm with hm | hm
    · cases hm
      exact Or.inl rfl
    · exact Or.inr ⟨R, r, hR, hr, mem_users_of_mem_notify (h.room R r hr).keyed hm⟩
  | @share R r r' v v4 v6 A hc hv hget hr' hA =>
    subst hr' hA
    obtain ⟨hid, hk⟩ := (h.room R r hc.room).keyed_stream hv true
    rcases List.mem_append.mp hm with hm | hm
    · obtain ⟨a, ha, hu⟩ := mem_of_mem_announce hm
      exact (mem_shared hk ha hu).elim Or.inl
        (hput (v := { v with streaming := true }) (hc.concerns _) hc.room hid)
    · exact hput (v := { v with streaming := true }) (hc.concerns _) hc.room hid
        (mem_users_of_mem_notify hk hm)
  | @unshare R r r' v hc hv hr' =>
    subst hr'
    obtain ⟨hid, hk⟩ := (h.room R r hc.room).keyed_stream hv false
    rcases List.mem_append.mp hm with hm | hm
    · obtain ⟨a, ha, rfl⟩ := mem_of_mem_endShares hm
      have hx := (mem_range _ _).mp (List.mem_of_mem_filter ha)
      exact Or.inr (hc.near _ ((h.room R r hc.room).client_mem hx))
    · exact hput (v := { v with streaming := false }) (hc.concerns _) hc.room hid
        (mem_users_of_mem_notify hk hm)
  | depart d hd => exact hd.mem_sent h hm

/-! ## What a message adds to the log -/

/-- The sender aside, a message only disconnects users of the rooms it is about. -/
theorem Change.lookup_connected (h : Inv env s) (hch : Change env ch s info e t sent)
    (hu : u ≠ info.id) : t.connected.lookup u = s.connected.lookup u ∨
      (u ∉ t.connected ∧ s.Near info.id e u) := by
  have hinsert : ∀ R, Finmap.lookup u (s.connected.insert info.id R) = s.connected.lookup u :=
    fun R => Finmap.lookup_insert_of_ne _ hu
  have herase : Finmap.lookup u (s.connected.erase info.id) = s.connected.lookup u :=
    Finmap.lookup_erase_ne hu
  cases hch with
  | skip | name | stale | relay | share | unshare => exact Or.inl rfl
  | create => exact Or.inl (hinsert _)
  | join => exact Or.inl (hinsert _)
  | bounce => exact Or.inl ((Finmap.lookup_erase_ne hu).trans (hinsert _))
  | depart d hd =>
    cases hd with
    | idle | stays => exact Or.inl herase
    | @closes R r v hin hv hcl =>
      rw [h.lookup_finished hin]
      split_ifs with hmem
      · refine Or.inr ⟨?_, hin.near e hmem⟩
        rw [← Finmap.lookup_eq_none, h.lookup_finished hin, if_pos hmem]
      · exact Or.inl rfl

/-- **A client that is neither the sender nor a user hears nothing.** -/
theorem Change.heard_other (h : Inv env s) (hw : info.write = ⟨info.id⟩)
    (hch : Change env ch s info e t sent) (hu : u ≠ info.id) (hs : ¬ s.Seats u) :
    heard u sent = [] ∧ t.connected.lookup u = s.connected.lookup u := by
  refine ⟨heard_eq_nil fun m hm => ?_, ?_⟩
  · exact (hch.mem_sent h hw hm).elim hu fun hnear => hs hnear.seats
  · exact (hch.lookup_connected h hu).resolve_right fun hg => hs hg.2.seats

/-- A message of a client that is gone changes nothing. -/
theorem Change.eq_of_notMem (hch : Change env ch s info e t sent) (hc : info.id ∉ s.connected) :
    t = s ∧ sent = [] := by
  have hin : ∀ {R r}, ¬ s.InRoom info.id R r := fun hin => hc (Finmap.mem_of_lookup_eq_some hin.at_)
  have hidle : s.connected.lookup info.id ≠ some "" := fun hi =>
    hc (Finmap.mem_of_lookup_eq_some hi)
  cases hch with
  | skip => exact ⟨rfl, rfl⟩
  | name _ hc | stale _ _ hc | relay _ _ hc | share hc | unshare hc => exact absurd hc hin
  | create hc | join hc | bounce hc => exact absurd hc hidle
  | depart d hd =>
    cases hd with
    | idle hc => exact absurd hc hidle
    | stays hc | closes hc => exact absurd hc hin

/-- **A sender in no room** enters one, or is gone. -/
theorem Change.heard_idle (h : Inv env s) (hw : info.write = ⟨info.id⟩)
    (hch : Change env ch s info e t sent) (hc : s.connected.lookup info.id = some "") :
    (t.Seats info.id ∧ Open (heard info.id sent)) ∨
      (info.id ∉ t.connected ∧ Closed (heard info.id sent)) := by
  have hin : ∀ {R r}, ¬ s.InRoom info.id R r := fun hin => hin.ne
    (Option.some.inj (hin.at_.symm.trans hc))
  have hnot : ∀ {R r}, s.rooms.lookup R = some r → info.id ∉ r.users := fun hr =>
    h.notMem_of_idle hc hr
  cases hch with
  | skip hskip => exact absurd (Finmap.mem_of_lookup_eq_some hc) hskip
  | name _ hc | stale _ _ hc | relay _ _ hc | share hc | unshare hc => exact absurd hc hin
  | @create R q hc hR hr ha =>
    have hlook : (createRoom env info R q).users.lookup info.id = some (createUser env info q) :=
      Finmap.lookup_insert _
    refine Or.inl ⟨⟨R, _, Finmap.lookup_insert _, Finmap.mem_of_lookup_eq_some hlook⟩, ?_⟩
    rw [heard_notifyInfoChanged (createRoom_keyed hw R q), Room.news_of_lookup hlook]
    exact ⟨_, [], rfl, noClose_nil⟩
  | @join e R v r r' v4 v6 A hc he hr hget hr' hA =>
    subst hr'
    have hlook : (r.put (joinUser env ch info r v)).users.lookup info.id =
      some (joinUser env ch info r v) := Finmap.lookup_insert _
    refine Or.inl ⟨⟨R, _, Finmap.lookup_insert _, Finmap.mem_of_lookup_eq_some hlook⟩, ?_⟩
    rw [heard_append, heard_notifyInfoChanged ((h.room R r hr).keyed_put hw),
      Room.news_of_lookup hlook]
    exact ⟨_, _, rfl, noClose_announce _ _ _ _ _ _⟩
  | @bounce e R v err r hc he hr hget =>
    have hlook : (r.put (joinUser env ch info r v)).users.lookup info.id =
      some (joinUser env ch info r v) := Finmap.lookup_insert _
    refine Or.inr ⟨fun hmem => (Finmap.mem_erase.mp hmem).1 rfl, ?_⟩
    rw [heard_append, heard_notifyInfoChanged ((h.room R r hr).keyed_put hw),
      Room.news_of_lookup hlook, heard_close, if_pos rfl,
      heard_notifyInfoChanged (h.room R r hr).keyed, Room.news_of_notMem (hnot hr)]
    exact ⟨_, _, rfl, trivial, Or.inr ⟨_, [], rfl, noClose_nil⟩⟩
  | depart d hd =>
    refine Or.inr ⟨hd.notMem_connected, ?_⟩
    cases hd with
    | idle hc =>
      rw [heard_close, if_pos rfl]
      exact ⟨[], _, rfl, trivial, Or.inl rfl⟩
    | stays hc | closes hc => exact absurd hc hin

/-- What a departing user hears. -/
theorem heard_departure (h : Inv env s) (hin : s.InRoom c R r) (d : Disconnected) {post : List Send}
    (hpost : heard c post = []) :
    heard c (d.close c :: endShares (RoomSession.other c) (r.ending ch c) ++ post) =
      [.closeWriter d.code d.reason] := by
  have hnone : heard c (endShares (RoomSession.other c) (r.ending ch c)) = [] := by
    refine heard_eq_nil fun m hm => ?_
    obtain ⟨a, ha, hca⟩ := mem_of_mem_endShares hm
    have hx := (mem_range _ _).mp (List.mem_of_mem_filter ha)
    exact ((h.room R r hin.room).other_mem hx).1 hca.symm
  rw [heard_append, heard_close, if_pos rfl, hnone, hpost]
  rfl

/-- A user departs, or stays unless the room closes. -/
theorem Departs.heard_seated (h : Inv env s) {d : Disconnected}
    (hd : Departs env ch s c d t sent) (ht : Inv env t) (hu : s.Seats u) :
    (t.Seats u ∧ NoClose (heard u sent)) ∨
      (u ∉ t.connected ∧ ∃ pre m, heard u sent = pre ++ [m] ∧ NoClose pre ∧ m.IsClose) := by
  have hstay : t.connected.lookup u = s.connected.lookup u → t.Seats u := by
    intro hl
    rw [ht.seats_iff, hl]
    exact h.seats_iff.mp hu
  by_cases hne : u = c
  · subst hne
    refine Or.inr ⟨hd.notMem_connected, [], ?_⟩
    cases hd with
    | idle hc => exact absurd hu (h.not_seats_of_idle hc)
    | @stays R r v hin hv hcl =>
      have hpost : heard u ((r.without u).notifyInfoChanged ch) = [] := by
        rw [heard_notifyInfoChanged ((h.room R r hin.room).keyed.without _)]
        exact Room.news_of_notMem fun hmem => ((mem_without r _ _).mp hmem).1 rfl
      exact ⟨_, heard_departure h hin d hpost, noClose_nil, trivial⟩
    | @closes R r v hin hv hcl =>
      have hpost : heard u (ownerLeft (r.members ch u)) = [] := by
        rw [heard_ownerLeft (h.room R r hin.room).keyed]
        exact if_neg fun hmem => ((mem_without r _ _).mp hmem).1 rfl
      exact ⟨_, heard_departure h hin d hpost, noClose_nil, trivial⟩
  cases hd with
  | idle hc =>
    refine Or.inl ⟨hstay (Finmap.lookup_erase_ne hne), ?_⟩
    rw [heard_close, if_neg (Ne.symm hne)]
    exact noClose_nil
  | @stays R r v hin hv hcl =>
    refine Or.inl ⟨hstay (Finmap.lookup_erase_ne hne), ?_⟩
    rw [heard_append, heard_close, if_neg (Ne.symm hne), List.nil_append,
      heard_notifyInfoChanged ((h.room R r hin.room).keyed.without _)]
    exact (noClose_endShares _ _ _).append (noClose_news _ _ _)
  | @closes R r v hin hv hcl =>
    rw [heard_append, heard_close, if_neg (Ne.symm hne), List.nil_append,
      heard_ownerLeft (h.room R r hin.room).keyed]
    by_cases hmem : u ∈ r.users
    · rw [if_pos ((mem_without r _ _).mpr ⟨hne, hmem⟩)]
      refine Or.inr ⟨?_, _, _, rfl, noClose_endShares _ _ _, trivial⟩
      rw [← Finmap.lookup_eq_none, h.lookup_finished hin, if_pos hmem]
    · refine Or.inl ⟨hstay (by rw [h.lookup_finished hin, if_neg hmem]), ?_⟩
      rw [if_neg fun h' => hmem ((mem_without r _ _).mp h').2, List.append_nil]
      exact noClose_endShares _ _ _

/-- **A user** stays one and hears no close, or is gone and hears it last. -/
theorem Change.heard_seated (h : Inv env s) (hw : info.write = ⟨info.id⟩)
    (hch : Change env ch s info e t sent) (hu : s.Seats u) :
    (t.Seats u ∧ NoClose (heard u sent)) ∨
      (u ∉ t.connected ∧ ∃ pre m, heard u sent = pre ++ [m] ∧ NoClose pre ∧ m.IsClose) := by
  have ht := h.change hw hch
  have hidle : s.connected.lookup info.id = some "" → u ≠ info.id := by
    rintro hc rfl
    exact h.not_seats_of_idle hc hu
  have hstay : t.connected.lookup u = s.connected.lookup u → t.Seats u := by
    intro hl
    rw [ht.seats_iff, hl]
    exact h.seats_iff.mp hu
  cases hch with
  | skip | stale => exact Or.inl ⟨hu, noClose_nil⟩
  | @name R r n hc =>
    rw [heard_notifyInfoChanged (h.room R r hc.room).keyed]
    exact Or.inl ⟨hu, noClose_news _ _ _⟩
  | relay => exact Or.inl ⟨hu, noClose_signal _ _ _ _⟩
  | @create R q hc hR hr ha =>
    refine Or.inl ⟨hstay (Finmap.lookup_insert_of_ne _ (hidle hc)), ?_⟩
    rw [heard_notifyInfoChanged (createRoom_keyed hw R q)]
    exact noClose_news _ _ _
  | @join e R v r r' v4 v6 A hc he hr hget hr' hA =>
    subst hr'
    refine Or.inl ⟨hstay (Finmap.lookup_insert_of_ne _ (hidle hc)), ?_⟩
    rw [heard_append, heard_notifyInfoChanged ((h.room R r hr).keyed_put hw)]
    exact (noClose_news _ _ _).append (noClose_announce _ _ _ _ _ _)
  | @bounce e R v err r hc he hr hget =>
    have hne := hidle hc
    refine Or.inl ⟨hstay ?_, ?_⟩
    · exact (Finmap.lookup_erase_ne hne).trans (Finmap.lookup_insert_of_ne _ hne)
    · rw [heard_append, heard_notifyInfoChanged ((h.room R r hr).keyed_put hw), heard_close,
        if_neg hne.symm, heard_notifyInfoChanged (h.room R r hr).keyed, List.nil_append]
      exact (noClose_news _ _ _).append (noClose_news _ _ _)
  | @share R r r' v v4 v6 A hc hv hget hr' hA =>
    subst hr'
    rw [heard_append, heard_notifyInfoChanged ((h.room R r hc.room).keyed_stream hv true).2]
    exact Or.inl ⟨hstay rfl, (noClose_announce _ _ _ _ _ _).append (noClose_news _ _ _)⟩
  | @unshare R r r' v hc hv hr' =>
    subst hr'
    rw [heard_append, heard_notifyInfoChanged ((h.room R r hc.room).keyed_stream hv false).2]
    exact Or.inl ⟨hstay rfl, (noClose_endShares _ _ _).append (noClose_news _ _ _)⟩
  | depart d hd => exact hd.heard_seated h ht hu

/-! ## The member list heard last -/

/-- The member list in a message. -/
def roomOf : Message → Option Outgoing.Room
  | .room m => some m
  | _ => none

theorem latest_news (ch : Choice) (r : Room) (u : XID) :
    latest roomOf (r.news ch u) = (r.users.lookup u).map fun v => r.infoFor ch (u, v) := by
  rw [Room.news]
  cases r.users.lookup u <;> rfl

theorem latest_news_of_notMem (hu : u ∉ r.users) : latest roomOf (r.news ch u) = none := by
  rw [Room.news_of_notMem hu]
  rfl

theorem latest_announce (v4 v6 : Option IP) (mode : ConnectionMode) (turn : Turn.Server)
    (A : List (XID × RoomSession)) (u : XID) :
    latest roomOf (heard u (A.flatMap (announce env ch v4 v6 mode turn))) = none :=
  latest_eq_none.mpr ((every_announce (fun _ => rfl) (fun _ => rfl) v4 v6 mode turn A).heard u)

theorem latest_endShares (peer : RoomSession → XID) (L : List (XID × RoomSession)) (u : XID) :
    latest roomOf (heard u (endShares peer L)) = none :=
  latest_eq_none.mpr ((every_endShares (fun _ => rfl) peer L).heard u)

theorem latest_ite_close (p : Prop) [Decidable p] (code : ℕ) (reason : String) :
    latest roomOf (if p then [.closeWriter code reason] else []) = none := by
  split_ifs <;> rfl

theorem latest_signal (k : Signal) (m : P2PMessage) (v u : XID) :
    latest roomOf (heard u [.write ⟨v⟩ (k.message m)]) = none :=
  latest_eq_none.mpr ((every_signal (by cases k <;> rfl) v).heard u)

/-- The last member list `u` hears is up to date: it is that of its room, or there is none and the
users of the room are as before. -/
def UpToDate (ch : Choice) (s : Rooms) (R : String) (r' : Room) (u : XID) (l : List Message) : Prop :=
  (∃ v, r'.users.lookup u = some v ∧ latest roomOf l = some (r'.infoFor ch (u, v))) ∨
    (latest roomOf l = none ∧ ∃ r, s.rooms.lookup R = some r ∧ r.id = r'.id ∧ r.users = r'.users)

theorem UpToDate.here {l : List Message} (hu : u ∈ r'.users)
    (hl : latest roomOf l = (r'.users.lookup u).map fun v => r'.infoFor ch (u, v)) :
    UpToDate ch s R r' u l := by
  obtain ⟨v, hv⟩ := Finmap.mem_iff.mp hu
  rw [hv] at hl
  exact Or.inl ⟨v, hv, hl⟩

theorem UpToDate.away {l : List Message} (hold : s.rooms.lookup R = some r')
    (hl : latest roomOf l = none) : UpToDate ch s R r' u l :=
  Or.inr ⟨hl, r', hold, rfl, rfl⟩

/-- A user of another room is not in the room that changes. -/
theorem Inv.notMem_other (h : Inv env s) (hu : u ∈ r'.users) {R₀ : String} {r₀ : Room}
    (hr₀ : s.rooms.lookup R₀ = some r₀) (hne : R ≠ R₀) (hold : s.rooms.lookup R = some r') :
    u ∉ r₀.users := fun hmem => hne (h.room_unique hold hu hr₀ hmem)

theorem Departs.heard_news (h : Inv env s) {d : Disconnected}
    (hd : Departs env ch s c d t sent) (hr : t.rooms.lookup R = some r') (hu : u ∈ r'.users) :
    UpToDate ch s R r' u (heard u sent) := by
  cases hd with
  | idle hc =>
    rw [heard_close]
    refine .away hr ?_
    rw [latest_append, latest_ite_close]
    rfl
  | @stays R₀ r v hin hv hcl =>
    rw [heard_append, heard_close, heard_notifyInfoChanged ((h.room R₀ r hin.room).keyed.without _)]
    rcases GoMap.lookup_insert_eq_some.mp hr with ⟨-, rfl⟩ | ⟨hne, hold⟩
    · refine .here hu ?_
      rw [latest_append, latest_append, latest_endShares, latest_ite_close, Option.or_none,
        Option.or_none, latest_news]
      rfl
    · refine .away hold ?_
      rw [latest_append, latest_append, latest_endShares, latest_ite_close, Option.or_none,
        Option.or_none, latest_news_of_notMem]
      exact fun hmem => h.notMem_other hu hin.room hne hold ((mem_without r _ u).mp hmem).2
  | @closes R₀ r v hin hv hcl =>
    have hold : s.rooms.lookup R = some r' := by
      simp only [Rooms.finished, GoMap.lookup_erase_ite] at hr
      split_ifs at hr
      exact hr
    refine .away hold ?_
    rw [heard_append, heard_close, heard_ownerLeft (h.room R₀ r hin.room).keyed, latest_append,
      latest_append, latest_endShares, latest_ite_close, latest_ite_close]
    rfl

/-- **Every change of a room is broadcast.** -/
theorem Change.heard_news (h : Inv env s) (hw : info.write = ⟨info.id⟩)
    (hch : Change env ch s info e t sent) (hr : t.rooms.lookup R = some r')
    (hu : u ∈ r'.users) : UpToDate ch s R r' u (heard u sent) := by
  have hidle : s.connected.lookup info.id = some "" → s.rooms.lookup R = some r' → u ≠ info.id := by
    rintro hc hold rfl
    exact h.notMem_of_idle hc hold hu
  cases hch with
  | skip | stale => exact .away hr rfl
  | @name R₀ r n hc =>
    rw [heard_notifyInfoChanged (h.room R₀ r hc.room).keyed]
    by_cases hR : R = R₀
    · subst hR
      rw [hc.room] at hr
      cases hr
      exact .here hu (latest_news _ _ _)
    · exact .away hr (latest_news_of_notMem (h.notMem_other hu hc.room hR hr))
  | relay => exact .away hr (latest_signal _ _ _ _)
  | @create R₀ q hc hR hr₀ ha =>
    rw [heard_notifyInfoChanged (createRoom_keyed hw R₀ q)]
    rcases GoMap.lookup_insert_eq_some.mp hr with ⟨-, rfl⟩ | ⟨hne, hold⟩
    · exact .here hu (latest_news _ _ _)
    · refine .away hold (latest_news_of_notMem fun hmem => hidle hc hold ?_)
      simpa [createRoom, Finmap.notMem_empty] using hmem
  | @join e R₀ v r q v4 v6 A hc he hr₀ hget hq hA =>
    subst hq
    rw [heard_append, heard_notifyInfoChanged ((h.room R₀ r hr₀).keyed_put hw)]
    rcases GoMap.lookup_insert_eq_some.mp hr with ⟨-, rfl⟩ | ⟨hne, hold⟩
    · refine .here hu ?_
      rw [latest_append, latest_announce, Option.none_or, latest_news]
      rfl
    · refine .away hold ?_
      rw [latest_append, latest_announce, Option.none_or, latest_news_of_notMem]
      exact fun hmem => ((mem_put r _ u).mp hmem).elim (hidle hc hold) (h.notMem_other hu hr₀ hne hold)
  | @bounce e R₀ v err r hc he hr₀ hget =>
    rw [heard_append, heard_notifyInfoChanged ((h.room R₀ r hr₀).keyed_put hw), heard_close,
      heard_notifyInfoChanged (h.room R₀ r hr₀).keyed]
    by_cases hR : R = R₀
    · subst hR
      rw [show s.rooms.lookup R = some r' from hr] at hr₀
      cases hr₀
      refine .here hu ?_
      rw [latest_append, latest_append, latest_news]
      obtain ⟨v, hv⟩ := Finmap.mem_iff.mp hu
      rw [hv]
      rfl
    · have hold : s.rooms.lookup R = some r' := hr
      refine .away hold ?_
      rw [latest_append, latest_append, latest_ite_close, Option.or_none,
        latest_news_of_notMem (h.notMem_other hu hr₀ hR hold), Option.none_or, latest_news_of_notMem]
      exact fun hmem => ((mem_put r _ u).mp hmem).elim (hidle hc hold) (h.notMem_other hu hr₀ hR hold)
  | @share R₀ r q v v4 v6 A hc hv hget hq hA =>
    subst hq
    obtain ⟨hid, hk⟩ := (h.room R₀ r hc.room).keyed_stream hv true
    rw [heard_append, heard_notifyInfoChanged hk]
    rcases GoMap.lookup_insert_eq_some.mp hr with ⟨-, rfl⟩ | ⟨hne, hold⟩
    · refine .here hu ?_
      rw [latest_append, latest_announce, Option.or_none, latest_news]
      rfl
    · refine .away hold ?_
      rw [latest_append, latest_announce, Option.or_none, latest_news_of_notMem]
      exact fun hmem => h.notMem_other hu hc.room hne hold
        ((h.member_put (u := { v with streaming := true }) hc hid u).mp hmem)
  | @unshare R₀ r q v hc hv hq =>
    subst hq
    obtain ⟨hid, hk⟩ := (h.room R₀ r hc.room).keyed_stream hv false
    rw [heard_append, heard_notifyInfoChanged hk]
    rcases GoMap.lookup_insert_eq_some.mp hr with ⟨-, rfl⟩ | ⟨hne, hold⟩
    · refine .here hu ?_
      rw [latest_append, latest_endShares, Option.or_none, latest_news]
      rfl
    · refine .away hold ?_
      rw [latest_append, latest_endShares, Option.or_none, latest_news_of_notMem]
      exact fun hmem => h.notMem_other hu hc.room hne hold
        ((h.member_put (u := { v with streaming := false }) hc hid u).mp hmem)
  | depart d hd => exact hd.heard_news h hr hu

/-! ## The logs in a run -/

/-- **The logs**: of a client that is not connected, of one in no room, of a user. -/
structure LogOk (w : World) : Prop where
  stranger : ∀ u, u ∉ w.clients → w.log u = []
  idle : ∀ u, w.rooms.connected.lookup u = some "" → w.log u = []
  user : ∀ u, w.rooms.Seats u → Open (w.log u)
  gone : ∀ u, u ∈ w.clients → u ∉ w.rooms.connected → Closed (w.log u)

theorem LogOk.init : LogOk (World.init env) where
  stranger u _ := rfl
  idle u _ := rfl
  user u hu := by
    obtain ⟨R, r, hr, -⟩ := hu
    simp [World.init, newRooms] at hr
  gone u hu := absurd hu Finmap.notMem_empty

variable {w w' : World} {i : Input}

theorem Inv.idle_or_seats (h : Inv env s) (hc : c ∈ s.connected) :
    s.connected.lookup c = some "" ∨ s.Seats c := by
  refine (h.idle_or_inRoom hc).imp_right ?_
  rintro ⟨R, r, hin⟩
  exact h.seats_inRoom hin

/-- One message of a connected client. -/
theorem LogOk.message (h : w.Ok env) (hl : LogOk w) {c : XID} (hc : w.clients.lookup c = some info)
    (hcon : info.id ∈ w.rooms.connected) (hch : Screego.Change env ch w.rooms info e t sent) :
    LogOk (w.after [.got c e] (t, sent)) := by
  obtain ⟨rfl, hw⟩ := h.info c info hc
  have ht := h.inv.change hw hch
  refine ⟨fun u hu => ?_, fun u hu => ?_, fun u hu => ?_, fun u hu hn => ?_⟩
  · have hne : u ≠ info.id := by
      rintro rfl
      exact hu (Finmap.mem_of_lookup_eq_some hc)
    have hs : ¬ w.rooms.Seats u := fun hs => hu (h.known u (h.inv.seats_connected hs))
    rw [log_after, (hch.heard_other h.inv hw hne hs).1, hl.stranger u hu, List.append_nil]
  · have hmem : u ∈ t.connected := Finmap.mem_of_lookup_eq_some hu
    have hts : ¬ t.Seats u := ht.not_seats_of_idle hu
    have hs : ¬ w.rooms.Seats u := fun hs =>
      (hch.heard_seated h.inv hw hs).elim (fun h => hts h.1) fun h => h.1 hmem
    have hne : u ≠ info.id := by
      rintro rfl
      have hidle := (h.inv.idle_or_seats hcon).resolve_right hs
      exact (hch.heard_idle h.inv hw hidle).elim (fun h => hts h.1) fun h => h.1 hmem
    obtain ⟨hnone, hsame⟩ := hch.heard_other h.inv hw hne hs
    rw [log_after, hnone, List.append_nil]
    exact hl.idle u (hsame ▸ hu)
  · rw [log_after]
    have hmem := ht.seats_connected hu
    by_cases hs : w.rooms.Seats u
    · exact (hl.user u hs).append
        ((hch.heard_seated h.inv hw hs).resolve_right fun h => h.1 hmem).2
    · have hne : u = info.id := by
        by_contra hne
        refine hs (h.inv.seats_iff.mpr ?_)
        rw [← (hch.heard_other h.inv hw hne hs).2]
        exact ht.seats_iff.mp hu
      subst hne
      have hidle := (h.inv.idle_or_seats hcon).resolve_right hs
      rw [hl.idle _ hidle, List.nil_append]
      exact ((hch.heard_idle h.inv hw hidle).resolve_right fun h => h.1 hmem).2
  · rw [log_after]
    by_cases hs : w.rooms.Seats u
    · obtain ⟨-, pre, m, hm, hpre, hclose⟩ :=
        (hch.heard_seated h.inv hw hs).resolve_left fun h => hn (ht.seats_connected h.1)
      rw [hm]
      exact (hl.user u hs).closed hpre hclose
    by_cases hne : u = info.id
    · subst hne
      have hidle := (h.inv.idle_or_seats hcon).resolve_right hs
      rw [hl.idle _ hidle, List.nil_append]
      exact ((hch.heard_idle h.inv hw hidle).resolve_left fun h => hn (ht.seats_connected h.1)).2
    · obtain ⟨hnone, hsame⟩ := hch.heard_other h.inv hw hne hs
      rw [hnone, List.append_nil]
      refine hl.gone u hu ?_
      rw [← Finmap.lookup_eq_none, ← hsame]
      exact Finmap.lookup_eq_none.mpr hn

theorem LogOk.change (h : w.Ok env) (hl : LogOk w) (hch : w.Change env ch i w') : LogOk w' := by
  cases hch with
  | upgrade addr user authenticated =>
    have hnew : env.xidNew w.rooms.drawn ∉ w.clients := fun hmem => by
      have := Env.drawn_xidNew.mp (h.drawn _ hmem)
      omega
    refine ⟨fun u hu => ?_, fun u hu => ?_, hl.user, fun u hu hn => ?_⟩
    · exact hl.stranger u fun hmem => hu (Finmap.mem_insert.mpr (Or.inr hmem))
    · simp only [Rooms.connect, GoMap.lookup_insert_ite] at hu
      split_ifs at hu with heq
      · exact hl.stranger u (heq ▸ hnew)
      · exact hl.idle u hu
    · simp only [Rooms.connect, Finmap.mem_insert, not_or] at hn
      exact hl.gone u ((Finmap.mem_insert.mp hu).resolve_left hn.1) hn.2
  | stranger hc => exact hl
  | @message c info e he s sent hc hch =>
    by_cases hcon : info.id ∈ w.rooms.connected
    · exact hl.message h hc hcon hch
    · obtain ⟨rfl, rfl⟩ := hch.eq_of_notMem hcon
      have hlog : ∀ u, (w.after [.got c e] (w.rooms, [])).log u = w.log u := fun u => by
        rw [log_after, heard_nil, List.append_nil]
      exact ⟨fun u hu => (hlog u).trans (hl.stranger u hu), fun u hu => (hlog u).trans (hl.idle u hu),
        fun u hu => (hlog u).symm ▸ hl.user u hu, fun u hu hn => (hlog u).symm ▸ hl.gone u hu hn⟩
  | count =>
    exact ⟨fun u hu => (log_count _ _ _ _).trans (hl.stranger u hu),
      fun u hu => (log_count _ _ _ _).trans (hl.idle u hu),
      fun u hu => (log_count _ _ _ _).symm ▸ hl.user u hu,
      fun u hu hn => (log_count _ _ _ _).symm ▸ hl.gone u hu hn⟩

end Screego
