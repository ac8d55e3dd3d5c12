import Screego.Hear

/-!
# Sessions begun and ended

What one message does to the sessions of all rooms, and who is told.

* `Rooms.Serves`: a session of some room;
* `Effect`: the sessions `A` begun and the sessions `L` ended by a message, with the announcements
  and the `EndShare` messages that go with them;
* **`Change.effect`**: every message has such an effect.
-/

set_option autoImplicit false

namespace Screego

open Lib Outgoing

variable {env : Env} {ch : Choice} {s t : Rooms} {info : ClientInfo} {e : Event} {sent : List Send}
  {R : String} {r r' : Room}

/-- The session `sid` is the session `x` of some room. -/
def Rooms.Serves (s : Rooms) (sid : XID) (x : RoomSession) : Prop :=
  ∃ R r, s.rooms.lookup R = some r ∧ r.sessions.lookup sid = some x

/-- The client `u` is a user of some room. -/
def Rooms.Seats (s : Rooms) (u : XID) : Prop := ∃ R r, s.rooms.lookup R = some r ∧ u ∈ r.users

theorem Inv.serves_unique (h : Inv env s) {sid : XID} {x y : RoomSession} (hx : s.Serves sid x)
    (hy : s.Serves sid y) : x = y := by
  obtain ⟨R, r, hr, hx⟩ := hx
  obtain ⟨R', r', hr', hy⟩ := hy
  have hR := h.apart R R' r r' sid hr hr' (Finmap.mem_of_lookup_eq_some hx)
    (Finmap.mem_of_lookup_eq_some hy)
  subst hR
  rw [hr] at hr'
  cases hr'
  rw [hx] at hy
  exact Option.some.inj hy

theorem Inv.serves_drawn (h : Inv env s) {sid : XID} {x : RoomSession} (hx : s.Serves sid x) :
    env.Drawn s.drawn sid := by
  obtain ⟨R, r, hr, hx⟩ := hx
  exact h.session R r sid hr (Finmap.mem_of_lookup_eq_some hx)

/-- The two sides of a session differ. -/
theorem Inv.serves_ne (h : Inv env s) {sid : XID} {x : RoomSession} (hx : s.Serves sid x) :
    x.host ≠ x.client := by
  obtain ⟨R, r, hr, hx⟩ := hx
  exact ((h.room R r hr).sound sid x hx).1

/-- The two sides of a session are users. -/
theorem Inv.serves_seats (h : Inv env s) {sid : XID} {x : RoomSession} (hx : s.Serves sid x) :
    s.Seats x.host ∧ s.Seats x.client := by
  obtain ⟨R, r, hr, hx⟩ := hx
  exact ⟨⟨R, r, hr, (h.room R r hr).host_mem hx⟩, R, r, hr, (h.room R r hr).client_mem hx⟩

/-- The sessions a user has a part in are those of its room. -/
theorem Inv.serves_iff (h : Inv env s) (hr : s.rooms.lookup R = some r) {u sid : XID}
    {x : RoomSession} (hu : u ∈ r.users) (hx : x.host = u ∨ x.client = u) :
    s.Serves sid x ↔ r.sessions.lookup sid = some x := by
  constructor
  · rintro ⟨R', r', hr', hx'⟩
    have hu' : u ∈ r'.users := by
      rcases hx with rfl | rfl
      · exact (h.room R' r' hr').host_mem hx'
      · exact (h.room R' r' hr').client_mem hx'
    obtain rfl := h.room_unique hr hu hr' hu'
    rw [hr] at hr'
    cases hr'
    exact hx'
  · exact fun hx' => ⟨R, r, hr, hx'⟩

theorem Inv.seats_connected (h : Inv env s) {u : XID} (hu : s.Seats u) : u ∈ s.connected := by
  obtain ⟨R, r, hr, hu⟩ := hu
  exact Finmap.mem_of_lookup_eq_some (h.inRoom hr hu).at_

theorem Inv.not_seats_of_idle (h : Inv env s) {u : XID} (hu : s.connected.lookup u = some "") :
    ¬ s.Seats u := fun ⟨_, _, hr, hmem⟩ => h.notMem_of_idle hu hr hmem

/-- The id of an `EndShare`. -/
def endOf : Message → Option XID
  | .endShare id => some id
  | _ => none

/-- The message announces the session `sid`, to whomever. -/
def Send.Announces (sid : XID) : Send → Prop
  | .write _ m => m.Announces sid
  | .respond _ => False

instance (sid : XID) : DecidablePred (Send.Announces sid) := fun x => by
  cases x <;> unfold Send.Announces <;> infer_instance

/-- **The effect of a message on the sessions.** -/
structure Effect (env : Env) (ch : Choice) (s : Rooms) (c : XID) (e : Event) (t : Rooms)
    (sent : List Send) (A L : List (XID × RoomSession)) : Prop where
  serves : ∀ sid x, t.Serves sid x ↔ (s.Serves sid x ∧ (sid, x) ∉ L) ∨ (sid, x) ∈ A
  new : ∀ a ∈ A, ¬ env.Drawn s.drawn a.1 ∧ env.Drawn t.drawn a.1
  /-- The two sides of a new session are told. -/
  begun : ∀ a ∈ A, ∃ R r v4 v6, t.rooms.lookup R = some r ∧ r.sessions.lookup a.1 = some a.2 ∧
    sent.filter (Send.Announces a.1) = announce env ch v4 v6 r.mode s.turnServer a
  /-- No other session is announced. -/
  quiet : ∀ sid, (∀ a ∈ A, a.1 ≠ sid) → ∀ y ∈ sent, ¬ y.Announces sid
  ended : ∀ a ∈ L, s.Serves a.1 a.2
  /-- Whoever hears of an end was a side of the session. -/
  told : ∀ u sid, sid ∈ (heard u sent).filterMap endOf →
    ∃ x, (sid, x) ∈ L ∧ (u = x.host ∨ u = x.client)
  once : ∀ u, ((heard u sent).filterMap endOf).Nodup
  /-- A side that stays hears of the end, or has asked for it. -/
  reported : ∀ a ∈ L, ∀ u, u = a.2.host ∨ u = a.2.client → u ∈ t.connected →
    a.1 ∈ (heard u sent).filterMap endOf ∨ (u = a.2.host ∧ u = c ∧ e = .stopShare)
  stop : e = .stopShare → ∀ sid x, t.Serves sid x → x.host ≠ c

/-! ## Messages that leave the sessions alone -/

/-- The messages concern no session. -/
def Plain (sent : List Send) : Prop :=
  Every (fun m => endOf m = none ∧ ∀ sid, ¬ m.Announces sid) sent

theorem plain_nil : Plain [] := every_nil

theorem plain_notify (ch : Choice) (r : Room) : Plain (r.notifyInfoChanged ch) :=
  every_notify (fun _ => ⟨rfl, fun _ => id⟩) ch r

theorem plain_close (d : Disconnected) (c : XID) : Plain [d.close c] :=
  every_close (fun _ _ => ⟨rfl, fun _ => id⟩) d c

theorem plain_ownerLeft (M : List (XID × User)) : Plain (ownerLeft M) :=
  every_ownerLeft (fun _ _ => ⟨rfl, fun _ => id⟩) M

theorem plain_signal (k : Signal) (m : P2PMessage) (u : XID) : Plain [.write ⟨u⟩ (k.message m)] :=
  every_signal (by cases k <;> exact ⟨rfl, fun _ => id⟩) u

theorem Plain.not_announces (h : Plain sent) {y : Send} (hy : y ∈ sent) (sid : XID) :
    ¬ y.Announces sid := by
  cases y with
  | write ch m => exact (h ch m hy).2 sid
  | respond n => exact id

theorem Plain.ended_eq_nil (h : Plain sent) (u : XID) :
    (heard u sent).filterMap endOf = [] := by
  rw [List.filterMap_eq_nil_iff]
  exact fun m hm => (h _ m (mem_heard.mp hm)).1

/-- A message that changes no session. -/
theorem Effect.of_plain (hplain : Plain sent) (hserves : ∀ sid x, t.Serves sid x ↔ s.Serves sid x)
    {c : XID} (hstop : e = .stopShare → ∀ sid x, s.Serves sid x → x.host ≠ c) :
    Effect env ch s c e t sent [] [] where
  serves sid x := by simp [hserves]
  new a ha := absurd ha List.not_mem_nil
  begun a ha := absurd ha List.not_mem_nil
  quiet sid _ y hy := hplain.not_announces hy sid
  ended a ha := absurd ha List.not_mem_nil
  told u sid hsid := by
    rw [hplain.ended_eq_nil] at hsid
    exact absurd hsid List.not_mem_nil
  once u := by
    rw [hplain.ended_eq_nil]
    exact List.nodup_nil
  reported a ha := absurd ha List.not_mem_nil
  stop he sid x hx := hstop he sid x ((hserves sid x).mp hx)

/-! ## New sessions -/

section Opened

variable {v4 v6 : Option IP} {mode : ConnectionMode} {turn : Turn.Server}
  {a : XID × RoomSession} {A : List (XID × RoomSession)} {y : Send}

theorem announces_of_mem_announce (hy : y ∈ announce env ch v4 v6 mode turn a) (sid : XID) :
    y.Announces sid ↔ a.1 = sid := by
  rcases List.mem_cons.mp hy with rfl | hy
  · exact Iff.rfl
  · rw [List.mem_singleton] at hy
    subst hy
    exact Iff.rfl

/-- The announcements of one session among those of many. -/
theorem filter_announce (hA : (A.map Prod.fst).Nodup) (ha : a ∈ A) :
    (A.flatMap (announce env ch v4 v6 mode turn)).filter (Send.Announces a.1) =
      announce env ch v4 v6 mode turn a := by
  have hsame : (announce env ch v4 v6 mode turn a).filter (Send.Announces a.1) =
      announce env ch v4 v6 mode turn a :=
    List.filter_eq_self.mpr fun y hy => by simpa using (announces_of_mem_announce hy a.1).mpr rfl
  have hother : ∀ {b : XID × RoomSession}, b.1 ≠ a.1 →
      (announce env ch v4 v6 mode turn b).filter (Send.Announces a.1) = [] := fun hne =>
    List.filter_eq_nil_iff.mpr fun y hy => by
      simpa using fun hann => hne ((announces_of_mem_announce hy a.1).mp hann)
  induction A with
  | nil => exact absurd ha List.not_mem_nil
  | cons b A ih =>
    rw [List.map_cons, List.nodup_cons] at hA
    rw [List.flatMap_cons, List.filter_append]
    rcases List.mem_cons.mp ha with rfl | ha
    · rw [hsame, List.filter_flatMap]
      have hrest : A.flatMap (fun b => (announce env ch v4 v6 mode turn b).filter
          (Send.Announces a.1)) = [] := by
        refine List.flatMap_eq_nil_iff.mpr fun b hb => hother fun e => hA.1 ?_
        exact e ▸ List.mem_map_of_mem hb
      rw [hrest, List.append_nil]
    · rw [hother fun e => hA.1 (e ▸ List.mem_map_of_mem ha), List.nil_append, ih hA.2 ha]

theorem endOf_announce (u : XID) :
    (heard u (A.flatMap (announce env ch v4 v6 mode turn))).filterMap endOf = [] := by
  rw [List.filterMap_eq_nil_iff]
  intro m hm
  obtain ⟨a, -, hy⟩ := List.mem_flatMap.mp (mem_heard.mp hm)
  rcases List.mem_cons.mp hy with hy | hy
  · cases hy
    rfl
  · cases List.mem_singleton.mp hy
    rfl

variable (ch) in
/-- The sessions after some have begun in the room `R`. -/
theorem serves_opened (h : Inv env s) (hr : s.rooms.lookup R = some r) (s₁ : Rooms) (r' : Room)
    (hrooms : s₁.rooms = s.rooms) (hsessions : r'.sessions = r.sessions) (ps : List RoomSession)
    (sid : XID) (x : RoomSession) :
    (s₁.opened env ch R r' (newEntries env s.drawn ps)).Serves sid x ↔
      s.Serves sid x ∨ (sid, x) ∈ newEntries env s.drawn ps := by
  have hkeys := GoMap.lookup_insertAll r.sessions (nodup_newEntries s.drawn ps)
    (fun a ha hold => not_drawn_of_mem_newEntries ha (h.session R r a.1 hr hold)) sid x
  simp only [Rooms.Serves, Rooms.opened, GoMap.lookup_insert_ite, hrooms, hsessions]
  constructor
  · rintro ⟨R', q, hq, hx⟩
    split_ifs at hq with hR
    · cases hq
      exact (hkeys.mp hx).imp_left fun hx => ⟨R, r, hr, hx⟩
    · exact Or.inl ⟨R', q, hq, hx⟩
  · rintro (⟨R', q, hq, hx⟩ | hx)
    · by_cases hR : R' = R
      · subst hR
        rw [hr] at hq
        cases hq
        exact ⟨R', _, if_pos rfl, hkeys.mpr (Or.inl hx)⟩
      · exact ⟨R', q, by rw [if_neg hR, hq], hx⟩
    · exact ⟨R, _, if_pos rfl, hkeys.mpr (Or.inr hx)⟩

variable (ch v4 v6) in
/-- **Sessions begin.** -/
theorem Effect.opened (pre : List Send) (h : Inv env s) (hr : s.rooms.lookup R = some r)
    (s₁ : Rooms) (r' : Room) (hrooms : s₁.rooms = s.rooms) (hdrawn : s₁.drawn = s.drawn)
    (hsessions : r'.sessions = r.sessions) (hmode : r'.mode = r.mode) (ps : List RoomSession)
    {post : List Send} (hpre : Plain pre) (hpost : Plain post) (he : e ≠ .stopShare)
    (c : XID) :
    Effect env ch s c e (s₁.opened env ch R r' (newEntries env s.drawn ps))
      (pre ++ (newEntries env s.drawn ps).flatMap (announce env ch v4 v6 r.mode s.turnServer) ++ post)
      (newEntries env s.drawn ps) [] where
  serves sid x := by
    rw [serves_opened ch h hr s₁ r' hrooms hsessions]
    simp
  new a ha := by
    refine ⟨not_drawn_of_mem_newEntries ha, ?_⟩
    simp only [Rooms.opened, hdrawn]
    exact drawn_of_mem_newEntries ha
  begun a ha := by
    have hkeys : ((newEntries env s.drawn ps).map Prod.fst).Nodup := nodup_newEntries _ _
    refine ⟨R, _, v4, v6, Finmap.lookup_insert _, ?_, ?_⟩
    · rw [hsessions]
      exact (GoMap.lookup_insertAll _ hkeys (fun a ha hold =>
        not_drawn_of_mem_newEntries ha (h.session R r a.1 hr hold)) _ _).mpr (Or.inr ha)
    · have hp : ∀ {l : List Send}, Plain l → l.filter (Send.Announces a.1) = [] := fun hl =>
        List.filter_eq_nil_iff.mpr fun y hy => by simpa using hl.not_announces hy a.1
      rw [List.filter_append, List.filter_append, hp hpre, hp hpost, List.nil_append,
        List.append_nil, filter_announce hkeys ha, hmode]
  quiet sid hsid y hy := by
    rw [List.mem_append, List.mem_append] at hy
    rcases hy with (hy | hy) | hy
    · exact hpre.not_announces hy sid
    · obtain ⟨a, ha, hy⟩ := List.mem_flatMap.mp hy
      exact fun hann => hsid a ha ((announces_of_mem_announce hy sid).mp hann)
    · exact hpost.not_announces hy sid
  ended a ha := absurd ha List.not_mem_nil
  told u sid hsid := by
    simp [List.filterMap_append, hpre.ended_eq_nil, hpost.ended_eq_nil, endOf_announce] at hsid
  once u := by
    simp [List.filterMap_append, hpre.ended_eq_nil, hpost.ended_eq_nil, endOf_announce]
  reported a ha := absurd ha List.not_mem_nil
  stop hst := absurd hst he

end Opened

/-! ## Ended sessions -/

section Ended

variable {c : XID} {L L' : List (XID × RoomSession)} {peer : RoomSession → XID}

theorem endOf_endShares (peer : RoomSession → XID) (L : List (XID × RoomSession)) (u : XID) :
    (heard u (endShares peer L)).filterMap endOf = (L.filter fun a => peer a.2 = u).map Prod.fst := by
  rw [heard_endShares, List.filterMap_map]
  exact congrFun (List.filterMap_eq_map (f := Prod.fst)) _

theorem not_announces_endShares {y : Send} (hy : y ∈ endShares peer L) (sid : XID) :
    ¬ y.Announces sid := by
  obtain ⟨a, -, rfl⟩ := List.mem_map.mp hy
  exact id

/-- **Sessions end.** All sessions `L` end, and those of `L'` are reported to one side. -/
theorem Effect.closed (peer : RoomSession → XID) (L' : List (XID × RoomSession)) (pre : List Send)
    (hserves : ∀ sid x, t.Serves sid x ↔ s.Serves sid x ∧ (sid, x) ∉ L)
    (hL : ∀ a ∈ L, s.Serves a.1 a.2) (hsub : ∀ a ∈ L', a ∈ L) (hkeys : (L'.map Prod.fst).Nodup)
    (hpeer : ∀ x, peer x = x.host ∨ peer x = x.client)
    (hreported : ∀ a ∈ L, ∀ u, u = a.2.host ∨ u = a.2.client → u ∈ t.connected →
      (a ∈ L' ∧ peer a.2 = u) ∨ (u = a.2.host ∧ u = c ∧ e = .stopShare))
    (hstop : e = .stopShare → ∀ sid x, t.Serves sid x → x.host ≠ c) {post : List Send}
    (hpre : Plain pre) (hpost : Plain post) :
    Effect env ch s c e t (pre ++ endShares peer L' ++ post) [] L := by
  have hheard : ∀ u, (heard u (pre ++ endShares peer L' ++ post)).filterMap endOf =
      (L'.filter fun a => peer a.2 = u).map Prod.fst := fun u => by
    simp [List.filterMap_append, hpre.ended_eq_nil, hpost.ended_eq_nil, endOf_endShares]
  refine ⟨?_, ?_, ?_, ?_, hL, ?_, ?_, ?_, hstop⟩
  · intro sid x
    rw [hserves]
    simp
  · exact fun a ha => absurd ha List.not_mem_nil
  · exact fun a ha => absurd ha List.not_mem_nil
  · intro sid _ y hy
    rw [List.mem_append, List.mem_append] at hy
    rcases hy with (hy | hy) | hy
    · exact hpre.not_announces hy sid
    · exact not_announces_endShares hy sid
    · exact hpost.not_announces hy sid
  · intro u sid hsid
    rw [hheard] at hsid
    obtain ⟨a, ha, rfl⟩ := List.mem_map.mp hsid
    obtain ⟨ha, hu⟩ := List.mem_filter.mp ha
    refine ⟨a.2, hsub a ha, ?_⟩
    rw [← of_decide_eq_true hu]
    exact hpeer a.2
  · intro u
    rw [hheard]
    exact hkeys.sublist (List.filter_sublist.map _)
  · intro a ha u hu hut
    refine (hreported a ha u hu hut).imp_left fun ⟨ha', hp⟩ => ?_
    rw [hheard]
    exact List.mem_map_of_mem (List.mem_filter.mpr ⟨ha', decide_eq_true hp⟩)

/-- The sessions when some of the room `R` have ended. -/
theorem serves_closed (h : Inv env s) (hr : s.rooms.lookup R = some r) (s₁ : Rooms) (r' : Room)
    (hrooms : s₁.rooms = s.rooms) (hsessions : r'.sessions = r.sessions) (o : RangeOrder XID)
    (p : XID × RoomSession → Bool) (sid : XID) (x : RoomSession) :
    (s₁.closed env R r' (((range o r.sessions).filter p).map Prod.fst)).Serves sid x ↔
      s.Serves sid x ∧ (sid, x) ∉ (range o r.sessions).filter p := by
  have hkeys := lookup_eraseAll_filter o r.sessions p sid x
  simp only [Rooms.Serves, Rooms.closed, GoMap.lookup_insert_ite, hrooms, hsessions]
  constructor
  · rintro ⟨R', q, hq, hx⟩
    split_ifs at hq with hR
    · cases hq
      obtain ⟨hx, hp⟩ := hkeys.mp hx
      refine ⟨⟨R, r, hr, hx⟩, fun hmem => ?_⟩
      rw [(List.mem_filter.mp hmem).2] at hp
      exact Bool.noConfusion hp
    · refine ⟨⟨R', q, hq, hx⟩, fun hmem => hR ?_⟩
      have hold := (mem_range o _).mp (List.mem_of_mem_filter hmem)
      exact h.apart R' R q r sid hq hr (Finmap.mem_of_lookup_eq_some hx)
        (Finmap.mem_of_lookup_eq_some hold)
  · rintro ⟨⟨R', q, hq, hx⟩, hnot⟩
    by_cases hR : R' = R
    · subst hR
      rw [hr] at hq
      cases hq
      refine ⟨R', _, if_pos rfl, hkeys.mpr ⟨hx, ?_⟩⟩
      by_contra hp
      exact hnot (List.mem_filter.mpr ⟨(mem_range o _).mpr hx, by simpa using hp⟩)
    · exact ⟨R', q, by rw [if_neg hR, hq], hx⟩

/-- The sessions when the room `R` is closed. -/
theorem serves_finished (h : Inv env s) (hr : s.rooms.lookup R = some r) (o : RangeOrder XID)
    (sid : XID) (x : RoomSession) :
    (s.finished env ch c R r).Serves sid x ↔ s.Serves sid x ∧ (sid, x) ∉ range o r.sessions := by
  simp only [Rooms.Serves, Rooms.finished, GoMap.lookup_erase_ite]
  constructor
  · rintro ⟨R', q, hq, hx⟩
    split_ifs at hq with hR
    refine ⟨⟨R', q, hq, hx⟩, fun hmem => hR ?_⟩
    exact h.apart R' R q r sid hq hr (Finmap.mem_of_lookup_eq_some hx)
      (Finmap.mem_of_lookup_eq_some ((mem_range o _).mp hmem))
  · rintro ⟨⟨R', q, hq, hx⟩, hnot⟩
    refine ⟨R', q, ?_, hx⟩
    rw [if_neg, hq]
    rintro rfl
    rw [hr] at hq
    cases hq
    exact hnot ((mem_range o _).mpr hx)

theorem RoomSession.other_of_involves {x : RoomSession} {u : XID} (hx : x.involves c = true)
    (hu : u = x.host ∨ u = x.client) (hne : u ≠ c) : x.other c = u := by
  unfold RoomSession.other
  rcases hu with rfl | rfl
  · exact if_pos (by simpa [RoomSession.involves, hne] using hx)
  · exact if_neg hne

theorem RoomSession.other_eq (x : RoomSession) (c : XID) :
    x.other c = x.host ∨ x.other c = x.client := by
  unfold RoomSession.other
  split_ifs
  · exact Or.inl rfl
  · exact Or.inr rfl

/-- Who departs is not connected any more. -/
theorem Departs.notMem_connected {d : Disconnected} (hd : Departs env ch s c d t sent) :
    c ∉ t.connected := by
  cases hd with
  | idle | stays => exact fun hmem => (Finmap.mem_erase.mp hmem).1 rfl
  | closes => exact fun hmem => (Finmap.mem_erase.mp (GoMap.mem_eraseAll.mp hmem).1).1 rfl

/-- **A departure.** -/
theorem Departs.effect (h : Inv env s) {d : Disconnected} (hd : Departs env ch s c d t sent) :
    ∃ L, Effect env ch s c e t sent [] L := by
  have ht := h.departs hd
  have hstop : ∀ sid x, t.Serves sid x → x.host ≠ c := fun sid x hx hxc =>
    hd.notMem_connected (ht.seats_connected (hxc ▸ (ht.serves_seats hx).1))
  cases hd with
  | idle hc =>
    refine ⟨[], Effect.of_plain (plain_close d c) ?_ ?_⟩
    · exact fun _ _ => Iff.rfl
    · exact fun _ sid x hx hcx => h.not_seats_of_idle hc (hcx ▸ (h.serves_seats hx).1)
  | @stays R r u hin hu hcl =>
    have hR := h.room R r hin.room
    have hL : ∀ a ∈ r.ending ch c, r.sessions.lookup a.1 = some a.2 := fun a ha =>
      (mem_range _ _).mp (List.mem_of_mem_filter ha)
    refine ⟨r.ending ch c, ?_⟩
    refine Effect.closed (RoomSession.other c) (r.ending ch c) [d.close c]
      (serves_closed h hin.room (s.unseat c) (r.without c) rfl rfl _ _)
      (fun a ha => ⟨R, r, hin.room, hL a ha⟩) (fun _ ha => ha) ?_ (RoomSession.other_eq · c) ?_
      (fun _ => hstop) (plain_close d c)
      (plain_notify _ _)
    · exact (nodup_range_keys _ _).sublist (List.filter_sublist.map _)
    · intro a ha v hv hvt
      refine Or.inl ⟨ha, RoomSession.other_of_involves (List.mem_filter.mp ha).2 hv ?_⟩
      rintro rfl
      exact (Finmap.mem_erase.mp hvt).1 rfl
  | @closes R r u hin hu hcl =>
    have hR := h.room R r hin.room
    have hL : ∀ a ∈ range (ch.order .disconnected) r.sessions, r.sessions.lookup a.1 = some a.2 :=
      fun a ha => (mem_range _ _).mp ha
    refine ⟨range (ch.order .disconnected) r.sessions, ?_⟩
    refine Effect.closed (RoomSession.other c) (r.ending ch c) [d.close c]
      (serves_finished h hin.room _) (fun a ha => ⟨R, r, hin.room, hL a ha⟩)
      (fun _ ha => List.mem_of_mem_filter ha) ?_ (RoomSession.other_eq · c) ?_
      (fun _ => hstop) (plain_close d c)
      (plain_ownerLeft _)
    · exact (nodup_range_keys _ _).sublist (List.filter_sublist.map _)
    · intro a ha v hv hvt
      have hmem : v ∈ r.users := by
        rcases hv with rfl | rfl
        · exact hR.host_mem (hL a ha)
        · exact hR.client_mem (hL a ha)
      obtain ⟨R', hR'⟩ := Finmap.mem_iff.mp hvt
      rw [h.lookup_finished hin, if_pos hmem] at hR'
      cases hR'

end Ended

/-- A room without sessions adds none. -/
theorem serves_founded (hr : R ∉ s.rooms) (ht : t.rooms = s.rooms.insert R r)
    (hsessions : r.sessions = ∅) (sid : XID) (x : RoomSession) :
    t.Serves sid x ↔ s.Serves sid x := by
  simp only [Rooms.Serves, ht, GoMap.lookup_insert_ite]
  constructor
  · rintro ⟨R', q, hq, hx⟩
    split_ifs at hq with hR
    · cases hq
      rw [hsessions, Finmap.lookup_empty] at hx
      cases hx
    · exact ⟨R', q, hq, hx⟩
  · rintro ⟨R', q, hq, hx⟩
    refine ⟨R', q, ?_, hx⟩
    rw [if_neg, hq]
    rintro rfl
    exact hr (Finmap.mem_of_lookup_eq_some hq)

/-- **Every message has an effect on the sessions.** -/
theorem Change.effect (h : Inv env s) (hch : Change env ch s info e t sent) :
    ∃ A L, Effect env ch s info.id e t sent A L := by
  cases hch with
  | skip hc =>
    refine ⟨[], [], Effect.of_plain plain_nil (fun _ _ => Iff.rfl) fun _ sid x hx hxc => ?_⟩
    exact hc (h.seats_connected (hxc ▸ (h.serves_seats hx).1))
  | name n hc =>
    exact ⟨[], [], Effect.of_plain (plain_notify _ _) (fun _ _ => Iff.rfl)
      (fun he => Event.noConfusion he)⟩
  | stale k m hc hx =>
    refine ⟨[], [], Effect.of_plain plain_nil (fun _ _ => Iff.rfl) fun he => ?_⟩
    cases k <;> cases he
  | relay k m hc hx hs =>
    refine ⟨[], [], Effect.of_plain (plain_signal _ _ _) (fun _ _ => Iff.rfl) fun he => ?_⟩
    cases k <;> cases he
  | @create R q hc hR hr ha =>
    exact ⟨[], [], Effect.of_plain (plain_notify _ _) (serves_founded hr rfl rfl)
      fun he => Event.noConfusion he⟩
  | @join e R v r r' v4 v6 A hc he hr hget hr' hA =>
    subst hA
    have heff := Effect.opened ch v4 v6 (r'.notifyInfoChanged ch) (e := e) h hr (s.seat info.id R)
      r' rfl rfl (by rw [hr']; rfl) (by rw [hr']; rfl) (joinPairs ch info.id r'.users)
      (plain_notify ch _) plain_nil
      (fun hst => by subst hst; exact he.elim) info.id
    rw [List.append_nil] at heff
    exact ⟨_, [], heff⟩
  | bounce hc he hr hget =>
    refine ⟨[], [], Effect.of_plain ?_ ?_ fun hst => ?_⟩
    · exact Every.append (plain_notify _ _) (Every.append (plain_close _ _) (plain_notify _ _))
    · exact fun _ _ => Iff.rfl
    · subst hst
      exact he.elim
  | @share R r r' u v4 v6 A hc hu hget hr' hA =>
    subst hr' hA
    exact ⟨_, [], Effect.opened ch v4 v6 [] h hc.room s (r.put { u with streaming := true })
      rfl rfl rfl rfl _ plain_nil (plain_notify _ _) (fun he => Event.noConfusion he) info.id⟩
  | @unshare R r r' u hc hu hr' =>
    subst hr'
    have hL : ∀ a ∈ r.hosted ch info.id, r.sessions.lookup a.1 = some a.2 ∧ a.2.host = info.id := by
      intro a ha
      obtain ⟨hmem, hhost⟩ := List.mem_filter.mp ha
      exact ⟨(mem_range _ _).mp hmem, by simpa using hhost⟩
    have hserves := serves_closed h hc.room s (r.put { u with streaming := false }) rfl rfl
      (ch.order .stopShare) fun a => a.2.host = info.id
    refine ⟨[], r.hosted ch info.id, ?_⟩
    refine Effect.closed RoomSession.client (r.hosted ch info.id) [] hserves
      (fun a ha => ⟨R, r, hc.room, (hL a ha).1⟩) (fun _ ha => ha) ?_ (fun _ => Or.inr rfl) ?_ ?_
      plain_nil (plain_notify _ _)
    · exact (nodup_range_keys _ _).sublist (List.filter_sublist.map _)
    · rintro a ha v (rfl | rfl) -
      · exact Or.inr ⟨rfl, (hL a ha).2, rfl⟩
      · exact Or.inl ⟨ha, rfl⟩
    · rintro - sid x hx hhost
      obtain ⟨⟨R', q, hq, hx⟩, hnot⟩ := (hserves sid x).mp hx
      have hR : R' = R :=
        h.room_unique hq (hhost ▸ (h.room R' q hq).host_mem hx) hc.room (h.mem_users hc)
      subst hR
      rw [hc.room] at hq
      cases hq
      exact hnot (List.mem_filter.mpr ⟨(mem_range _ _).mpr hx, by simpa using hhost⟩)
  | depart d hd =>
    obtain ⟨L, heff⟩ := hd.effect h (e := e)
    exact ⟨[], L, heff⟩

end Screego
