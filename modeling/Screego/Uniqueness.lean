import Screego.Credentials
import Screego.Xid

/-!
# One session for every pair of users

`StartShare` sets `Streaming` without testing it, so a user that shares already and sends `share`
again gets a second session to every other user of its room.

* `OneEach`: a room has at most one session from one user to another; `OneEach.len_sessions`,
  `Room.turnNames_card`: what follows for the numbers of sessions and of TURN users;
* `RepeatsShare`: a step that shares again;
* `unique_iff_not_repeatsShare`: the steps that keep sessions unique;
* **`sessions_unique_iff`**: the runs in which sessions are unique;
* `share_twice_doubles`: a run in which they are not.
-/

set_option autoImplicit false

namespace Screego

open Lib Outgoing

variable {env : Env} {ch : Choice} {s t : Rooms} {info : ClientInfo} {e : Event} {sent : List Send}
  {w w' : World} {i : Choice × Input} {R : String} {r r' : Room} {c sid : XID} {x : RoomSession}

/-! ## Unique sessions -/

/-- **At most one session from one user to another.** -/
def OneEach (r : Room) : Prop :=
  ∀ sid sid' x, r.sessions.lookup sid = some x → r.sessions.lookup sid' = some x → sid = sid'

/-- The TURN users of the room in the table of the TURN server. -/
def Room.turnNames (env : Env) (lookup : GoMap String Turn.Entry) (r : Room) : Finset String :=
  lookup.keys.filter fun name => ∃ sid ∈ r.sessions.keys, UsernameOf env sid name

/-- A room with `n` users has at most `n * (n - 1)` sessions. -/
theorem OneEach.len_sessions (hone : OneEach r) (h : RoomOk R r) :
    GoMap.len r.sessions ≤ GoMap.len r.users * (GoMap.len r.users - 1) := by
  have hcard : r.sessions.keys.card ≤ r.users.keys.offDiag.card := by
    refine Finset.card_le_card_of_injOn
      (fun sid => ((r.sessions.lookup sid).map fun x => (x.host, x.client)).getD default)
      (fun sid hsid => ?_) fun sid hsid sid' hsid' heq => ?_
    · obtain ⟨x, hx⟩ := Finmap.mem_iff.mp (Finmap.mem_keys.mp hsid)
      obtain ⟨hne, hclient, -⟩ := h.sound sid x hx
      simp only [hx, Option.map_some, Option.getD_some, Finset.mem_coe, Finset.mem_offDiag,
        Finmap.mem_keys]
      exact ⟨h.host_mem hx, hclient, hne⟩
    · obtain ⟨x, hx⟩ := Finmap.mem_iff.mp (Finmap.mem_keys.mp hsid)
      obtain ⟨y, hy⟩ := Finmap.mem_iff.mp (Finmap.mem_keys.mp hsid')
      simp only [hx, hy, Option.map_some, Option.getD_some, Prod.mk.injEq] at heq
      have hxy : x = y := by
        cases x
        cases y
        simp_all
      exact hone sid sid' x hx (hxy ▸ hy)
  rw [Finset.offDiag_card] at hcard
  rw [GoMap.len, GoMap.len, Nat.mul_sub_one]
  exact hcard

/-- Every session has at most two TURN users. -/
theorem Room.turnNames_card (env : Env) (lookup : GoMap String Turn.Entry) (r : Room) :
    (r.turnNames env lookup).card ≤ 2 * GoMap.len r.sessions := by
  have hsub : r.turnNames env lookup ⊆
      r.sessions.keys.image (hostUsername env) ∪ r.sessions.keys.image (clientUsername env) := by
    intro name hname
    obtain ⟨-, sid, hsid, hn⟩ := Finset.mem_filter.mp hname
    rcases hn with rfl | rfl
    · exact Finset.mem_union_left _ (Finset.mem_image_of_mem _ hsid)
    · exact Finset.mem_union_right _ (Finset.mem_image_of_mem _ hsid)
  calc (r.turnNames env lookup).card
      ≤ (r.sessions.keys.image (hostUsername env) ∪ r.sessions.keys.image (clientUsername env)).card :=
        Finset.card_le_card hsub
    _ ≤ (r.sessions.keys.image (hostUsername env)).card +
        (r.sessions.keys.image (clientUsername env)).card := Finset.card_union_le _ _
    _ ≤ r.sessions.keys.card + r.sessions.keys.card :=
        Nat.add_le_add Finset.card_image_le Finset.card_image_le
    _ = 2 * GoMap.len r.sessions := by rw [GoMap.len, Nat.two_mul]

/-- **Unique sessions and their bounds** in every room. -/
def SessionsUnique (env : Env) (w : World) : Prop :=
  ∀ R r, w.rooms.rooms.lookup R = some r → OneEach r ∧
    GoMap.len r.sessions ≤ GoMap.len r.users * (GoMap.len r.users - 1) ∧
    ∀ lookup, w.rooms.turnServer = .internal lookup →
      (r.turnNames env lookup).card ≤ 2 * (GoMap.len r.users * (GoMap.len r.users - 1))

/-- Sessions are unique in all rooms together. -/
def Rooms.OneEach (s : Rooms) : Prop := ∀ sid sid' x, s.Serves sid x → s.Serves sid' x → sid = sid'

/-- The bounds follow, and a pair of users has only one room. -/
theorem World.Ok.sessionsUnique_iff (h : w.Ok env) : SessionsUnique env w ↔ w.rooms.OneEach := by
  constructor
  · rintro hu sid sid' x ⟨R, r, hr, hx⟩ ⟨R', r', hr', hx'⟩
    obtain rfl := h.inv.room_unique hr ((h.inv.room R r hr).host_mem hx) hr'
      ((h.inv.room R' r' hr').host_mem hx')
    rw [hr] at hr'
    cases hr'
    exact (hu R r hr).1 sid sid' x hx hx'
  · intro hu R r hr
    have hone : Screego.OneEach r := fun sid sid' x hx hx' =>
      hu sid sid' x ⟨R, r, hr, hx⟩ ⟨R, r, hr, hx'⟩
    have hlen := hone.len_sessions (h.inv.room R r hr)
    exact ⟨hone, hlen, fun lookup _ =>
      (r.turnNames_card env lookup).trans (Nat.mul_le_mul_left 2 hlen)⟩

/-! ## Steps -/

/-- The client `c` shares already, with others in its room. -/
def SharesToOthers (s : Rooms) (c : XID) : Prop :=
  ∃ R r u c', s.InRoom c R r ∧ r.users.lookup c = some u ∧ u.streaming = true ∧ c' ∈ r.users ∧ c' ≠ c

/-- **The step shares again**: a `share` of a client that shares already, with others in its room,
when there is an address. -/
def RepeatsShare (w : World) (i : Choice × Input) : Prop :=
  ∃ c he ips, i.2 = .receive c .startShare he ∧ i.1.get = .ok ips ∧ SharesToOthers w.rooms c

/-- Ending sessions keeps them unique. -/
theorem Rooms.OneEach.mono (hu : s.OneEach) (hsub : ∀ sid x, t.Serves sid x → s.Serves sid x) :
    t.OneEach := fun sid sid' x hx hx' => hu sid sid' x (hsub sid x hx) (hsub sid' x hx')

/-- Distinct pairs get distinct entries. -/
theorem eq_of_mem_newEntries {n : ℕ} {ps : List RoomSession} (hps : ps.Nodup) {a b : XID × RoomSession}
    (ha : a ∈ newEntries env n ps) (hb : b ∈ newEntries env n ps) (hab : a.2 = b.2) : a = b := by
  have hinj : ((newEntries env n ps).map Prod.snd).Nodup := by rwa [newEntries_map_snd]
  exact List.inj_on_of_nodup_map hinj ha hb hab

/-- **New sessions between pairs that had none** keep sessions unique. -/
theorem Rooms.OneEach.opened (hu : s.OneEach) {ps : List RoomSession}
    (hserves : ∀ sid x, t.Serves sid x ↔ s.Serves sid x ∨ (sid, x) ∈ newEntries env s.drawn ps)
    (hps : ps.Nodup) (hnew : ∀ x ∈ ps, ∀ sid, ¬ s.Serves sid x) : t.OneEach := by
  have hno : ∀ {sid sid' x}, s.Serves sid x → (sid', x) ∉ newEntries env s.drawn ps := by
    intro sid sid' x hx hmem
    exact hnew x (exists_newEntries.mp ⟨_, hmem, rfl⟩) sid hx
  intro sid sid' x hx hx'
  rcases (hserves sid x).mp hx with hx | hx <;> rcases (hserves sid' x).mp hx' with hx' | hx'
  · exact hu sid sid' x hx hx'
  · exact absurd hx' (hno hx)
  · exact absurd hx (hno hx')
  · exact congrArg Prod.fst (eq_of_mem_newEntries hps hx hx' rfl)

/-! The pairs of one loop differ. -/

section Pairs

variable {users : GoMap XID User} (hid : ∀ c u, users.lookup c = some u → u.id = c)

include hid

theorem eq_of_mem_range {o : RangeOrder XID} {a b : XID × User} (ha : a ∈ range o users)
    (hb : b ∈ range o users) (hab : a.2.id = b.2.id) : a = b := by
  have ha' := (mem_range _ _).mp ha
  have hb' := (mem_range _ _).mp hb
  rw [hid _ _ ha', hid _ _ hb'] at hab
  rw [hab, hb'] at ha'
  exact Prod.ext hab (Option.some.inj ha').symm

theorem nodup_joinPairs (ch : Choice) (c : XID) : (joinPairs ch c users).Nodup := by
  refine List.Nodup.map_on (fun a ha b hb hab => ?_) ((nodup_range _ _).filter _)
  exact eq_of_mem_range hid (List.mem_of_mem_filter ha) (List.mem_of_mem_filter hb)
    (congrArg RoomSession.host hab)

theorem nodup_sharePairs (ch : Choice) (c : XID) : (sharePairs ch c users).Nodup := by
  refine List.Nodup.map_on (fun a ha b hb hab => ?_) ((nodup_range _ _).filter _)
  exact eq_of_mem_range hid (List.mem_of_mem_filter ha) (List.mem_of_mem_filter hb)
    (congrArg RoomSession.client hab)

end Pairs

/-- The users of a room with one more or changed are stored under their ids. -/
theorem RoomOk.id_put (h : RoomOk R r) (u : User) :
    ∀ c v, (r.put u).users.lookup c = some v → v.id = c := by
  intro c v hv
  rw [lookup_put] at hv
  split_ifs at hv with hc
  · cases hv
    exact hc.symm
  · exact (h.user c v hv).1

/-- A session of a user is one of its room. -/
theorem Inv.session_of_host (h : Inv env s) (hin : s.InRoom c R r) (hx : s.Serves sid x)
    (hc : x.host = c) : r.sessions.lookup sid = some x :=
  (h.serves_iff hin.room (h.mem_users hin) (Or.inl hc)).mp hx

/-- **Steps that keep sessions unique.** -/
theorem Change.oneEach (h : Inv env s) (hu : s.OneEach) (hch : Change env ch s info e t sent)
    (hno : e = .startShare → (∃ ips, ch.get = .ok ips) → ¬ SharesToOthers s info.id) :
    t.OneEach := by
  cases hch with
  | skip | name | stale | relay | bounce => exact hu
  | create hc hR hr ha => exact hu.mono fun sid x => (serves_founded hr rfl rfl sid x).mp
  | @join e R v r r' v4 v6 A hc he hr hget hr' hA =>
    subst hr' hA
    have hid := (h.room R r hr).id_put (joinUser env ch info r v)
    refine hu.opened (serves_opened ch h hr (s.seat info.id R) (r.put _) rfl rfl _)
      (nodup_joinPairs hid ch info.id) fun x hx sid hserves => ?_
    obtain ⟨hclient, -, -⟩ := (mem_joinPairs hid).mp hx
    exact h.not_seats_of_idle hc (hclient ▸ (h.serves_seats hserves).2)
  | @share R r r' u v4 v6 A hc hu' hget hr' hA =>
    subst hr' hA
    have hR := h.room R r hc.room
    have hid := hR.id_put { u with streaming := true }
    have huid := (hR.user _ _ hu').1
    refine hu.opened (serves_opened ch h hc.room s (r.put _) rfl rfl _)
      (nodup_sharePairs hid ch info.id) fun x hx sid hserves => ?_
    obtain ⟨hhost, hne, hclient⟩ := (mem_sharePairs hid).mp hx
    have hclient' : x.client ∈ r.users :=
      ((mem_put r _ _).mp hclient).resolve_left fun he => hne (he.trans huid)
    obtain ⟨-, -, v, hv, hs⟩ := hR.sound sid x (h.session_of_host hc hserves hhost)
    rw [hhost] at hv
    exact hno rfl ⟨_, hget⟩ ⟨R, r, v, x.client, hc, hv, hs, hclient', hne⟩
  | @unshare R r r' u hc hu' hr' =>
    subst hr'
    exact hu.mono fun sid x hx => ((serves_closed h hc.room s (r.put { u with streaming := false })
      rfl rfl (ch.order .stopShare) (fun a => a.2.host = info.id) sid x).mp hx).1
  | depart d hd =>
    obtain ⟨L, heff⟩ := hd.effect h (e := e)
    exact hu.mono fun sid x hx =>
      (((heff.serves sid x).mp hx).resolve_right List.not_mem_nil).1

/-- **A second share** makes a second session for some pair. -/
theorem not_oneEach_of_share {u : User} (h : Inv env s) (hin : s.InRoom c R r)
    (hu : r.users.lookup c = some u) (hs : u.streaming = true) {c' : XID} (hc' : c' ∈ r.users)
    (hne : c' ≠ c) :
    ¬ (s.opened env ch R (r.put { u with streaming := true }) (newEntries env s.drawn
      (sharePairs ch c (r.put { u with streaming := true }).users))).OneEach := by
  intro hone
  have hR := h.room R r hin.room
  have hid := hR.id_put { u with streaming := true }
  have hserves := serves_opened ch h hin.room s (r.put { u with streaming := true })
    rfl rfl (sharePairs ch c (r.put { u with streaming := true }).users)
  obtain ⟨sid, hx⟩ := hR.complete c c' u hu hs hc' hne
  have hpair : (⟨c, c'⟩ : RoomSession) ∈ sharePairs ch c (r.put { u with streaming := true }).users :=
    (mem_sharePairs hid).mpr ⟨rfl, hne, (mem_put r _ _).mpr (Or.inr hc')⟩
  obtain ⟨a, ha, hax⟩ : ∃ a ∈ newEntries env s.drawn
      (sharePairs ch c (r.put { u with streaming := true }).users), a.2 = ⟨c, c'⟩ :=
    exists_newEntries.mpr hpair
  have hold : s.Serves sid ⟨c, c'⟩ := ⟨R, r, hin.room, hx⟩
  have heq := hone sid a.1 ⟨c, c'⟩ ((hserves _ _).mpr (Or.inl hold))
    ((hserves _ _).mpr (Or.inr (hax ▸ ha)))
  exact not_drawn_of_mem_newEntries ha (heq ▸ h.serves_drawn hold)

/-- **A step keeps sessions unique if and only if it does not share again.** -/
theorem unique_iff_not_repeatsShare (h : w.Ok env) (hu : w.rooms.OneEach)
    (hst : w.step env i = some w') : w'.rooms.OneEach ↔ ¬ RepeatsShare w i := by
  obtain ⟨ch, i⟩ := i
  constructor
  · rintro hone ⟨c, he, ⟨v4, v6⟩, rfl, hget, R, r, u, c', hin, hlook, hs, hc', hne⟩
    have hcon : c ∈ w.rooms.connected := Finmap.mem_of_lookup_eq_some hin.at_
    obtain ⟨info, hinfo⟩ := Finmap.mem_iff.mp (h.known c hcon)
    obtain ⟨rfl, hw⟩ := h.info c info hinfo
    simp only [World.step, hinfo, handle_eq hcon, execute_share h.inv hin hlook hget,
      Option.map_some, Option.some.injEq] at hst
    subst hst
    exact not_oneEach_of_share h.inv hin hlook hs hc' hne hone
  · intro hno
    cases h.change_of_step hst with
    | upgrade | stranger | count => exact hu
    | message hc hch =>
      obtain ⟨rfl, -⟩ := h.info _ _ hc
      refine hch.oneEach h.inv hu ?_
      rintro rfl ⟨ips, hget⟩ hs
      exact hno ⟨_, _, ips, rfl, hget, hs⟩

/-! ## Runs -/

/-- **Runs with unique sessions** are those in which nobody shares again. -/
theorem sessions_unique_iff (env : Env) (is : List (Choice × Input)) :
    (server env).Throughout (SessionsUnique env) is ↔
      (server env).Meets (fun w i => ¬ RepeatsShare w i) is := by
  refine Machine.meets_iff (server_ok env) ?_ (fun w i w' h hu hst => ?_) is
  · intro R r hr
    simp [server, World.init, newRooms] at hr
  · have h' : w'.Ok env := by
      exact h.change (h.change_of_step hst)
    rw [h'.sessionsUnique_iff, unique_iff_not_repeatsShare h (h.sessionsUnique_iff.mp hu) hst]

/-- Two clients meet in a room, and the first shares twice. -/
def shareTwice : List (Choice × Input) :=
  [.upgrade [] "" false, .upgrade [] "" false,
    .receive ⟨0⟩ (.create ⟨"room", connectionLocal, false, "", "a", false⟩) rfl,
    .receive ⟨1⟩ (.join ⟨"room", "", "b"⟩) rfl, .receive ⟨0⟩ .startShare rfl,
    .receive ⟨0⟩ .startShare rfl].map fun i => (Choice.plain, i)

/-- **Sharing twice** gives the second client two sessions with the first. -/
theorem share_twice_doubles : ∃ w r, (server openServer).run shareTwice = some w ∧
    w.rooms.rooms.lookup "room" = some r ∧ r.sessions.lookup ⟨2⟩ = some ⟨⟨0⟩, ⟨1⟩⟩ ∧
    r.sessions.lookup ⟨3⟩ = some ⟨⟨0⟩, ⟨1⟩⟩ ∧ ¬ SessionsUnique openServer w := by
  have hrun : ((server openServer).run shareTwice).bind (fun w =>
      (w.rooms.rooms.lookup "room").map fun r =>
        (r.sessions.lookup ⟨2⟩, r.sessions.lookup ⟨3⟩)) =
      some (some ⟨⟨0⟩, ⟨1⟩⟩, some ⟨⟨0⟩, ⟨1⟩⟩) := by
    decide +kernel
  obtain ⟨w, hw, hr⟩ := Option.bind_eq_some_iff.mp hrun
  obtain ⟨r, hr, hs⟩ := Option.map_eq_some_iff.mp hr
  obtain ⟨h2, h3⟩ := Prod.mk.inj hs
  refine ⟨w, r, hw, hr, h2, h3, fun hu => ?_⟩
  have := (hu "room" r hr).1 _ _ _ h2 h3
  exact absurd this (by decide)

end Screego
