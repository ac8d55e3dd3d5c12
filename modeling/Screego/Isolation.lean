import Screego.Log

/-!
# Isolation of rooms

A message of a client concerns the room the client is in and the room the message names.

* `Turn.Server.entry`: what the table of the TURN server says about a user name; it stays when the
  sessions of other names begin (`entry_grants`) or end (`entry_revokes`);
* `Isolated`: the rooms that a message does not concern, their members and their TURN users are as
  before, and nobody but the sender and the members of the others hears anything;
* **`rooms_are_isolated`**: in every state of a run, for every message.
-/

set_option autoImplicit false

namespace Screego

open Lib Outgoing

variable {env : Env} {ch : Choice} {s t : Rooms} {info : ClientInfo} {e : Event} {sent : List Send}
  {c : XID} {name : String}

/-! ## The table of the TURN server -/

/-- The entry of the table for the user name. -/
def Turn.Server.entry (username : String) : Turn.Server → Option Turn.Entry
  | internal lookup => lookup.lookup username
  | external => none

theorem entry_grant (draw : ℕ → ℕ) {id : String} (addr : IP) (turn : Turn.Server)
    (h : name ≠ id) : (turn.grant env draw id addr).entry name = turn.entry name := by
  cases turn with
  | internal lookup => exact Finmap.lookup_insert_of_ne _ h
  | external => rfl

theorem entry_disallow {id : String} (turn : Turn.Server) (h : name ≠ id) :
    (turn.disallow id).entry name = turn.entry name := by
  cases turn with
  | internal lookup => exact Finmap.lookup_erase_ne h
  | external => rfl

/-- Sessions with other user names begin. -/
theorem entry_grants (mode : ConnectionMode) (users : GoMap XID User)
    (A : List (XID × RoomSession)) (turn : Turn.Server) (h : ∀ a ∈ A, ¬ UsernameOf env a.1 name) :
    (A.foldl (grantSession env ch mode users) turn).entry name = turn.entry name := by
  induction A generalizing turn with
  | nil => rfl
  | cons a A ih =>
    obtain ⟨hhost, hclient⟩ := not_or.mp (h a List.mem_cons_self)
    rw [List.foldl_cons, ih _ fun b hb => h b (List.mem_cons_of_mem _ hb)]
    unfold grantSession
    split_ifs
    · rw [entry_grant _ _ _ hclient, entry_grant _ _ _ hhost]
    · rfl

/-- Sessions with other user names end. -/
theorem entry_revokes (mode : ConnectionMode) (ids : List XID) (turn : Turn.Server)
    (h : ∀ id ∈ ids, ¬ UsernameOf env id name) :
    (ids.foldl (revokeSession env mode) turn).entry name = turn.entry name := by
  induction ids generalizing turn with
  | nil => rfl
  | cons id ids ih =>
    obtain ⟨hhost, hclient⟩ := not_or.mp (h id List.mem_cons_self)
    rw [List.foldl_cons, ih _ fun b hb => h b (List.mem_cons_of_mem _ hb)]
    unfold revokeSession
    split_ifs
    · rw [entry_disallow _ hclient, entry_disallow _ hhost]
    · rfl

/-! ## One message -/

/-- The user names of a session, and of sessions that are new. -/
theorem not_usernameOf_new {sid : XID} {n : ℕ} {ps : List RoomSession} {a : XID × RoomSession}
    (hsid : env.Drawn n sid) (hn : UsernameOf env sid name) (ha : a ∈ newEntries env n ps) :
    ¬ UsernameOf env a.1 name := fun ha' =>
  not_drawn_of_mem_newEntries ha (hn.unique ha' ▸ hsid)

/-- **Sessions of rooms that a departure does not concern** keep their TURN users. -/
theorem Departs.entry (h : Inv env s) {d : Disconnected} (hd : Departs env ch s c d t sent)
    {R : String} {r : Screego.Room} {sid : XID} (hR : ∀ r, ¬ s.InRoom c R r)
    (hr : s.rooms.lookup R = some r) (hsid : sid ∈ r.sessions) (hn : UsernameOf env sid name) :
    t.turnServer.entry name = s.turnServer.entry name := by
  have hother : ∀ {R₀ r₀ id}, s.InRoom c R₀ r₀ → id ∈ r₀.sessions → ¬ UsernameOf env id name := by
    intro R₀ r₀ id hin hid hn'
    obtain rfl := hn.unique hn'
    obtain rfl := h.apart R R₀ r r₀ sid hr hin.room hsid hid
    exact hR _ hin
  have hending : ∀ {R₀ r₀}, s.InRoom c R₀ r₀ →
      ∀ id ∈ (r₀.ending ch c).map Prod.fst, ¬ UsernameOf env id name := by
    intro R₀ r₀ hin id hid
    obtain ⟨a, ha, rfl⟩ := List.mem_map.mp hid
    have hx := (mem_range _ _).mp (List.mem_of_mem_filter ha)
    exact hother hin (Finmap.mem_of_lookup_eq_some hx)
  cases hd with
  | idle => rfl
  | stays hin => exact entry_revokes _ _ _ (hending hin)
  | @closes R₀ r₀ u hin =>
    have hremaining : ∀ id ∈ (r₀.remaining ch c).map Prod.fst, ¬ UsernameOf env id name := by
      intro id hid
      obtain ⟨a, ha, rfl⟩ := List.mem_map.mp hid
      have hx := Finmap.mem_of_lookup_eq_some ((mem_range _ _).mp ha)
      exact hother hin (GoMap.mem_eraseAll.mp hx).1
    exact (entry_revokes _ _ _ hremaining).trans (entry_revokes _ _ _ (hending hin))

/-- **Sessions of rooms that a message does not concern** keep their TURN users. -/
theorem Change.entry (h : Inv env s) (hch : Change env ch s info e t sent) {R : String}
    {r : Screego.Room} {sid : XID} (hR : ¬ s.Concerns info.id e R)
    (hr : s.rooms.lookup R = some r) (hsid : sid ∈ r.sessions) (hn : UsernameOf env sid name) :
    t.turnServer.entry name = s.turnServer.entry name := by
  have hdrawn := h.session R r sid hr hsid
  cases hch with
  | skip | name | stale | relay | bounce | create => rfl
  | join hc he hr₀ hget hr' hA =>
    subst hA
    exact entry_grants _ _ _ _ fun a ha => not_usernameOf_new hdrawn hn ha
  | share hin hu hget hr' hA =>
    subst hA
    exact entry_grants _ _ _ _ fun a ha => not_usernameOf_new hdrawn hn ha
  | @unshare R₀ r₀ r' u hin =>
    refine entry_revokes _ _ _ fun id hid hn' => ?_
    obtain ⟨a, ha, rfl⟩ := List.mem_map.mp hid
    have hx := (mem_range _ _).mp (List.mem_of_mem_filter ha)
    obtain rfl := hn.unique hn'
    obtain rfl := h.apart R R₀ r r₀ _ hr hin.room hsid (Finmap.mem_of_lookup_eq_some hx)
    exact hR (hin.concerns _)
  | depart d hd => exact hd.entry h (fun r hin => hR (hin.concerns e)) hr hsid hn

/-- The main loop answers no health check when it handles a message of a client. -/
theorem Change.respond_notMem (hch : Change env ch s info e t sent) (n : ℕ) :
    .respond n ∉ sent := by
  cases hch with
  | depart d hd => cases hd <;> simp [Room.notifyInfoChanged, Disconnected.close, endShares, ownerLeft]
  | _ => simp [Room.notifyInfoChanged, Disconnected.close, endShares, announce]

/-! ## Every message -/

/-- **The rooms an event of `c` does not concern are isolated from it.** -/
structure Isolated (env : Env) (s : Rooms) (c : XID) (e : Event) (t : Rooms) (sent : List Send) :
    Prop where
  rooms : ∀ R, ¬ s.Concerns c e R → t.rooms.lookup R = s.rooms.lookup R
  connected : ∀ u, u ≠ c → ¬ s.Near c e u → t.connected.lookup u = s.connected.lookup u
  turnServer : ∀ R r sid name, ¬ s.Concerns c e R → s.rooms.lookup R = some r →
    sid ∈ r.sessions → UsernameOf env sid name →
    t.turnServer.entry name = s.turnServer.entry name
  sent : ∀ x ∈ sent, ∃ u m, x = .write ⟨u⟩ m ∧ (u = c ∨ s.Near c e u)

theorem Change.isolated (h : Inv env s) (hw : info.write = ⟨info.id⟩)
    (hch : Change env ch s info e t sent) : Isolated env s info.id e t sent where
  rooms R hR := hch.lookup_rooms hR
  connected u hu hnear := (hch.lookup_connected h hu).resolve_right fun hgone => hnear hgone.2
  turnServer R r sid name hR hr hsid hn := hch.entry h hR hr hsid hn
  sent x hx := by
    cases x with
    | write out m => exact ⟨out.owner, m, rfl, hch.mem_sent h hw hx⟩
    | respond n => exact absurd hx (hch.respond_notMem n)

/-- **Isolation of rooms.** Every message of a client leaves the rooms it does not concern, their
members and their TURN users alone, and nobody hears of it but the sender and members of the rooms
it concerns. A new connection concerns no room. -/
theorem rooms_are_isolated (env : Env) : (server env).Always fun w =>
    (∀ ch c info e, w.clients.lookup c = some info → e.fromClient = true →
      ∃ t sent, w.rooms.handle env ch ⟨info, false, e⟩ = some (t, sent) ∧
        Isolated env w.rooms c e t sent) ∧
    ∀ ch addr user authenticated,
      let info := newClientInfo (env.xidNew w.rooms.drawn) addr user authenticated
      ∃ t, w.rooms.handle env ch ⟨info, true, .connected⟩ = some (t, []) ∧
        Isolated env w.rooms info.id .connected t [] ∧
        ∀ R, ¬ w.rooms.Concerns info.id .connected R := by
  refine (server_ok env).mono fun w h => ⟨fun ch c info e hinfo he => ?_, ?_⟩
  · obtain ⟨rfl, hw⟩ := h.info c info hinfo
    obtain ⟨t, sent, hs, hch⟩ := handle_change ch h.inv hw he
    exact ⟨t, sent, hs, hch.isolated h.inv hw⟩
  · intro ch addr user authenticated info
    have hnew : info.id ∉ w.rooms.connected := fun hmem => by
      have := Env.drawn_xidNew.mp (h.inv.client _ hmem)
      omega
    refine ⟨{ w.rooms with connected := w.rooms.connected.insert info.id "" }, rfl,
      ⟨fun _ _ => rfl, fun u hu _ => Finmap.lookup_insert_of_ne _ hu, fun _ _ _ _ _ _ _ _ => rfl,
        fun _ hx => absurd hx List.not_mem_nil⟩, fun R hR => ?_⟩
    rcases hR with ⟨-, hat⟩ | hnames
    · exact hnew (Finmap.mem_of_lookup_eq_some hat)
    · exact hnames

end Screego
