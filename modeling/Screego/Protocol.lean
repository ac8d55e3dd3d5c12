import Screego.Relay

/-!
# The messages of one client, in order

* `Grammar`: the shape of a log;
* `SignalGuard`: a signalling message concerns a session announced to the client and not ended;
* `Change.relayed`: where a message is relayed, it is one of a live session;
* `closed_for_good`: after a `CloseWriter` the client is in no map of the server;
* **`clients_follow_the_protocol`**.
-/

set_option autoImplicit false

namespace Screego

open Lib Outgoing

variable {env : Env} {ch : Choice} {s t : Rooms} {info : ClientInfo} {e : Event} {sent : List Send}
  {w w' : World} {i : Input} {c u sid : XID} {x : RoomSession}

/-! ## The shape of a log -/

/-- **Nothing, or one `CloseWriter`, or a `Room` and messages up to at most one `CloseWriter`.** -/
def Grammar (l : List Message) : Prop :=
  l = [] ∨ (∃ m, m.IsClose ∧ l = [m]) ∨
    ∃ m body tail, l = .room m :: (body ++ tail) ∧ NoClose body ∧
      (tail = [] ∨ ∃ m', m'.IsClose ∧ tail = [m'])

theorem Open.grammar {l : List Message} (h : Open l) : Grammar l := by
  obtain ⟨m, body, rfl, hbody⟩ := h
  exact Or.inr (Or.inr ⟨m, body, [], by rw [List.append_nil], hbody, Or.inl rfl⟩)

theorem Closed.grammar {l : List Message} (h : Closed l) : Grammar l := by
  obtain ⟨pre, m, rfl, hm, rfl | ⟨m', body, rfl, hbody⟩⟩ := h
  · exact Or.inr (Or.inl ⟨m, hm, rfl⟩)
  · exact Or.inr (Or.inr ⟨m', body, [m], rfl, hbody, Or.inr ⟨m, hm, rfl⟩⟩)

/-- What the server knows of a client: nothing, a connection, a user, a connection that is gone. -/
theorem LogOk.cases_log (h : w.Ok env) (hl : LogOk w) (c : XID) :
    w.log c = [] ∨ Open (w.log c) ∨ (c ∉ w.rooms.connected ∧ Closed (w.log c)) := by
  by_cases hc : c ∈ w.clients
  · by_cases hcon : c ∈ w.rooms.connected
    · rcases h.inv.idle_or_seats hcon with hidle | hseat
      · exact Or.inl (hl.idle c hidle)
      · exact Or.inr (Or.inl (hl.user c hseat))
    · exact Or.inr (Or.inr ⟨hcon, hl.gone c hc hcon⟩)
  · exact Or.inl (hl.stranger c hc)

theorem LogOk.grammar (h : w.Ok env) (hl : LogOk w) (c : XID) : Grammar (w.log c) := by
  rcases hl.cases_log h c with hnil | hopen | ⟨-, hclosed⟩
  · exact Or.inl hnil
  · exact hopen.grammar
  · exact hclosed.grammar

/-- A client whose writer is closed is not connected. -/
theorem LogOk.notMem_connected (h : w.Ok env) (hl : LogOk w)
    (hclose : ∃ m ∈ w.log c, m.IsClose) : c ∉ w.rooms.connected := by
  obtain ⟨m, hm, hmc⟩ := hclose
  rcases hl.cases_log h c with hnil | ⟨m', body, hlog, hbody⟩ | ⟨hcon, -⟩
  · rw [hnil] at hm
    exact absurd hm List.not_mem_nil
  · rw [hlog] at hm
    rcases List.mem_cons.mp hm with rfl | hm
    · exact absurd hmc id
    · exact absurd hmc (hbody m hm)
  · exact hcon

/-! ## Signalling messages -/

/-- `u` was told to host the session `sid`, and not told of its end. -/
def Hosted (sid : XID) : List Message → Prop :=
  Since (fun m => m = .endShare sid) fun m => ∃ p, m = .hostSession p ∧ p.id = sid

/-- **A signalling message concerns a session that goes on**, on the side that gets the kind. -/
def SignalGuard (pre : List Message) (m : Message) : Prop :=
  ∀ p, (m = .hostOffer p ∨ m = .hostICE p → Viewing p.sid pre) ∧
    (m = .clientAnswer p ∨ m = .clientICE p → Hosted p.sid pre)

theorem signalGuard_of_not_isSignal {m : Message} (hm : ¬ m.IsSignal) (pre : List Message) :
    SignalGuard pre m := by
  refine fun p => ⟨?_, ?_⟩
  · rintro (rfl | rfl) <;> exact absurd trivial hm
  · rintro (rfl | rfl) <;> exact absurd trivial hm

/-- The host of a session was told of it. -/
theorem StoryOk.hosted (hs : StoryOk env w) (hx : w.rooms.Serves sid x) :
    Hosted sid (w.log x.host) := by
  obtain ⟨ice, hm⟩ := hs.mem_host hx
  refine since_of_forall_not (fun m hm' he => ?_) ⟨_, hm, _, rfl, rfl⟩
  exact hs.going sid x hx _ (he ▸ hm')

/-- What the receiver of a relayed message knows of its session. -/
theorem StoryOk.signalGuard (hs : StoryOk env w) (k : Signal) {m : P2PMessage}
    (hx : w.rooms.Serves m.sid x) : SignalGuard (w.log (k.receiver x)) (k.message m) := by
  have hview := hs.viewing hx
  have hhost := hs.hosted hx
  intro p
  cases k <;> exact ⟨by rintro (h | h) <;> cases h <;> assumption,
    by rintro (h | h) <;> cases h <;> assumption⟩

/-- A message is relayed on a live session, or not at all. -/
theorem Change.relayed (hch : Change env ch s info e t sent) : NoSignal sent ∨
    ∃ (k : Signal) (m : P2PMessage) (x : RoomSession), s.Serves m.sid x ∧
      sent = [.write ⟨k.receiver x⟩ (k.message m)] := by
  cases hch with
  | relay k m hc hx hs => exact Or.inr ⟨k, m, _, ⟨_, _, hc.room, hx⟩, rfl⟩
  | skip | stale => exact Or.inl every_nil
  | name | create => exact Or.inl (noSignal_notify ch _)
  | join => exact Or.inl (Every.append (noSignal_notify ch _) (noSignal_announce _ _ _ _ _))
  | bounce =>
    exact Or.inl (Every.append (noSignal_notify ch _)
      (Every.append (noSignal_close _ _) (noSignal_notify ch _)))
  | share => exact Or.inl (Every.append (noSignal_announce _ _ _ _ _) (noSignal_notify ch _))
  | unshare => exact Or.inl (Every.append (noSignal_endShares _ _) (noSignal_notify ch _))
  | depart d hd => exact Or.inl hd.noSignal

/-- The signalling messages every client has heard. -/
def SignalsOk (w : World) : Prop := ∀ c, Guarded SignalGuard (w.log c)

theorem SignalsOk.change (hsig : SignalsOk w) (hs : StoryOk env w) (hch : w.Change env ch i w') :
    SignalsOk w' := by
  intro u
  cases hch with
  | upgrade | stranger => exact hsig u
  | count =>
    rw [log_count]
    exact hsig u
  | message hc hch =>
    rw [log_after]
    rcases hch.relayed with hno | ⟨k, m, x, hx, rfl⟩
    · exact guarded_append_of_forall (hsig u) fun m hm pre =>
        signalGuard_of_not_isSignal (hno _ m (mem_heard.mp hm)) pre
    · refine guarded_append (hsig u) fun pre m' post hheard => ?_
      have hlen : (heard u [Send.write ⟨k.receiver x⟩ (k.message m)]).length ≤ 1 :=
        List.length_filterMap_le _ _
      have hpre : pre = [] := by
        rw [hheard, List.length_append, List.length_cons] at hlen
        exact List.length_eq_zero_iff.mp (by omega)
      have hm' : Send.write ⟨u⟩ m' ∈ [Send.write ⟨k.receiver x⟩ (k.message m)] :=
        mem_heard.mp (by rw [hheard]; simp)
      cases List.mem_singleton.mp hm'
      rw [hpre, List.append_nil]
      exact hs.signalGuard k hx

/-! ## Later states -/

/-- Logs only grow. -/
theorem World.Change.log_prefix (hch : w.Change env ch i w') (c : XID) : w.log c <+: w'.log c := by
  cases hch with
  | upgrade | stranger => exact List.prefix_rfl
  | count =>
    rw [log_count]
  | message =>
    rw [log_after]
    exact List.prefix_append _ _

/-- A client whose writer is closed is in no map of the server. -/
theorem closed_for_good (h : w.Ok env) (hl : LogOk w) (hclose : ∃ m ∈ w.log c, m.IsClose) :
    c ∉ w.rooms.connected ∧ ∀ R r, w.rooms.rooms.lookup R = some r →
      c ∉ r.users ∧ ∀ sid x, r.sessions.lookup sid = some x → x.host ≠ c ∧ x.client ≠ c := by
  have hcon := hl.notMem_connected h hclose
  have hseat : ¬ w.rooms.Seats c := fun hs => hcon (h.inv.seats_connected hs)
  refine ⟨hcon, fun R r hr => ⟨fun hu => hseat ⟨R, r, hr, hu⟩, fun sid x hx => ?_⟩⟩
  obtain ⟨hhost, hclient⟩ := h.inv.serves_seats ⟨R, r, hr, hx⟩
  exact ⟨fun he => hseat (he ▸ hhost), fun he => hseat (he ▸ hclient)⟩

/-- **The protocol of one client.** Its log has the shape of `Grammar`; signalling messages concern
sessions announced to it and not ended; from its `CloseWriter` on it is in no map of the server. -/
theorem clients_follow_the_protocol (env : Env) (is js : List (Choice × Input)) :
    ∃ w w', (server env).run is = some w ∧ (server env).run (is ++ js) = some w' ∧
      ∀ c, Grammar (w'.log c) ∧ Guarded SignalGuard (w'.log c) ∧
        ((∃ m ∈ w.log c, m.IsClose) → c ∉ w'.rooms.connected ∧
          ∀ R r, w'.rooms.rooms.lookup R = some r → c ∉ r.users ∧
            ∀ sid x, r.sessions.lookup sid = some x → x.host ≠ c ∧ x.client ≠ c) := by
  have hsig : (server env).Always fun w => (w.Ok env ∧ LogOk w ∧ StoryOk env w) ∧ SignalsOk w :=
    server_story_always (fun _ => guarded_nil) fun _ _ _ _ _ hs hsig hch => hsig.change hs hch
  obtain ⟨w, w', hw, hw', -, ⟨⟨h', hl', -⟩, hsig'⟩, hlog⟩ :=
    hsig.later (fun w w' => ∀ c, w.log c <+: w'.log c) (fun _ _ => List.prefix_rfl)
      (fun _ _ _ h₁ h₂ c => (h₁ c).trans (h₂ c))
      (fun w i w' h hst c => by
        have hch := h.1.1.change_of_step hst
        exact hch.log_prefix c) is js
  refine ⟨w, w', hw, hw', fun c => ⟨hl'.grammar h' c, hsig' c, ?_⟩⟩
  rintro ⟨m, hm, hmc⟩
  exact closed_for_good h' hl' ⟨m, (hlog c).subset hm, hmc⟩

end Screego
