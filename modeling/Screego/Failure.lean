import Screego.RoomStep
import Screego.Effect
import Screego.Xid

/-!
# Failing events

An event whose handler returns an error: what the main loop leaves behind is what a `Disconnected`
of the client would have left.

* `Executed.departed`: the state after a failing event, and a departure;
* **`failing_event_is_a_departure`**: in every state of a run, for every event of every client;
* `join_again_closes_the_room`: a client alone in its room that asks to join that room.
-/

set_option autoImplicit false

namespace Screego

open Lib Outgoing

variable {env : Env} {ch : Choice} {s t : Rooms} {info : ClientInfo} {e : Event} {c : XID}

/-- The states have the same rooms, members, and TURN users. -/
structure Rooms.Same (t t' : Rooms) : Prop where
  rooms : t.rooms = t'.rooms
  connected : t.connected = t'.connected
  turnServer : t.turnServer = t'.turnServer

/-- **A failing event**: the main loop ends where a departure of the client ends. -/
theorem Executed.departed {out : Outcome} {err : String} (h : Inv env s)
    (hw : info.write = ⟨info.id⟩) (hc : info.id ∈ s.connected)
    (hex : e.execute env ch s info = some out) (hout : Executed env ch s info e out)
    (herr : out.err = some err) :
    ∃ t sent t' sent', s.handle env ch ⟨info, false, e⟩ = some (t, sent) ∧
      Departs env ch s info.id ⟨closeNormalClosure, err⟩ t' sent' ∧ t.Same t' := by
  rw [handle_eq hc, hex]
  cases hout with
  | done | gone => cases herr
  | failed err' =>
    cases herr
    exact ⟨_, _, _, _, rfl, executeNoError_departs ch _ h hw hc, rfl, rfl, rfl⟩
  | @joined _ R v err' r hidle he hr hget =>
    cases herr
    refine ⟨_, _, _, _, rfl, .idle hidle, ?_⟩
    simp only [executeNoError_bounce _ h hw hidle hr]
    exact ⟨rfl, GoMap.erase_insert_self _ _ _, rfl⟩
  | @shared R err' r u hin hu hget =>
    cases herr
    obtain ⟨hid, -, -⟩ := (h.room R r hin.room).user _ _ hu
    refine ⟨_, _, _, _, rfl, executeNoError_departs ch _ h hw hc, ?_⟩
    simp only [executeNoError_put h hw hin { u with streaming := true } hu hid rfl rfl]
    exact ⟨rfl, rfl, rfl⟩

/-- **What a departure leaves of a room**: other users as they were, and sessions between them. -/
theorem Departs.shrinks {d : Disconnected} {sent : List Send} {R : String} {r' : Screego.Room}
    (h : Inv env s) (hd : Departs env ch s c d t sent) (hr : t.rooms.lookup R = some r') :
    ∃ r, s.rooms.lookup R = some r ∧
      (∀ u v, r'.users.lookup u = some v → u ≠ c ∧ r.users.lookup u = some v) ∧
      ∀ sid x, r'.sessions.lookup sid = some x →
        x.host ≠ c ∧ x.client ≠ c ∧ r.sessions.lookup sid = some x := by
  have ht := h.departs hd
  have hgone : ∀ u, u ∈ r'.users → u ≠ c := by
    rintro u hu rfl
    exact hd.notMem_connected (ht.seats_connected ⟨R, r', hr, hu⟩)
  have hends : ∀ sid x, r'.sessions.lookup sid = some x → x.host ≠ c ∧ x.client ≠ c :=
    fun sid x hx => ⟨hgone _ ((ht.room R r' hr).host_mem hx),
      hgone _ ((ht.room R r' hr).client_mem hx)⟩
  have hne : ∀ u v, r'.users.lookup u = some v → u ≠ c := fun u v hv =>
    hgone u (Finmap.mem_of_lookup_eq_some hv)
  rcases hd.roomStep hr with hr | ⟨r, v, hin, -, -, rfl⟩
  · refine ⟨r', hr, fun u v hv => ⟨hne u v hv, hv⟩, fun sid x hx => ?_⟩
    obtain ⟨hhost, hclient⟩ := hends sid x hx
    exact ⟨hhost, hclient, hx⟩
  refine ⟨r, hin.room, fun u v hv => ⟨hne u v hv, ?_⟩, fun sid x hx => ?_⟩
  · have hv' : (r.without c).users.lookup u = some v := hv
    rwa [lookup_without, if_neg (hne u v hv)] at hv'
  · obtain ⟨hhost, hclient⟩ := hends sid x hx
    exact ⟨hhost, hclient, ((lookup_eraseAll_filter _ _ _ _ _).mp hx).1⟩

/-- **A failing event is a departure.** The rooms, the members and the TURN users are as after a
`Disconnected`; a room that the event only names is as before; and a failing `share` leaves neither
a session nor a flag. -/
theorem failing_event_is_a_departure (env : Env) : (server env).Always fun w =>
    ∀ ch c info e out err, w.clients.lookup c = some info → c ∈ w.rooms.connected →
      e.fromClient = true → e.execute env ch w.rooms info = some out → out.err = some err →
      ∃ t sent, w.rooms.handle env ch ⟨info, false, e⟩ = some (t, sent) ∧
        (∀ ch' d, ∃ t' sent',
          w.rooms.handle env ch' ⟨info, false, .disconnected d⟩ = some (t', sent') ∧ t.Same t') ∧
        (∀ R, e.Names R → w.rooms.connected.lookup c ≠ some R →
          t.rooms.lookup R = w.rooms.rooms.lookup R) ∧
        (e = .startShare → ∀ R r', t.rooms.lookup R = some r' →
          ∃ r, w.rooms.rooms.lookup R = some r ∧
            (∀ u v, r'.users.lookup u = some v → u ≠ c ∧ r.users.lookup u = some v) ∧
            ∀ sid x, r'.sessions.lookup sid = some x →
              x.host ≠ c ∧ x.client ≠ c ∧ r.sessions.lookup sid = some x) := by
  refine (server_ok env).mono fun w h ch c info e out err hinfo hc he hex herr => ?_
  obtain ⟨rfl, hw⟩ := h.info c info hinfo
  obtain ⟨out', hex', hout⟩ := execute_executed ch h.inv hw hc he
  obtain rfl := Option.some.inj (hex'.symm.trans hex)
  obtain ⟨t, sent, t₀, sent₀, hs, hd, hsame⟩ := hout.departed h.inv hw hc hex herr
  refine ⟨t, sent, hs, fun ch' d => ?_, fun R _ hR => ?_, fun _ R r' hr => ?_⟩
  · obtain rfl := hd.state_eq (executeNoError_departs ch' d h.inv hw hc)
    exact ⟨_, _, handle_disconnected hc d, hsame⟩
  · rw [hsame.rooms]
    exact hd.lookup_rooms fun r hin => hR hin.at_
  · rw [hsame.rooms] at hr
    exact hd.shrinks h.inv hr

/-- **A failed join may close the room it names**, when the client is in that room already. -/
theorem join_again_closes_the_room : ∃ w info out t sent,
    (server openServer).run createAlone = some w ∧ w.clients.lookup ⟨0⟩ = some info ∧
    (Event.join ⟨"room", "", "a"⟩).execute openServer Choice.plain w.rooms info = some out ∧
    out.err = some "cannot join room, you are already in one" ∧
    w.rooms.handle openServer Choice.plain ⟨info, false, .join ⟨"room", "", "a"⟩⟩ =
      some (t, sent) ∧
    "room" ∈ w.rooms.rooms ∧ "room" ∉ t.rooms := by
  have hrun : ((server openServer).run createAlone).bind (fun w =>
      (w.clients.lookup ⟨0⟩).bind fun info =>
        ((Event.join ⟨"room", "", "a"⟩).execute openServer Choice.plain w.rooms info).bind
          fun out =>
            (w.rooms.handle openServer Choice.plain ⟨info, false, .join ⟨"room", "", "a"⟩⟩).map
              fun result =>
                (out.err, decide ("room" ∈ w.rooms.rooms), decide ("room" ∈ result.1.rooms))) =
      some (some "cannot join room, you are already in one", true, false) := by
    decide +kernel
  obtain ⟨w, hw, hrun⟩ := Option.bind_eq_some_iff.mp hrun
  obtain ⟨info, hinfo, hrun⟩ := Option.bind_eq_some_iff.mp hrun
  obtain ⟨out, hout, hrun⟩ := Option.bind_eq_some_iff.mp hrun
  obtain ⟨⟨t, sent⟩, hs, hrun⟩ := Option.map_eq_some_iff.mp hrun
  simp only [Prod.mk.injEq, decide_eq_true_eq, decide_eq_false_iff_not] at hrun
  exact ⟨w, info, out, t, sent, hw, hinfo, hout, hrun.1, hs, hrun.2.1, hrun.2.2⟩

end Screego
