import Screego.Membership

/-!
# Signalling

`HostOffer`, `HostICE`, `ClientAnswer` and `ClientICE` pass from one side of a session to the other.

* `Message.IsSignal`: the messages the server relays;
* `Departs.noSignal`: a departure relays nothing;
* `handle_signal_forbidden`: a signalling message that is not allowed disconnects its sender;
* **`signals_reach_the_other_side`**.
-/

set_option autoImplicit false

namespace Screego

open Lib Outgoing

variable {env : Env} {ch : Choice} {s t : Rooms} {info : ClientInfo} {sent : List Send}
  {R : String} {r : Room} {c : XID} {x : RoomSession} {k : Signal} {m : P2PMessage}

/-- The message is one of the four relayed kinds. -/
def Outgoing.Message.IsSignal : Message → Prop
  | .hostOffer _ | .hostICE _ | .clientAnswer _ | .clientICE _ => True
  | _ => False

/-- None of the messages is relayed. -/
def NoSignal (sent : List Send) : Prop := ∀ ch m, .write ch m ∈ sent → ¬ m.IsSignal

theorem noSignal_notify (ch : Choice) (r : Room) : NoSignal (r.notifyInfoChanged ch) :=
  every_notify (fun _ => id) ch r

theorem noSignal_announce (v4 v6 : Option IP) (mode : ConnectionMode) (turn : Turn.Server)
    (A : List (XID × RoomSession)) : NoSignal (A.flatMap (announce env ch v4 v6 mode turn)) :=
  every_announce (fun _ => id) (fun _ => id) v4 v6 mode turn A

theorem noSignal_endShares (peer : RoomSession → XID) (L : List (XID × RoomSession)) :
    NoSignal (endShares peer L) := every_endShares (fun _ => id) peer L

theorem noSignal_close (d : Disconnected) (c : XID) : NoSignal [d.close c] :=
  every_close (fun _ _ => id) d c

/-- A departure relays nothing. -/
theorem Departs.noSignal {d : Disconnected} (hd : Departs env ch s c d t sent) : NoSignal sent := by
  cases hd with
  | idle => exact noSignal_close d c
  | stays =>
    exact Every.append (Every.append (noSignal_close d c) (noSignal_endShares _ _))
      (noSignal_notify _ _)
  | closes =>
    exact Every.append (Every.append (noSignal_close d c) (noSignal_endShares _ _))
      (every_ownerLeft (fun _ _ => id) _)

/-- The client may use the session for the message: it is in the room of the session, and on the
side that sends the kind. -/
def MaySend (s : Rooms) (c : XID) (k : Signal) (sid : XID) : Prop :=
  ∃ R r x, s.InRoom c R r ∧ r.sessions.lookup sid = some x ∧ k.sender x = c

/-- The client is in a room without the session. -/
def Stale (s : Rooms) (c sid : XID) : Prop := ∃ R r, s.InRoom c R r ∧ sid ∉ r.sessions

/-- The kind goes from one side of a session to the other. -/
theorem Signal.receiver_eq (k : Signal) (hne : x.host ≠ x.client) (hs : k.sender x = c) :
    k.receiver x = x.other c ∧ k.receiver x ≠ c := by
  unfold RoomSession.other
  subst hs
  cases k
  · exact ⟨(if_neg (Ne.symm hne)).symm, Ne.symm hne⟩
  · exact ⟨(if_neg (Ne.symm hne)).symm, Ne.symm hne⟩
  · exact ⟨(if_pos rfl).symm, hne⟩
  · exact ⟨(if_pos rfl).symm, hne⟩

variable (ch) in
/-- What is left: the error of the handler, then the departure of the client. -/
theorem handle_signal_forbidden (h : Inv env s) (hc : info.id ∈ s.connected)
    (hno : ¬ MaySend s info.id k m.sid) (hstale : ¬ Stale s info.id m.sid) : ∃ reason,
      s.handle env ch ⟨info, false, k.event m⟩ =
        s.handle env ch ⟨info, false, .disconnected ⟨closeNormalClosure, reason⟩⟩ := by
  have hfail : ∀ reason, (k.event m).execute env ch s info = some (.fail s reason) →
      s.handle env ch ⟨info, false, k.event m⟩ =
        s.handle env ch ⟨info, false, .disconnected ⟨closeNormalClosure, reason⟩⟩ := by
    intro reason hex
    rw [handle_eq hc, hex, handle_eq hc]
    rfl
  rcases h.idle_or_inRoom hc with hidle | ⟨R, r, hin⟩
  · exact ⟨_, hfail _ (execute_signal_idle hidle k m)⟩
  cases hx : r.sessions.lookup m.sid with
  | none => exact absurd ⟨R, r, hin, Finmap.lookup_eq_none.mp hx⟩ hstale
  | some x => exact ⟨_, hfail _ (execute_forbidden hin hx fun hs => hno ⟨R, r, x, hin, hx, hs⟩)⟩

/-- **Relay integrity and confidentiality.** A signalling message on a session of the sender's room
goes to the other side, and nowhere else, if the sender is on the side that sends the kind; for a
session the room does not have, nothing happens; otherwise the client is disconnected and nothing
is relayed. -/
theorem signals_reach_the_other_side (env : Env) : (server env).Always fun w =>
    ∀ (ch : Choice) (k : Signal) (m : P2PMessage) (c : XID) (info : ClientInfo),
      w.clients.lookup c = some info → c ∈ w.rooms.connected →
      (∀ R r x, w.rooms.InRoom c R r → r.sessions.lookup m.sid = some x → k.sender x = c →
        k.receiver x = x.other c ∧ k.receiver x ≠ c ∧
        w.rooms.handle env ch ⟨info, false, k.event m⟩ =
          some (w.rooms, [.write ⟨k.receiver x⟩ (k.message m)])) ∧
      (∀ R r, w.rooms.InRoom c R r → m.sid ∉ r.sessions →
        w.rooms.handle env ch ⟨info, false, k.event m⟩ = some (w.rooms, [])) ∧
      (¬ MaySend w.rooms c k m.sid → ¬ Stale w.rooms c m.sid → ∃ reason s sent,
        w.rooms.handle env ch ⟨info, false, k.event m⟩ = some (s, sent) ∧
        w.rooms.handle env ch ⟨info, false, .disconnected ⟨closeNormalClosure, reason⟩⟩ =
          some (s, sent) ∧ NoSignal sent) := by
  refine (server_ok env).mono fun w h ch k m c info hinfo hc => ?_
  obtain ⟨rfl, hw⟩ := h.info c info hinfo
  refine ⟨fun R r x hin hx hs => ?_, fun R r hin hx => ?_, fun hno hstale => ?_⟩
  · obtain ⟨hrec, hne⟩ := k.receiver_eq (h.inv.serves_ne ⟨R, r, hin.room, hx⟩) hs
    exact ⟨hrec, hne, by rw [handle_eq hc, execute_signal h.inv hin hx hs]; rfl⟩
  · rw [handle_eq hc, execute_stale hin k hx]
    rfl
  · obtain ⟨reason, heq⟩ := handle_signal_forbidden ch h.inv hc hno hstale
    have hd := executeNoError_departs ch ⟨closeNormalClosure, reason⟩ h.inv hw hc
    exact ⟨reason, _, _, heq.trans (handle_disconnected hc _), handle_disconnected hc _,
      hd.noSignal⟩

end Screego
