import Screego.Story

/-!
# Members and sessions of a room

What holds of the rooms between two messages, in every run of the main loop.

* `membership_consistent`: the map `connected` and the users of the rooms agree;
* `main_loop_never_panics`: every lookup a handler makes finds its entry;
* `sessions_sound_and_complete`: the sessions are those that streaming users owe to the others.
-/

set_option autoImplicit false

namespace Screego

open Lib

/-- **Membership.** A client is in a room exactly if the room has it as a user; rooms and users are
stored under their own ids, which are well formed; no room is empty. -/
theorem membership_consistent (env : Env) : (server env).Always fun w =>
    (∀ c R, R ≠ "" → (w.rooms.connected.lookup c = some R ↔
      ∃ r, w.rooms.rooms.lookup R = some r ∧ c ∈ r.users)) ∧
    ∀ R r, w.rooms.rooms.lookup R = some r →
      r.id = R ∧ trimSpace R = R ∧ 4 ≤ R.utf8ByteSize ∧
      (∀ c u, r.users.lookup c = some u → u.id = c) ∧ ∃ c, c ∈ r.users := by
  refine (server_ok env).mono fun w h => ⟨h.inv.member, fun R r hr => ?_⟩
  have hR := h.inv.room R r hr
  exact ⟨hR.id_eq, hR.trimmed, hR.long, fun c u hu => (hR.user c u hu).1, hR.inhabited⟩

/-- **No crash.** Whatever comes next is handled, the current room of a client has it as a user, and
both sides of a session are users. -/
theorem main_loop_never_panics (env : Env) : (server env).Always fun w =>
    (∀ i, ∃ w', w.step env i = some w') ∧
    (∀ c R r, w.rooms.currentRoom c = .ok (R, r) → c ∈ r.users) ∧
    ∀ R r sid x, w.rooms.rooms.lookup R = some r → r.sessions.lookup sid = some x →
      x.host ∈ r.users ∧ x.client ∈ r.users := by
  refine (server_ok env).mono fun w h => ⟨fun i => ?_, fun c R r hc => ?_, fun R r sid x hr hx => ?_⟩
  · obtain ⟨w', hw', -⟩ := h.step_change i.1 i.2
    exact ⟨w', hw'⟩
  · exact h.inv.mem_users (inRoom_of_currentRoom hc)
  · exact ⟨(h.inv.room R r hr).host_mem hx, (h.inv.room R r hr).client_mem hx⟩

/-- **Sessions.** A session leads from a streaming user to another user, and every streaming user
has one to every other user. -/
theorem sessions_sound_and_complete (env : Env) : (server env).Always fun w =>
    ∀ R r, w.rooms.rooms.lookup R = some r →
      (∀ sid x, r.sessions.lookup sid = some x → x.host ≠ x.client ∧ x.client ∈ r.users ∧
        ∃ u, r.users.lookup x.host = some u ∧ u.streaming = true) ∧
      ∀ h c u, r.users.lookup h = some u → u.streaming = true → c ∈ r.users → c ≠ h →
        ∃ sid, r.sessions.lookup sid = some ⟨h, c⟩ :=
  (server_ok env).mono fun _ h R r hr => ⟨(h.inv.room R r hr).sound, (h.inv.room R r hr).complete⟩

end Screego
