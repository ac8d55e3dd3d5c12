import Screego.Preserve

/-!
# Runs of the main loop

* `World.Ok`: the invariant of the server with its connections;
* `World.Change`: what one input does to a world; **`World.Ok.step_change`**;
* **`server_ok`**: every run goes through and keeps `World.Ok`;
* `server_always`: the induction rule for further invariants;
* what an input adds to the view and to the log of a client (`view_after`, `log_after`).
-/

set_option autoImplicit false

namespace Screego

open Lib Outgoing

variable {env : Env} {ch : Choice} {w w' : World} {i : Input}

/-- **The invariant of the server with its connections.** -/
structure World.Ok (env : Env) (w : World) : Prop where
  inv : Inv env w.rooms
  info : ∀ c info, w.clients.lookup c = some info → info.id = c ∧ info.write = ⟨c⟩
  drawn : ∀ c, c ∈ w.clients → env.Drawn w.rooms.drawn c
  known : ∀ c, c ∈ w.rooms.connected → c ∈ w.clients

/-- **What one input does.** -/
inductive World.Change (env : Env) (ch : Choice) (w : World) : Input → World → Prop
  | upgrade (addr : IP) (user : String) (authenticated : Bool) :
      Change env ch w (.upgrade addr user authenticated)
        { rooms := w.rooms.connect env
          clients := w.clients.insert (env.xidNew w.rooms.drawn)
            (newClientInfo (env.xidNew w.rooms.drawn) addr user authenticated)
          history := w.history }
  | stranger {c : XID} {e : Event} {he : e.fromClient = true} (hc : c ∉ w.clients) :
      Change env ch w (.receive c e he) w
  | message {c : XID} {info : ClientInfo} {e : Event} {he : e.fromClient = true} {s : Rooms}
      {sent : List Send} (hc : w.clients.lookup c = some info)
      (hch : Screego.Change env ch w.rooms info e s sent) :
      Change env ch w (.receive c e he) (w.after [.got c e] (s, sent))
  | count : Change env ch w .count
      (w.after [] (w.rooms, [.respond (GoMap.len w.rooms.connected)]))

/-- The server accepts every input. -/
theorem World.Ok.step_change (h : w.Ok env) (ch : Choice) (i : Input) :
    ∃ w', w.step env (ch, i) = some w' ∧ w.Change env ch i w' := by
  cases i with
  | upgrade addr user authenticated =>
    refine ⟨_, ?_, .upgrade addr user authenticated⟩
    simp [World.step, Rooms.handle, Event.execute, executeConnected, World.after, Rooms.connect,
      newClientInfo]
  | receive c e he =>
    cases hc : w.clients.lookup c with
    | none =>
      exact ⟨w, by simp only [World.step, hc], .stranger (Finmap.lookup_eq_none.mp hc)⟩
    | some info =>
      obtain ⟨hid, hw⟩ := h.info c info hc
      obtain ⟨s', sent, hs, hch⟩ := handle_change ch h.inv (by rw [hw, hid]) he
      exact ⟨_, by simp only [World.step, hc, hs, Option.map_some], .message hc hch⟩
  | count =>
    refine ⟨_, ?_, .count⟩
    simp [World.step, Rooms.handle, Event.execute, executeHealth]

/-- What a step does. -/
theorem World.Ok.change_of_step (h : w.Ok env) {ch : Choice} {i : Input}
    (hs : w.step env (ch, i) = some w') : w.Change env ch i w' := by
  obtain ⟨w₁, hs₁, hch⟩ := h.step_change ch i
  rw [hs, Option.some.injEq] at hs₁
  exact hs₁ ▸ hch

/-- No message connects a client. -/
theorem Change.mem_connected {s t : Rooms} {info : ClientInfo} {e : Event} {sent : List Send}
    (h : Change env ch s info e t sent) {c : XID} (hc : c ∈ t.connected) : c ∈ s.connected := by
  have hseat : ∀ {R}, s.connected.lookup info.id = some "" →
      c ∈ s.connected.insert info.id R → c ∈ s.connected := fun hidle hmem =>
    (GoMap.mem_insert_of_mem (Finmap.mem_of_lookup_eq_some hidle) _ _).mp hmem
  cases h with
  | skip | name | stale | relay | share | unshare => exact hc
  | create hidle => exact hseat hidle hc
  | join hidle => exact hseat hidle hc
  | bounce hidle => exact hseat hidle (Finmap.mem_erase.mp hc).2
  | depart d hd =>
    cases hd with
    | idle => exact (Finmap.mem_erase.mp hc).2
    | stays => exact (Finmap.mem_erase.mp hc).2
    | closes => exact (Finmap.mem_erase.mp (GoMap.mem_eraseAll.mp hc).1).2

theorem Change.drawn_le {s t : Rooms} {info : ClientInfo} {e : Event} {sent : List Send}
    (h : Change env ch s info e t sent) : s.drawn ≤ t.drawn := by
  cases h with
  | skip | name | stale | relay | bounce | unshare => exact le_rfl
  | create | join | share => exact Nat.le_add_right _ _
  | depart d hd => cases hd <;> exact le_rfl

/-- **Every input keeps the invariant.** -/
theorem World.Ok.change (h : w.Ok env) (hch : w.Change env ch i w') : w'.Ok env := by
  cases hch with
  | upgrade addr user authenticated =>
    refine ⟨h.inv.connect, ?_, ?_, ?_⟩
    · intro c info hc
      rcases GoMap.lookup_insert_eq_some.mp hc with ⟨rfl, rfl⟩ | ⟨-, hc⟩
      · exact ⟨rfl, rfl⟩
      · exact h.info c info hc
    · intro c hc
      rcases Finmap.mem_insert.mp hc with rfl | hc
      · exact Env.drawn_xidNew.mpr (Nat.lt_succ_self _)
      · exact (h.drawn c hc).mono (Nat.le_succ _)
    · intro c hc
      exact Finmap.mem_insert.mpr ((Finmap.mem_insert.mp hc).imp_right (h.known c))
  | stranger hc => exact h
  | message hc hch =>
    obtain ⟨hid, hw⟩ := h.info _ _ hc
    exact ⟨h.inv.change (by rw [hw, hid]) hch, h.info, fun c hc => (h.drawn c hc).mono hch.drawn_le,
      fun c hc => h.known c (hch.mem_connected hc)⟩
  | count => exact ⟨h.inv, h.info, h.drawn, h.known⟩

theorem World.Ok.init : (World.init env).Ok env where
  inv := Inv.init
  info c info hc := by simp [World.init] at hc
  drawn c hc := absurd hc Finmap.notMem_empty
  known c hc := absurd hc Finmap.notMem_empty

/-- **The main loop never crashes and keeps its invariant.** -/
theorem server_ok (env : Env) : (server env).Always (World.Ok env) :=
  Machine.always_of_step World.Ok.init fun w i h => by
    obtain ⟨w', hs, hch⟩ := h.step_change i.1 i.2
    exact ⟨w', hs, h.change hch⟩

/-- **Further invariants** are those kept by `World.Change`. -/
theorem server_always {P : World → Prop} (h0 : P (World.init env))
    (hstep : ∀ ch w i w', w.Ok env → P w → w.Change env ch i w' → w'.Ok env → P w') :
    (server env).Always fun w => w.Ok env ∧ P w :=
  (server_ok env).and_of_step h0 fun w i w' h hP hs h' =>
    hstep i.1 w i.2 w' h hP (h.change_of_step hs) h'

/-! ## Views and logs -/

/-- What the client `u` hears of the messages handed out. -/
def heard (u : XID) (sent : List Send) : List Message := sent.filterMap (Send.heardBy u)

/-- What the client `u` says, when the event `e` of `c` is handled. -/
def spoken (u c : XID) (e : Event) : List Seen := if c = u then [.said e] else []

section After

variable (w : World) (u c : XID) (e : Event) (s : Rooms) (sent : List Send)

theorem sends_after : (w.after [.got c e] (s, sent)).sends = w.sends ++ sent := by
  simp [World.sends, World.after, List.filterMap_map]

theorem log_after : (w.after [.got c e] (s, sent)).log u = w.log u ++ heard u sent := by
  simp only [World.log, World.after, List.filterMap_append, List.filterMap_map]
  simp [heard, Item.heardBy, Function.comp_def]

theorem view_after : (w.after [.got c e] (s, sent)).view u =
    w.view u ++ (spoken u c e ++ (heard u sent).map .heard) := by
  simp only [World.view, World.after, List.filterMap_append, List.filterMap_map, heard,
    List.map_filterMap, List.append_assoc]
  congr 2
  unfold spoken Item.seenBy
  split_ifs with hc <;> simp [hc]

/-- A health check is no client's concern. -/
theorem view_count (n : ℕ) : (w.after [] (s, [.respond n])).view u = w.view u := by
  simp [World.view, World.after, Item.seenBy, Send.heardBy]

theorem log_count (n : ℕ) : (w.after [] (s, [.respond n])).log u = w.log u := by
  simp [World.log, World.after, Item.heardBy, Send.heardBy]

theorem sends_count (n : ℕ) : (w.after [] (s, [.respond n])).sends = w.sends ++ [.respond n] := by
  simp [World.sends, World.after]

end After

end Screego
