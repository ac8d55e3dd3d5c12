import Screego.Conversation

/-!
# What the server makes of what the pages say

* `EntryError`: why a client that is in no room is refused one; `Complies`;
* `Order`: a client is in no room exactly until its first message has been read;
* **`pages_break_no_rule`**: what a page says is never refused for its sender.
-/

set_option autoImplicit false

namespace Screego

open Lib Outgoing UseRoom

variable {env : Env} {ch : Choice} {s t : Rooms} {info : ClientInfo} {e : Event} {sent : List Send}
  {w w' : World} {i : Input} {u : XID} {R : String}

/-! ## The answers of the handlers -/

/-- **Why a request to enter a room is refused**, for a client that is in none. -/
inductive EntryError (env : Env) (ch : Choice) (s : Rooms) (info : ClientInfo) : Event → String → Prop
  | createID {q : Create} {err : String} (hR : normalizeRoomID q.id = .error err) :
      EntryError env ch s info (.create q) err
  | joinID {j : Join} {err : String} (hR : normalizeRoomID j.id = .error err) :
      EntryError env ch s info (.join j) err
  | there {q : Create} {R : String} (hR : normalizeRoomID q.id = .ok R) (hr : R ∈ s.rooms)
      (hjoin : ¬ q.joinIfExist = true) :
      EntryError env ch s info (.create q) ("room with id " ++ R ++ " does already exist")
  | missing {j : Join} {R : String} (hR : normalizeRoomID j.id = .ok R) (hr : R ∉ s.rooms) :
      EntryError env ch s info (.join j) ("room with id " ++ R ++ " does not exist")
  | auth {q : Create} {R err : String} (hR : normalizeRoomID q.id = .ok R) (hr : R ∉ s.rooms)
      (ha : q.authError env info = some err) : EntryError env ch s info (.create q) err
  | address {e : Event} {R v err : String} (he : e.Joins R v) (hr : R ∈ s.rooms)
      (hget : ch.get = .error err) : EntryError env ch s info e err

/-- **The event keeps to the rules**: its handler fails only where a client in no room may not enter the
one it asks for, or where no address is found. -/
def Complies (env : Env) (ch : Choice) (s : Rooms) (info : ClientInfo) (e : Event) : Prop :=
  ∃ out, e.execute env ch s info = some out ∧ ∀ err, out.err = some err →
    (s.connected.lookup info.id = some "" ∧ EntryError env ch s info e err) ∨
      (e = .startShare ∧ ch.get = .error err)

theorem Complies.of_eq {out : Outcome} (h : e.execute env ch s info = some out) (herr : out.err = none) :
    Complies env ch s info e := by
  refine ⟨out, h, fun err he => ?_⟩
  rw [herr] at he
  cases he

/-- A request to join an existing room. -/
theorem complies_joins (h : Inv env s) (hw : info.write = ⟨info.id⟩)
    (hc : s.connected.lookup info.id = some "") {v : String} {r : Screego.Room} (he : e.Joins R v)
    (hr : s.rooms.lookup R = some r) : Complies env ch s info e := by
  have hex := execute_joins ch h hw hc he hr
  cases hget : ch.get with
  | ok ips =>
    rw [hget] at hex
    exact .of_eq hex rfl
  | error err =>
    rw [hget] at hex
    refine ⟨_, hex, fun err' he' => Or.inl ⟨hc, ?_⟩⟩
    obtain rfl := Option.some.inj he'
    exact .address he (Finmap.mem_of_lookup_eq_some hr) hget

theorem complies_join (h : Inv env s) (hw : info.write = ⟨info.id⟩)
    (hc : s.connected.lookup info.id = some "") (j : Join) : Complies env ch s info (.join j) := by
  have hfail : ∀ {err}, (Event.join j).execute env ch s info = some (.fail s err) →
      EntryError env ch s info (.join j) err → Complies env ch s info (.join j) := by
    intro err hex herr
    refine ⟨_, hex, fun err' he => Or.inl ⟨hc, ?_⟩⟩
    exact Option.some.inj he ▸ herr
  cases hR : normalizeRoomID j.id with
  | error err =>
    refine hfail ?_ (.joinID hR)
    show j.execute env ch s info = _
    simp only [Join.execute, hc, Option.getD_some, ne_eq, not_true_eq_false, if_false, hR]
  | ok R =>
    cases hr : s.rooms.lookup R with
    | some r => exact complies_joins h hw hc ⟨hR, rfl⟩ hr
    | none =>
      have hr := Finmap.lookup_eq_none.mp hr
      exact hfail (execute_join_missing env ch hc hR hr) (.missing hR hr)

theorem complies_create (h : Inv env s) (hw : info.write = ⟨info.id⟩)
    (hc : s.connected.lookup info.id = some "") (q : Create) : Complies env ch s info (.create q) := by
  have hfail : ∀ {err}, (Event.create q).execute env ch s info = some (.fail s err) →
      EntryError env ch s info (.create q) err → Complies env ch s info (.create q) := by
    intro err hex herr
    refine ⟨_, hex, fun err' he => Or.inl ⟨hc, ?_⟩⟩
    exact Option.some.inj he ▸ herr
  cases hR : normalizeRoomID q.id with
  | error err =>
    refine hfail ?_ (.createID hR)
    show q.execute env ch s info = _
    simp only [Create.execute, hc, Option.getD_some, ne_eq, not_true_eq_false, if_false, hR]
  | ok R =>
    cases hr : s.rooms.lookup R with
    | some r =>
      by_cases hjoin : q.joinIfExist = true
      · exact complies_joins h hw hc ⟨hjoin, hR, rfl⟩ hr
      · have hr := Finmap.mem_of_lookup_eq_some hr
        exact hfail (execute_create_exists env ch hc hR hr hjoin) (.there hR hr hjoin)
    | none =>
      have hr' := Finmap.lookup_eq_none.mp hr
      cases ha : q.authError env info with
      | none => exact .of_eq (execute_create ch hc hR hr' ha) rfl
      | some err =>
        refine hfail ?_ (.auth hR hr' ha)
        show q.execute env ch s info = _
        simp only [Create.execute, hc, Option.getD_some, ne_eq, not_true_eq_false, if_false, hR, hr, ha]

/-- **The events of a client in a room.** -/
theorem complies_inRoom (h : Inv env s) {r : Screego.Room} (hin : s.InRoom info.id R r)
    (he : e = .startShare ∨ e = .stopShare ∨ (∃ n, e = .name n) ∨
      ∃ (k : Signal) (m : P2PMessage), e = k.event m ∧
        ∀ x, r.sessions.lookup m.sid = some x → k.sender x = info.id) : Complies env ch s info e := by
  obtain ⟨user, hu⟩ := Finmap.mem_iff.mp (h.mem_users hin)
  rcases he with rfl | rfl | ⟨n, rfl⟩ | ⟨k, m, rfl, hsender⟩
  · cases hget : ch.get with
    | ok ips => exact .of_eq (execute_share h hin hu hget) rfl
    | error err =>
      refine ⟨_, execute_share_error h hin hu hget, fun err' he => Or.inr ⟨rfl, ?_⟩⟩
      exact hget.trans (congrArg Except.error (Option.some.inj he))
  · exact .of_eq (execute_unshare ch h hin hu) rfl
  · exact .of_eq (execute_name hin n) rfl
  · cases hx : r.sessions.lookup m.sid with
    | none => exact .of_eq (execute_stale hin k (Finmap.lookup_eq_none.mp hx)) rfl
    | some x => exact .of_eq (execute_signal h hin hx (hsender x hx)) rfl

/-! ## Who is in no room -/

/-- **After its message a client is in a room, or gone.** -/
theorem Change.settled (hch : Change env ch s info e t sent) (h : Inv env s)
    (hw : info.write = ⟨info.id⟩) : t.connected.lookup info.id ≠ some "" := by
  intro hidle
  have ht := h.change hw hch
  have hseats : ¬ t.Seats info.id := ht.not_seats_of_idle hidle
  have hmem : info.id ∈ t.connected := Finmap.mem_of_lookup_eq_some hidle
  by_cases hc : info.id ∈ s.connected
  · rcases h.idle_or_inRoom hc with hno | ⟨R, r, hin⟩
    · rcases hch.heard_idle h hw hno with ⟨hs, -⟩ | ⟨hgone, -⟩
      · exact hseats hs
      · exact hgone hmem
    · rcases hch.heard_seated h hw ⟨R, r, hin.room, h.mem_users hin⟩ with ⟨hs, -⟩ | ⟨hgone, -⟩
      · exact hseats hs
      · exact hgone hmem
  · obtain ⟨rfl, -⟩ := hch.eq_of_notMem hc
    exact hc hmem

/-- A client that is disconnected is gone. -/
theorem Change.gone {d : Disconnected} (hch : Change env ch s info (.disconnected d) t sent) :
    info.id ∉ t.connected := by
  generalize he : Event.disconnected d = e at hch
  cases hch with
  | skip hc => exact hc
  | depart d hd => exact hd.notMem_connected
  | join _ hjoins | bounce _ hjoins => exact (he ▸ hjoins).elim
  | stale k | relay k => cases k <;> cases he
  | name | create | share | unshare => cases he

/-- **Others leave a client where it is**, or remove it. -/
theorem World.Change.lookup_other (hch : w.Change env ch i w') (h : w.Ok env) (hu : u ∈ w.clients)
    (hi : ∀ e he, i ≠ .receive u e he) (hR : w'.rooms.connected.lookup u = some R) :
    w.rooms.connected.lookup u = some R := by
  cases hch with
  | upgrade =>
    have hne : u ≠ env.xidNew w.rooms.drawn := fun he =>
      absurd (Env.drawn_xidNew.mp (he ▸ h.drawn u hu)) (Nat.lt_irrefl _)
    exact (Finmap.lookup_insert_of_ne _ hne).symm.trans hR
  | stranger | count => exact hR
  | @message c info e he s sent hc hch =>
    obtain ⟨rfl, -⟩ := h.info c info hc
    have hne : u ≠ info.id := fun heq => hi e he (heq ▸ rfl)
    rcases hch.lookup_connected h.inv hne with heq | ⟨hgone, -⟩
    · exact heq.symm.trans hR
    · exact absurd (Finmap.mem_of_lookup_eq_some hR) hgone

/-- The clients stay. -/
theorem World.Change.mem_clients (hch : w.Change env ch i w') (hu : u ∈ w.clients) : u ∈ w'.clients := by
  cases hch with
  | upgrade => exact Finmap.mem_insert.mpr (Or.inr hu)
  | stranger | message | count => exact hu

/-! ## The order of the messages -/

section Conversation

variable {P : Type} [DecidableEq P] {raw : String → Json} {X : XidReader env} {c c' : Conversation P}
  {d d' : Deployment P} {a : Happening P} {x : Exchange P} {p : P} {k : ℕ}

/-- The client that a socket is for. -/
def Deployment.clientAt (d : Deployment P) (p : P) (k : ℕ) : Option XID := (d.wires p k).map Wire.client

theorem clientAt_setWire (d : Deployment P) (p : P) (k : ℕ) (y : Wire) (p' : P) (k' : ℕ) :
    (d.setWire p k y).clientAt p' k' = if p' = p ∧ k' = k then some y.client else d.clientAt p' k' := by
  rw [Deployment.clientAt, wires_setWire]
  split_ifs
  · rfl
  · rfl

/-- A wire that is written to stays with its client. -/
theorem clientAt_setWire_same {y z : Wire} (hy : d.wires p k = some y) (hz : z.client = y.client) :
    (d.setWire p k z).clientAt = d.clientAt := by
  funext p' k'
  rw [clientAt_setWire]
  split_ifs with h
  · obtain ⟨rfl, rfl⟩ := h
    rw [Deployment.clientAt, hy, hz, Option.map_some]
  · rfl

omit [DecidableEq P] in
/-- What else reaches the main loop is no message of a page. -/
theorem of_outside {he : e.fromClient = true} (h : c.outside (.receive u e he) = true)
    (hu : c.voices u ≠ none) : ∃ d, e = .disconnected d := by
  cases e with
  | disconnected d => exact ⟨d, rfl⟩
  | _ => exact absurd (Option.isNone_iff_eq_none.mp h) hu

variable (X) in
/-- A message that is read comes from the client. -/
theorem input_eq (u : XID) (say : Say) : ∃ e he, say.input X u = .receive u e he := by
  unfold Say.input
  split
  case h_1 e _ => exact ⟨e.event, e.fromClient, rfl⟩
  case h_2 => exact ⟨_, rfl, rfl⟩

omit [DecidableEq P] in
/-- **What is read next.** -/
theorem next_eq_some {say : Say} (h : c.next p k = some (u, say)) :
    c.deployment.clientAt p k = some u ∧ (c.outbox p k)[c.heard p k]? = some say := by
  unfold Conversation.next at h
  split at h
  case h_1 hx hsay =>
    obtain ⟨rfl, rfl⟩ := Prod.mk.inj (Option.some.inj h)
    exact ⟨congrArg (Option.map Wire.client) hx, hsay⟩
  case h_2 => cases h

/-- **A client is in no room exactly until its first message has been read.** -/
structure Order (c : Conversation P) : Prop where
  voice : ∀ p k u, c.deployment.clientAt p k = some u → c.voices u = some (p, k)
  known : ∀ u y, c.voices u = some y → u ∈ c.deployment.world.clients
  unread : ∀ p k, c.deployment.clientAt p k = none → c.heard p k = 0
  order : ∀ p k u, c.deployment.clientAt p k = some u → ∀ R,
    c.deployment.world.rooms.connected.lookup u = some R → (R = "" ↔ c.heard p k = 0)

namespace Order

omit [DecidableEq P] in
theorem init : Order (Conversation.init env : Conversation P) where
  voice p k u h := by
    cases h
  known u y h := by
    cases h
  unread p k h := rfl
  order p k u h := by
    cases h

omit [DecidableEq P] in
/-- The clients and their rooms are as before. -/
theorem of_eq (h : Order c) (hclient : c'.deployment.clientAt = c.deployment.clientAt)
    (hworld : c'.deployment.world = c.deployment.world) (hvoices : c'.voices = c.voices)
    (hheard : c'.heard = c.heard) : Order c' where
  voice p k u hu := by
    rw [hvoices]
    exact h.voice p k u (hclient ▸ hu)
  known u y hy := by
    rw [hworld]
    exact h.known u y (hvoices ▸ hy)
  unread p k hp := by
    rw [hheard]
    exact h.unread p k (hclient ▸ hp)
  order p k u hu R hR := by
    rw [hheard]
    exact h.order p k u (hclient ▸ hu) R (hworld ▸ hR)

theorem hand (h : Order c) (p : P) (y : Option (ℕ × Say)) : Order (c.hand p y) := by
  cases y <;> exact h.of_eq rfl rfl rfl rfl

omit [DecidableEq P] in
/-- **The main loop goes on.** A socket whose client spoke has been read from once more. -/
theorem world (h : Order c) (hok : c.deployment.world.Ok env)
    (hch : c.deployment.world.Change env ch i w') (heard : P → ℕ → ℕ)
    (hself : ∀ p k u e he, c.deployment.clientAt p k = some u → i = .receive u e he →
      0 < heard p k ∨ ∃ d, e = .disconnected d)
    (hother : ∀ p k, (∀ u e he, c.deployment.clientAt p k = some u → i ≠ .receive u e he) →
      heard p k = c.heard p k)
    (hc' : c' = { c with deployment := { c.deployment with world := w' }, heard := heard }) :
    Order c' := by
  subst hc'
  refine ⟨h.voice, fun u y hy => hch.mem_clients (h.known u y hy), fun p k hp => ?_, ?_⟩
  · show heard p k = 0
    rw [hother p k fun u e he hu => by
      rw [show c.deployment.clientAt p k = none from hp] at hu
      cases hu]
    exact h.unread p k hp
  intro p k u hu R hR
  have hu : c.deployment.clientAt p k = some u := hu
  have hmem := h.known u _ (h.voice p k u hu)
  show R = "" ↔ heard p k = 0
  by_cases hi : ∃ e he, i = .receive u e he
  · obtain ⟨e, he, rfl⟩ := hi
    cases hch with
    | stranger hno => exact absurd hmem hno
    | @message _ info _ _ s sent hc hch =>
      obtain ⟨rfl, hw⟩ := hok.info _ info hc
      rcases hself p k _ e he hu rfl with hpos | ⟨d, rfl⟩
      · refine iff_of_false (fun hempty => ?_) hpos.ne'
        exact hch.settled hok.inv hw (hempty ▸ hR)
      · exact absurd (Finmap.mem_of_lookup_eq_some hR) hch.gone
  · have hi : ∀ e he, i ≠ .receive u e he := fun e he heq => hi ⟨e, he, heq⟩
    rw [hother p k fun v e he hv => Option.some.inj (hu.symm.trans hv) ▸ hi e he]
    exact h.order p k u hu R (hch.lookup_other hok hmem hi hR)

/-- **A socket gets a client.** -/
theorem upgrade (h : Order c) (hok : c.deployment.world.Ok env) {addr : IP} {user : String}
    {authenticated : Bool} (hnew : c.deployment.wires p k = none)
    (hch : c.deployment.world.Change env ch (.upgrade addr user authenticated) w') :
    Order { c with
      deployment := { c.deployment with world := w' }.setWire p k
        ⟨env.xidNew c.deployment.world.rooms.drawn, 0, true⟩
      voices := Function.update c.voices (env.xidNew c.deployment.world.rooms.drawn) (some (p, k)) } := by
  have hfresh : env.xidNew c.deployment.world.rooms.drawn ∉ c.deployment.world.clients := fun hmem =>
    absurd (Env.drawn_xidNew.mp (hok.drawn _ hmem)) (Nat.lt_irrefl _)
  have hnone : c.deployment.clientAt p k = none := Option.map_eq_none_iff.mpr hnew
  have hclient : ∀ p' k', ({ c.deployment with world := w' }.setWire p k
      ⟨env.xidNew c.deployment.world.rooms.drawn, 0, true⟩).clientAt p' k' =
      if p' = p ∧ k' = k then some (env.xidNew c.deployment.world.rooms.drawn)
      else c.deployment.clientAt p' k' := fun p' k' => clientAt_setWire _ p k _ p' k'
  have hold : ∀ {p' k' u}, c.deployment.clientAt p' k' = some u →
      u ∈ c.deployment.world.clients := fun hu => h.known _ _ (h.voice _ _ _ hu)
  refine ⟨fun p' k' u hu => ?_, fun u y hy => ?_, fun p' k' hp => ?_, fun p' k' u hu R hR => ?_⟩
  · rw [hclient] at hu
    split_ifs at hu with hat
    · obtain ⟨rfl, rfl⟩ := hat
      obtain rfl := Option.some.inj hu
      exact Function.update_self ..
    · have hne : u ≠ env.xidNew c.deployment.world.rooms.drawn := fun he => hfresh (he ▸ hold hu)
      exact (Function.update_of_ne hne _ _).trans (h.voice p' k' u hu)
  · by_cases hne : u = env.xidNew c.deployment.world.rooms.drawn
    · subst hne
      cases hch
      exact Finmap.mem_insert.mpr (Or.inl rfl)
    · exact hch.mem_clients (h.known u y ((Function.update_of_ne hne _ _).symm.trans hy))
  · rw [hclient] at hp
    split_ifs at hp
    exact h.unread p' k' hp
  · rw [hclient] at hu
    split_ifs at hu with hat
    · obtain ⟨rfl, rfl⟩ := hat
      obtain rfl := Option.some.inj hu
      cases hch
      have hempty : R = "" := (Option.some.inj ((Finmap.lookup_insert _).symm.trans hR)).symm
      exact iff_of_true hempty (h.unread _ _ hnone)
    · exact h.order p' k' u hu R (hch.lookup_other hok (hold hu) (fun e he heq => by cases heq) hR)

omit [DecidableEq P] in
/-- The main loop gets a message of a client that no page speaks for, or the end of a connection. -/
theorem server (h : Order c) (hok : c.deployment.world.Ok env)
    (hch : c.deployment.world.Change env ch i w') (hout : c.outside i = true) :
    Order { c with deployment := { c.deployment with world := w' } } := by
  refine h.world hok hch c.heard (fun p k u e he hu hi => Or.inr ?_) (fun _ _ _ => rfl) rfl
  have hvoice := h.voice p k u hu
  subst hi
  refine of_outside hout fun hmute => ?_
  rw [hmute] at hvoice
  cases hvoice

/-- **A message of a page is read.** -/
theorem read (h : Order c) (hok : c.deployment.world.Ok env) {e : Event} {he : e.fromClient = true}
    (hu : c.deployment.clientAt p k = some u)
    (hch : c.deployment.world.Change env ch (.receive u e he) w') :
    Order { c with
      deployment := { c.deployment with world := w' }
      heard := Function.update c.heard p (Function.update (c.heard p) k (c.heard p k + 1)) } := by
  refine h.world hok hch _ (fun p' k' u' e' he' hu' hi => Or.inl ?_) (fun p' k' hno => ?_) rfl
  · obtain ⟨rfl, -⟩ := Input.receive.inj hi
    obtain ⟨rfl, rfl⟩ := Prod.mk.inj
      (Option.some.inj ((h.voice p' k' u hu').symm.trans (h.voice p k u hu)))
    rw [Function.update_self, Function.update_self]
    exact Nat.succ_pos _
  · by_cases hp : p' = p
    · subst hp
      have hk : k' ≠ k := fun hk => hno u e he (hk ▸ hu) rfl
      rw [Function.update_self, Function.update_of_ne hk]
    · rw [Function.update_of_ne hp]

/-- **Every step keeps the order.** -/
theorem step (h : Order c) (hok : c.deployment.world.Ok env) (hs : c.step env raw X x = some c') :
    Order c' := by
  cases goes_of_step hs with
  | candidate | setName => exact h.hand ..
  | @answer p j =>
    have hanswered : Order { c with
      answering := Function.update c.answering p ((c.answering p).eraseIdx j) } := h.of_eq rfl rfl rfl rfl
    exact hanswered.hand ..
  | unasked => exact h
  | @on x a d ha hstep =>
    cases x with
    | candidate | answer | setName => cases ha
    | server ch i =>
      simp only [Conversation.happening] at ha
      split_ifs at ha with hout
      cases ha
      cases happens_of_step hstep with
      | server hw => exact h.server hok (hok.change_of_step hw) hout
    | upgrade p k ch addr user authenticated =>
      cases ha
      cases happens_of_step hstep with
      | upgrade hnew hw => exact h.upgrade hok hnew (hok.change_of_step hw)
    | write p k =>
      cases ha
      cases happens_of_step hstep with
      | @write _ _ y m _ hx =>
        have hx' : (c.deployment.setPage p (arrival env raw k m)).wires p k = some y := hx
        exact h.of_eq (clientAt_setWire_same hx' rfl) rfl rfl rfl
    | drop p k =>
      cases ha
      cases happens_of_step hstep with
      | drop hx => exact h.of_eq (clientAt_setWire_same hx rfl) rfl rfl rfl
    | page p i hi enter he offer =>
      cases ha
      cases happens_of_step hstep with
      | page =>
        have hhand := h.hand p ((c.deployment.pages p).speaks enter offer i)
        refine hhand.of_eq ?_ ?_ rfl rfl
        · rw [deployment_hand]
          rfl
        · rw [deployment_hand]
          rfl
    | read p k ch =>
      obtain ⟨⟨u, say⟩, hnext, rfl⟩ := Option.map_eq_some_iff.mp ha
      obtain ⟨e, he, hinput⟩ := input_eq X u say
      simp only [hinput] at hstep
      cases happens_of_step hstep with
      | server hw => exact h.read hok (next_eq_some hnext).1 (hok.change_of_step hw)

end Order

/-! ## What the server makes of it -/

variable (P) in
/-- **The invariant of the conversation.** -/
theorem conversation_ok (env : Env) (raw : String → Json) (X : XidReader env) :
    (conversation P env raw X).Safe fun c =>
      (Sound env c.deployment ∧ Talk env c) ∧ Order c := by
  have hsound := (component_deployment (P := P) env raw X).transfer (deployment_sound env raw)
  have htalk := hsound.and_of_step Talk.init fun c t c' hd h hs => h.step hd hs
  exact htalk.and_of_step Order.init fun c t c' hd h hs => h.step hd.1.ok hs

omit [DecidableEq P] in
/-- **Who has been told of a session** is the side of it that was told. -/
theorem sender_of_told (hd : Sound env d) (hu : d.clientAt p k = some u) {kind : Signal} {id : XID}
    (htold : d.Told env p k (sideOf kind) (env.xidString id)) {y : RoomSession}
    (hy : d.world.rooms.Serves id y) : kind.sender y = u := by
  obtain ⟨x, id', hx, hid, m, hm, hinvites⟩ := htold
  obtain rfl := env.xidString_injective hid
  obtain rfl : x.client = u := by
    rw [Deployment.clientAt, hx] at hu
    exact Option.some.inj hu
  obtain ⟨ice, ice', hsent⟩ := hd.story.announced id y hy
  have hmem : ∀ {m'}, m = m' → m'.Announces id → Send.write ⟨x.client⟩ m' ∈
      [Send.write ⟨y.host⟩ (.hostSession ⟨id, y.client, ice⟩),
        .write ⟨y.client⟩ (.clientSession ⟨id, y.host, ice'⟩)] := by
    rintro m' rfl hann
    rw [← hsent]
    exact List.mem_filter.mpr ⟨mem_log.mp hm, decide_eq_true hann⟩
  cases m with
  | hostSession q =>
    obtain ⟨hside, rfl⟩ := hinvites
    have h := hmem rfl rfl
    simp only [List.mem_cons, Send.write.injEq, reduceCtorEq, and_false, List.not_mem_nil, or_false,
      Chan.mk.injEq] at h
    cases kind with
    | hostOffer | hostICE => exact h.1.symm
    | clientAnswer | clientICE => cases hside
  | clientSession q =>
    obtain ⟨hside, rfl⟩ := hinvites
    have h := hmem rfl rfl
    simp only [List.mem_cons, Send.write.injEq, reduceCtorEq, and_false, List.not_mem_nil, or_false,
      false_or, Chan.mk.injEq] at h
    cases kind with
    | hostOffer | hostICE => cases hside
    | clientAnswer | clientICE => exact h.1.symm
  | _ => exact hinvites.elim

variable (X) in
/-- **What a page says can be read**: a session goes by the text of its id. -/
theorem incoming_of_told {say : Say} (htold : ∀ kind sid value, say = .signal kind sid value →
      ∃ id, sid = env.xidString id) :
    ∃ e, say.incoming X = some e ∧ ∀ kind id value, say = .signal kind (env.xidString id) value →
      e.event = kind.event ⟨id, value⟩ := by
  cases say with
  | signal kind sid value =>
    obtain ⟨id, rfl⟩ := htold kind sid value rfl
    refine ⟨_, by rw [Say.incoming, X.unmarshalJSON_text, Option.map_some], fun kind' id' value' he => ?_⟩
    obtain ⟨rfl, hid, rfl⟩ := Say.signal.inj he
    rw [env.xidString_injective hid]
  | _ => exact ⟨_, rfl, fun kind id value he => by cases he⟩

/-- **A page breaks no rule.** What the server reads of a page is well formed. If the client is gone,
nothing comes of it. Otherwise it is a request to enter a room just when the client is in none, and its
handler fails only where such a request is refused, or where no address is found: no page names a session
that is not its own, or speaks in a room it is not in, in whatever order things happen. -/
theorem pages_break_no_rule (env : Env) (raw : String → Json) (X : XidReader env) :
    (conversation P env raw X).Safe fun c => ∀ p k u say, c.next p k = some (u, say) →
      ∃ e info, say.incoming X = some e ∧
        (∀ (m : OutgoingMessage) text, m.say env = say → m.Spells env text → readTypedIncoming X text = .ok e.event) ∧
        c.deployment.world.clients.lookup u = some info ∧
        (u ∉ c.deployment.world.rooms.connected → ∀ ch,
          c.deployment.world.rooms.handle env ch ⟨info, false, e.event⟩ =
            some (c.deployment.world.rooms, [])) ∧
        (u ∈ c.deployment.world.rooms.connected →
          (say.enters = true ↔ c.deployment.world.rooms.connected.lookup u = some "") ∧
            ∀ ch, Complies env ch c.deployment.world.rooms info e.event) := by
  intro is c hrun p k u say hnext
  obtain ⟨⟨hd, htalk⟩, horder⟩ := conversation_ok P env raw X is c hrun
  obtain ⟨hu, hsay⟩ := next_eq_some hnext
  have hmem := List.mem_of_getElem? hsay
  have htold : ∀ kind sid value, say = .signal kind sid value →
      c.deployment.Told env p k (sideOf kind) sid :=
    fun kind sid value he => htalk.told p k kind sid value (he ▸ hmem)
  obtain ⟨e, he, hevent⟩ := incoming_of_told X fun kind sid value hsay => by
    obtain ⟨-, id, -, hid, -⟩ := htold kind sid value hsay
    exact ⟨id, hid⟩
  obtain ⟨info, hinfo⟩ := Finmap.mem_iff.mp (horder.known u _ (horder.voice p k u hu))
  obtain ⟨rfl, hw⟩ := hd.ok.info u info hinfo
  refine ⟨e, info, he, fun m text hm hspells => ?_, hinfo, fun hgone ch => ?_, fun hc => ?_⟩
  · obtain ⟨e', he', hread⟩ := read_say X hspells
    rw [hm, he] at he'
    exact Option.some.inj he' ▸ hread
  · simp only [Rooms.handle, Finmap.lookup_eq_none.mpr hgone, Option.isNone_none, Bool.not_false, Bool.and_true,
      if_true]
  have hfirst : say.enters = true ↔ c.heard p k = 0 := htalk.entersFirst p k _ say hsay
  rcases hd.ok.inv.idle_or_inRoom hc with hidle | ⟨R, r, hin⟩
  · have hzero := (horder.order p k _ hu _ hidle).mp rfl
    have henters := hfirst.mpr hzero
    refine ⟨iff_of_true henters hidle, fun ch => ?_⟩
    cases say with
    | create q =>
      obtain rfl := Option.some.inj he
      exact complies_create hd.ok.inv hw hidle q
    | join j =>
      obtain rfl := Option.some.inj he
      exact complies_join hd.ok.inv hw hidle j
    | _ => cases henters
  · have hzero : c.heard p k ≠ 0 := fun h0 => hin.ne ((horder.order p k _ hu _ hin.at_).mpr h0)
    have henters : ¬ say.enters = true := fun h => hzero (hfirst.mp h)
    refine ⟨iff_of_false henters fun hidle => hin.ne (Option.some.inj (hin.at_.symm.trans hidle)), fun ch => ?_⟩
    refine complies_inRoom hd.ok.inv hin ?_
    cases say with
    | create | join => exact absurd rfl henters
    | share =>
      obtain rfl := Option.some.inj he
      exact Or.inl rfl
    | stopshare =>
      obtain rfl := Option.some.inj he
      exact Or.inr (Or.inl rfl)
    | name n =>
      obtain rfl := Option.some.inj he
      exact Or.inr (Or.inr (Or.inl ⟨n, rfl⟩))
    | signal kind sid value =>
      have ht := htold kind sid value rfl
      obtain ⟨-, id, -, rfl, -⟩ := id ht
      refine Or.inr (Or.inr (Or.inr ⟨kind, ⟨id, value⟩, hevent kind id value rfl, fun y hy => ?_⟩))
      exact sender_of_told hd hu ht ⟨R, r, hin.room, hy⟩

/-- A page creates a room, and shares its screen. -/
def shareRoom : List (Exchange Unit) :=
  let enter : Say := .create ⟨"room", connectionLocal, false, "", "a", false⟩
  let page (i : HookInput) (hi : i.isMessage = false) : Exchange Unit := .page () i hi enter (@rfl _ true) ""
  [page .room (@rfl _ false), .upgrade () 0 Choice.plain [] "" false, page (.opened 0) (@rfl _ false),
    .read () 0 Choice.plain, .write () 0, page .share (@rfl _ false), page (.captured 0) (@rfl _ false)]

theorem pages_break_no_rule_shareRoom : ∃ c u say e info,
    (conversation Unit openServer (fun _ => .null) (.counting openServer.config)).run shareRoom = some c ∧
      c.next () 0 = some (u, say) ∧ say.enters = false ∧ say.incoming (.counting openServer.config) = some e ∧
      ∀ ch, Complies openServer ch c.deployment.world.rooms info e.event := by
  have hrun : ((conversation Unit openServer (fun _ => .null) (.counting openServer.config)).run shareRoom).bind
      (fun c => (c.next () 0).map fun y =>
        (y.2.enters, decide (y.1 ∈ c.deployment.world.rooms.connected))) = some (false, true) := by
    decide +kernel
  obtain ⟨c, hc, hrun⟩ := Option.bind_eq_some_iff.mp hrun
  obtain ⟨⟨u, say⟩, hnext, hrun⟩ := Option.map_eq_some_iff.mp hrun
  obtain ⟨henters, hmem⟩ := Prod.mk.inj hrun
  obtain ⟨e, info, he, -, -, -, hcomplies⟩ := pages_break_no_rule openServer (fun _ => .null)
    (.counting openServer.config) shareRoom c hc () 0 u say hnext
  exact ⟨c, u, say, e, info, hc, hnext, henters, he, (hcomplies (of_decide_eq_true hmem)).2⟩

end Conversation

end Screego
