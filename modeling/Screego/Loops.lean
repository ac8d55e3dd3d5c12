import Screego.Server

/-!
# The loops over sessions in closed form

What the loops of `Join`, `StartShare`, `StopShare`, `Disconnected` and `closeRoom` do, as one
update of the room, of the server and of the messages sent.

* `announce`, `grantSession`: the messages and the TURN users of a new session;
* `Live.opened`: the state after new sessions; **`foldlM_newSession`**;
* `Live.closed`: the state after closed sessions; **`foldl_closeSession`**, `foldl_stopShareLoop`,
  `foldl_disconnectedLoop`.
-/

namespace Screego

open Lib Outgoing

/-! ## New sessions -/

section Open

variable (env : Env) (ch : Choice) (v4 v6 : Option IP)

/-- The TURN user names of a session. -/
def hostUsername (id : XID) : String := env.xidString id ++ "host"
def clientUsername (id : XID) : String := env.xidString id ++ "client"

/-- The ICE servers for the side of a session that uses the TURN user name. -/
def iceFor (mode : ConnectionMode) (turn : Turn.Server) (username : String) : List ICEServer :=
  if mode = connectionLocal then []
  else if mode = connectionSTUN then [⟨addresses env "stun" v4 v6 false, "", ""⟩]
  else if mode = connectionTURN then
    let issued := turn.issued env (ch.draw username) ch.now username
    [⟨addresses env "turn" v4 v6 true, issued.2, issued.1⟩]
  else []

/-- The messages that announce a session to its host and to its client. -/
def announce (mode : ConnectionMode) (turn : Turn.Server) (a : XID × RoomSession) : List Send :=
  [.write ⟨a.2.host⟩ (.hostSession
    ⟨a.1, a.2.client, iceFor env ch v4 v6 mode turn (hostUsername env a.1)⟩),
   .write ⟨a.2.client⟩ (.clientSession
    ⟨a.1, a.2.host, iceFor env ch v4 v6 mode turn (clientUsername env a.1)⟩)]

/-- The address of a user. -/
def addrOf (users : GoMap XID User) (c : XID) : IP := ((users.lookup c).map User.addr).getD []

/-- The TURN server after a session has begun. -/
def grantSession (mode : ConnectionMode) (users : GoMap XID User) (turn : Turn.Server)
    (a : XID × RoomSession) : Turn.Server :=
  if mode = connectionTURN then
    (turn.grant env (ch.draw (hostUsername env a.1)) (hostUsername env a.1)
      (addrOf users a.2.host)).grant env (ch.draw (clientUsername env a.1)) (clientUsername env a.1)
      (addrOf users a.2.client)
  else turn

/-- The sessions made of the pairs, with the ids from the `n`-th call of `xid.New` on. -/
def newEntries : ℕ → List RoomSession → List (XID × RoomSession)
  | _, [] => []
  | n, p :: ps => (env.xidNew n, p) :: newEntries (n + 1) ps

/-- The sessions a new user gets: one from every streaming user. -/
def joinPairs (ch : Choice) (c : XID) (users : GoMap XID User) : List RoomSession :=
  ((range (ch.order .join) users).filter fun a => !(c = a.2.id || !a.2.streaming)).map
    fun a => ⟨a.2.id, c⟩

/-- The sessions of a user that starts to share: one to every other user. -/
def sharePairs (ch : Choice) (c : XID) (users : GoMap XID User) : List RoomSession :=
  ((range (ch.order .startShare) users).filter fun a => !(c = a.2.id : Bool)).map
    fun a => ⟨c, a.2.id⟩

/-- The state after the sessions `A` have begun. -/
def Live.opened (st : Live) (A : List (XID × RoomSession)) : Live where
  room := { st.room with sessions := GoMap.insertAll st.room.sessions A }
  rooms := { st.rooms with
    turnServer := A.foldl (grantSession env ch st.room.mode st.room.users) st.rooms.turnServer
    counters := { st.rooms.counters with
      sessionCreated := st.rooms.counters.sessionCreated + A.length }
    drawn := st.rooms.drawn + A.length }
  sent := st.sent ++ A.flatMap (announce env ch v4 v6 st.room.mode st.rooms.turnServer)

/-- `c` is a user of the room and listens on its own channel. -/
def Seated (users : GoMap XID User) (c : XID) : Prop :=
  ∃ u, users.lookup c = some u ∧ u.write = ⟨c⟩

variable {env ch v4 v6}

theorem iceFor_grant (mode : ConnectionMode) (turn : Turn.Server) (draw : ℕ → ℕ) (id : String)
    (addr : IP) (username : String) :
    iceFor env ch v4 v6 mode (turn.grant env draw id addr) username =
      iceFor env ch v4 v6 mode turn username := by
  simp only [iceFor, Turn.Server.issued_grant]

theorem announce_grantSession (mode mode' : ConnectionMode) (users : GoMap XID User)
    (turn : Turn.Server) (a b : XID × RoomSession) :
    announce env ch v4 v6 mode (grantSession env ch mode' users turn b) a =
      announce env ch v4 v6 mode turn a := by
  unfold grantSession
  split_ifs
  · simp only [announce, iceFor_grant]
  · rfl

theorem Live.iceServers_eq {st : Live} {id host client : XID} {hostUser clientUser : User}
    (hh : st.room.users.lookup host = some hostUser)
    (hc : st.room.users.lookup client = some clientUser) :
    st.iceServers env ch v4 v6 id host client =
      some (iceFor env ch v4 v6 st.room.mode st.rooms.turnServer (hostUsername env id),
        iceFor env ch v4 v6 st.room.mode st.rooms.turnServer (clientUsername env id),
        grantSession env ch st.room.mode st.room.users st.rooms.turnServer (id, ⟨host, client⟩)) := by
  have hLT : connectionLocal ≠ connectionTURN := by decide
  have hSL : connectionSTUN ≠ connectionLocal := by decide
  have hST : connectionSTUN ≠ connectionTURN := by decide
  unfold Live.iceServers iceFor grantSession
  by_cases hl : st.room.mode = connectionLocal
  · simp [hl, hLT]
  by_cases hs : st.room.mode = connectionSTUN
  · simp [hs, hSL, hST]
  by_cases ht : st.room.mode = connectionTURN
  · simp only [hl, hs, if_false, if_pos ht, hh, hc, Option.bind_eq_bind, Option.bind_some,
      Turn.Server.credentials_eq, Turn.Server.issued_grant, addrOf, Option.map_some,
      Option.getD_some]
    rfl
  · simp [hl, hs, ht]

/-- **One new session between two users.** -/
theorem newSession_eq {st : Live} {x : RoomSession} (hh : Seated st.room.users x.host)
    (hc : Seated st.room.users x.client) :
    st.newSession env ch x.host x.client v4 v6 =
      some (st.opened env ch v4 v6 [(env.xidNew st.rooms.drawn, x)]) := by
  obtain ⟨hostUser, hh, hhw⟩ := hh
  obtain ⟨clientUser, hc, hcw⟩ := hc
  simp only [Live.newSession, Live.iceServers_eq hh hc, Option.bind_eq_bind, Option.bind_some, hh,
    hc, hhw, hcw]
  rfl

theorem Live.opened_nil (st : Live) : st.opened env ch v4 v6 [] = st := by
  simp [Live.opened]

theorem Live.opened_cons (st : Live) (a : XID × RoomSession) (A : List (XID × RoomSession)) :
    (st.opened env ch v4 v6 [a]).opened env ch v4 v6 A = st.opened env ch v4 v6 (a :: A) := by
  have hann : announce env ch v4 v6 st.room.mode
      (grantSession env ch st.room.mode st.room.users st.rooms.turnServer a) =
        announce env ch v4 v6 st.room.mode st.rooms.turnServer :=
    funext fun b => announce_grantSession _ _ _ _ _ _
  simp [Live.opened, hann, Nat.add_assoc, Nat.add_comm 1]

/-- **New sessions between users**, one for every pair. -/
theorem foldlM_newSession (ps : List RoomSession) (st : Live)
    (hps : ∀ x ∈ ps, Seated st.room.users x.host ∧ Seated st.room.users x.client) :
    ps.foldlM (fun st x => st.newSession env ch x.host x.client v4 v6) st =
      some (st.opened env ch v4 v6 (newEntries env st.rooms.drawn ps)) := by
  induction ps generalizing st with
  | nil => simp [newEntries, Live.opened_nil]
  | cons x ps ih =>
    obtain ⟨hh, hc⟩ := hps x List.mem_cons_self
    rw [List.foldlM_cons, newSession_eq hh hc, Option.bind_eq_bind, Option.bind_some,
      ih (st.opened env ch v4 v6 [_]) fun y hy => hps y (List.mem_cons_of_mem _ hy),
      Live.opened_cons]
    rfl

/-- A loop that skips some elements is the loop over the others. -/
theorem foldlM_skip {α β σ : Type} (p : α → Bool) (g : α → β) (f : σ → β → Option σ) (l : List α)
    (s : σ) : l.foldlM (fun s x => if p x then some s else f s (g x)) s =
      ((l.filter fun x => !p x).map g).foldlM f s := by
  induction l generalizing s with
  | nil => rfl
  | cons x l ih =>
    rw [List.foldlM_cons]
    cases hp : p x with
    | true =>
      rw [if_pos rfl, Option.bind_eq_bind, Option.bind_some, ih, List.filter_cons_of_neg (by simp [hp])]
    | false =>
      rw [if_neg (by simp), List.filter_cons_of_pos (by simp [hp]), List.map_cons, List.foldlM_cons]
      exact congrArg _ (funext ih)

/-! The loops of `Join` and of `StartShare` -/

variable (env ch v4 v6) in
theorem foldlM_join {c : XID} {st : Live} (hall : ∀ e ∈ range (ch.order .join) st.room.users,
      Seated st.room.users e.2.id) (hc : Seated st.room.users c) :
    (range (ch.order .join) st.room.users).foldlM (fun st user =>
        if c = user.2.id || !user.2.streaming then some st
        else st.newSession env ch user.2.id c v4 v6) st =
      some (st.opened env ch v4 v6
        (newEntries env st.rooms.drawn (joinPairs ch c st.room.users))) := by
  refine (foldlM_skip (fun e : XID × User => c = e.2.id || !e.2.streaming)
    (fun e => (⟨e.2.id, c⟩ : RoomSession))
    (fun (st : Live) x => st.newSession env ch x.host x.client v4 v6) _ _).trans ?_
  refine foldlM_newSession _ _ fun x hx => ?_
  obtain ⟨e, he, rfl⟩ := List.mem_map.mp hx
  exact ⟨hall e (List.mem_of_mem_filter he), hc⟩

variable (env ch v4 v6) in
theorem foldlM_share {c : XID} {st : Live} (hall : ∀ e ∈ range (ch.order .startShare) st.room.users,
      Seated st.room.users e.2.id) (hc : Seated st.room.users c) :
    (range (ch.order .startShare) st.room.users).foldlM (fun st user =>
        if c = user.2.id then some st else st.newSession env ch c user.2.id v4 v6) st =
      some (st.opened env ch v4 v6
        (newEntries env st.rooms.drawn (sharePairs ch c st.room.users))) := by
  have hskip := foldlM_skip (fun e : XID × User => c = e.2.id)
    (fun e => (⟨c, e.2.id⟩ : RoomSession))
    (fun (st : Live) x => st.newSession env ch x.host x.client v4 v6)
    (range (ch.order .startShare) st.room.users) st
  simp only [decide_eq_true_eq] at hskip
  refine hskip.trans ?_
  refine foldlM_newSession _ _ fun x hx => ?_
  obtain ⟨e, he, rfl⟩ := List.mem_map.mp hx
  exact ⟨hc, hall e (List.mem_of_mem_filter he)⟩

/-! The ids of new sessions -/

theorem length_newEntries (n : ℕ) (ps : List RoomSession) :
    (newEntries env n ps).length = ps.length := by
  induction ps generalizing n with
  | nil => rfl
  | cons p ps ih => rw [newEntries, List.length_cons, ih, List.length_cons]

theorem newEntries_map_snd (n : ℕ) (ps : List RoomSession) :
    (newEntries env n ps).map Prod.snd = ps := by
  induction ps generalizing n with
  | nil => rfl
  | cons p ps ih => rw [newEntries, List.map_cons, ih]

theorem exists_newEntries {n : ℕ} {ps : List RoomSession} {x : RoomSession} :
    (∃ a ∈ newEntries env n ps, a.2 = x) ↔ x ∈ ps := by
  rw [← List.mem_map, newEntries_map_snd]

theorem exists_of_mem_newEntries {n : ℕ} {ps : List RoomSession} {a : XID × RoomSession}
    (ha : a ∈ newEntries env n ps) : ∃ i, n ≤ i ∧ i < n + ps.length ∧ env.xidNew i = a.1 := by
  induction ps generalizing n with
  | nil => simp [newEntries] at ha
  | cons p ps ih =>
    rw [List.length_cons]
    rcases List.mem_cons.mp ha with rfl | ha
    · exact ⟨n, le_rfl, by omega, rfl⟩
    · obtain ⟨i, hi, hi', e⟩ := ih ha
      exact ⟨i, by omega, by omega, e⟩

theorem drawn_of_mem_newEntries {n : ℕ} {ps : List RoomSession} {a : XID × RoomSession}
    (ha : a ∈ newEntries env n ps) : env.Drawn (n + (newEntries env n ps).length) a.1 := by
  obtain ⟨i, -, hi, e⟩ := exists_of_mem_newEntries ha
  exact ⟨i, by rwa [length_newEntries], e⟩

/-- The ids are new. -/
theorem not_drawn_of_mem_newEntries {n : ℕ} {ps : List RoomSession} {a : XID × RoomSession}
    (ha : a ∈ newEntries env n ps) : ¬ env.Drawn n a.1 := by
  obtain ⟨i, hi, -, e⟩ := exists_of_mem_newEntries ha
  rw [← e, Env.drawn_xidNew]
  omega

theorem nodup_newEntries (n : ℕ) (ps : List RoomSession) :
    ((newEntries env n ps).map Prod.fst).Nodup := by
  induction ps generalizing n with
  | nil => exact List.nodup_nil
  | cons p ps ih =>
    rw [newEntries, List.map_cons, List.nodup_cons]
    refine ⟨fun h => ?_, ih _⟩
    obtain ⟨a, ha, e⟩ := List.mem_map.mp h
    have := not_drawn_of_mem_newEntries ha
    rw [e, Env.drawn_xidNew] at this
    omega

end Open

/-! ## Closed sessions -/

section Close

variable (env : Env)

/-- The TURN server after a session has ended. -/
def revokeSession (mode : ConnectionMode) (turn : Turn.Server) (id : XID) : Turn.Server :=
  if mode = connectionTURN then
    (turn.disallow (hostUsername env id)).disallow (clientUsername env id)
  else turn

/-- The state after the sessions `ids` have ended. -/
def Live.closed (st : Live) (ids : List XID) : Live where
  room := { st.room with sessions := GoMap.eraseAll st.room.sessions ids }
  rooms := { st.rooms with
    turnServer := ids.foldl (revokeSession env st.room.mode) st.rooms.turnServer
    counters := { st.rooms.counters with
      sessionClosed := st.rooms.counters.sessionClosed + ids.length } }
  sent := st.sent

/-- The messages that tell `peer x` of the end of every session of a list. -/
def endShares (peer : RoomSession → XID) (L : List (XID × RoomSession)) : List Send :=
  L.map fun a => .write ⟨peer a.2⟩ (.endShare a.1)

variable {env}

theorem closeSession_eq (st : Live) (id : XID) : st.closeSession env id = st.closed env [id] := rfl

theorem Live.closed_nil (st : Live) : st.closed env [] = st := rfl

theorem Live.closed_closed (st : Live) (ids ids' : List XID) :
    (st.closed env ids).closed env ids' = st.closed env (ids ++ ids') := by
  simp [Live.closed, GoMap.eraseAll_append, Nat.add_assoc]

/-- **Closing sessions one by one.** -/
theorem foldl_closeSession (L : List (XID × RoomSession)) (st : Live) :
    L.foldl (fun st e => st.closeSession env e.1) st = st.closed env (L.map Prod.fst) := by
  induction L generalizing st with
  | nil => rfl
  | cons e L ih =>
    rw [List.foldl_cons, ih, closeSession_eq, Live.closed_closed]
    rfl

theorem Live.endShareTo_eq {st : Live} {peer id : XID} (h : Seated st.room.users peer) :
    st.endShareTo peer id = { st with sent := st.sent ++ [.write ⟨peer⟩ (.endShare id)] } := by
  obtain ⟨user, hu, hw⟩ := h
  simp only [Live.endShareTo, hu, hw]

/-- A loop that tells one side of some sessions and closes them. -/
theorem foldl_endShare {p : RoomSession → Bool} {peer : RoomSession → XID}
    {body : Live → XID × RoomSession → Live} (L : List (XID × RoomSession)) (st : Live)
    (hclose : ∀ (st' : Live) (a : XID × RoomSession), a ∈ L → st'.room.users = st.room.users →
      p a.2 = true → body st' a = (st'.endShareTo (peer a.2) a.1).closeSession env a.1)
    (hskip : ∀ (st' : Live) (a : XID × RoomSession), a ∈ L → p a.2 = false → body st' a = st')
    (hpeer : ∀ a ∈ L, p a.2 = true → Seated st.room.users (peer a.2)) :
    L.foldl body st =
      { st.closed env ((L.filter fun a => p a.2).map Prod.fst) with
        sent := st.sent ++ endShares peer (L.filter fun a => p a.2) } := by
  induction L generalizing st with
  | nil => simp [endShares, Live.closed_nil]
  | cons a L ih =>
    rw [List.foldl_cons]
    cases hp : p a.2 with
    | false =>
      rw [hskip st a List.mem_cons_self hp, List.filter_cons_of_neg (by simp [hp])]
      exact ih st (fun st' b hb => hclose st' b (List.mem_cons_of_mem _ hb))
        (fun st' b hb => hskip st' b (List.mem_cons_of_mem _ hb))
        fun b hb => hpeer b (List.mem_cons_of_mem _ hb)
    | true =>
      rw [hclose st a List.mem_cons_self rfl hp, Live.endShareTo_eq (hpeer a List.mem_cons_self hp),
        List.filter_cons_of_pos (by simp [hp]), ih]
      · simp [closeSession_eq, Live.closed, endShares, Nat.add_assoc, Nat.add_comm 1]
      · exact fun st' b hb => hclose st' b (List.mem_cons_of_mem _ hb)
      · exact fun st' b hb => hskip st' b (List.mem_cons_of_mem _ hb)
      · exact fun b hb => hpeer b (List.mem_cons_of_mem _ hb)

variable (env) in
theorem foldl_stopShareLoop (current : XID) (L : List (XID × RoomSession)) (st : Live)
    (hpeer : ∀ a ∈ L, a.2.host = current → Seated st.room.users a.2.client) :
    L.foldl (stopShareLoop env current) st =
      { st.closed env ((L.filter fun a => a.2.host = current).map Prod.fst) with
        sent := st.sent ++ endShares RoomSession.client (L.filter fun a => a.2.host = current) } := by
  refine foldl_endShare (p := fun x => x.host = current) L st ?_ ?_ ?_
  · intro st' a _ _ hp
    rw [stopShareLoop, if_pos (by simpa using hp)]
  · intro st' a _ hp
    rw [stopShareLoop, if_neg (by simpa using hp)]
  · exact fun a ha hp => hpeer a ha (by simpa using hp)

/-- One of the two sides of the session is `c`. -/
def RoomSession.involves (x : RoomSession) (c : XID) : Bool := x.client = c || x.host = c

/-- The side of the session that is not `c`. -/
def RoomSession.other (c : XID) (x : RoomSession) : XID := if x.client = c then x.host else x.client

variable (env) in
theorem foldl_disconnectedLoop (current : XID) (L : List (XID × RoomSession)) (st : Live)
    (hne : ∀ a ∈ L, a.2.host ≠ a.2.client)
    (hpeer : ∀ a ∈ L, a.2.involves current = true → Seated st.room.users (a.2.other current)) :
    L.foldl (disconnectedLoop env current) st =
      { st.closed env ((L.filter fun a => a.2.involves current).map Prod.fst) with
        sent := st.sent ++ endShares (RoomSession.other current)
          (L.filter fun a => a.2.involves current) } := by
  refine foldl_endShare (p := fun x => x.involves current) L st ?_ ?_ hpeer
  · intro st' a ha _ hp
    have hne := hne a ha
    simp only [disconnectedLoop, RoomSession.other]
    by_cases hc : a.2.client = current
    · rw [if_pos hc, if_neg (fun h => hne (h.trans hc.symm)), if_pos hc]
    · have hh : a.2.host = current := by simpa [RoomSession.involves, hc] using hp
      rw [if_neg hc, if_pos hh, if_neg hc]
  · intro st' a _ hp
    simp only [RoomSession.involves, Bool.or_eq_false_iff, decide_eq_false_iff_not] at hp
    rw [disconnectedLoop, if_neg hp.1, if_neg hp.2]

end Close

end Screego
