import Screego.HookSteps

/-!
# Which sockets drive the room state

Every handler closes over its own socket, and all of them write one `RoomState`.

* `Moves`, **`moves_step`**: what one input does to the state;
* `Undisturbed`: an event of a socket that is not `conn.current` leaves the state as it is;
* `Derived`: the state comes from the frames of `conn.current`;
* `Intrudes`; **`state_follows_conn`**: the runs in which both are so.
-/

set_option autoImplicit false

namespace Screego.UseRoom

open Lib

variable {b : Hook} {i : HookInput} {k n : ℕ} {σ : Session} {cr : ConnectedRoom}

/-! ## The state -/

/-- The socket whose event the input is. -/
def HookInput.socket : HookInput → Option ℕ
  | .opened k | .message k _ | .error k | .close k => some k
  | _ => none

/-- The input ends a socket for the first time. -/
inductive Ends (b : Hook) : HookInput → Prop
  | close (k : ℕ) (ws : Socket) (hws : b.sockets[k]? = some ws) (hgone : ws.gone = false) :
      Ends b (.close k)
  | error (k : ℕ) (ws : Socket) (hws : b.sockets[k]? = some ws) (hready : ws.readyState ≠ .closed) :
      Ends b (.error k)

/-- **What one input does to the state.** -/
inductive Moves (b : Hook) : HookInput → Option ConnectedRoom → Prop
  | keeps (i : HookInput) (hroom : ∀ k payload first, i = .message k (.room payload) → ¬ b.Hears k first) :
      Moves b i b.state
  /-- Sharing begins or stops. -/
  | shares (i : HookInput) (stream : Option ℕ) (hi : i.socket = none) :
      Moves b i (b.state.map fun current => { current with hostStream := stream })
  | enters {k : ℕ} (payload : RoomInfo) (hk : b.Hears k true) :
      Moves b (.message k (.room payload)) (some ⟨k, payload, none, []⟩)
  | updates {k : ℕ} (payload : RoomInfo) (hk : b.Hears k false) :
      Moves b (.message k (.room payload)) (b.state.map fun current => { current with info := payload })
  | ends {k : ℕ} (id : String) (hk : b.Hears k false) :
      Moves b (.message k (.endShare id)) (b.state.map fun current =>
        { current with clientStreams := current.clientStreams.filter fun s => s.id ≠ id })
  /-- A viewer's peer is lost. -/
  | loses {n : ℕ} {σ : Session} (hσ : b.sessions[n]? = some σ) :
      Moves b (.connectionLost n) (b.state.map fun current =>
        { current with clientStreams := current.clientStreams.filter fun s => s.id ≠ σ.sid })
  | tracks {n : ℕ} {σ : Session} (hσ : b.Tracks n σ) :
      Moves b (.track n) (b.state.map fun current =>
        { current with clientStreams := current.clientStreams ++ [⟨σ.sid, n, σ.peerID⟩] })
  | leaves {i : HookInput} (hi : Ends b i) : Moves b i none

/-- Inputs that are not a room frame. -/
theorem Moves.same (i : HookInput) (hi : ∀ k payload, i ≠ .message k (.room payload)) :
    Moves b i b.state :=
  .keeps i fun k payload _ he => absurd he (hi k payload)

theorem moves_stopShare {b' : Hook} (hstate : b'.state = b.state) (hi : i.socket = none) :
    Moves b i b'.stopShare.state := by
  obtain ⟨sessions, streams, state, he, -, hs⟩ := stopShare_eq b'
  rw [he]
  rcases hs with rfl | rfl
  · rw [hstate]
    exact .same i fun k payload he => by simp [he, HookInput.socket] at hi
  · rw [hstate]
    exact .shares i none hi

/-- **Every input does one of these to the state.** -/
theorem moves_step (b : Hook) (i : HookInput) : Moves b i (b.step i).state := by
  generalize hb' : b.step i = b'
  cases hb' ▸ branch_step b i with
  | idle _ hdelivered =>
    refine .keeps i fun k payload first hi hk => ?_
    subst hi
    exact absurd ((delivered_of_hears hk _).symm.trans (hdelivered k)) (by simp)
  | opens | opened => exact .same _ (by simp)
  | enters payload hk => exact .enters payload hk
  | refuses hk hevent => exact .same _ fun k payload he => hevent payload (HookInput.message.inj he).2
  | updates payload hk => exact .updates payload hk
  | begins σ hk =>
    refine .same _ fun k payload he => ?_
    have hroom := (HookInput.message.inj he).2
    unfold Session.announcement at hroom
    split at hroom <;> cases hroom
  | ends id sessions hk => exact .ends id hk
  | passes hk hevent => exact .same _ fun k payload he => hevent payload (HookInput.message.inj he).2
  | closes hws hgone => exact .leaves (.close _ _ hws hgone)
  | fails hws hready => exact .leaves (.error _ _ hws hready)
  | goesOn phase hi | asks shares hi => rcases hi with rfl | rfl <;> exact .same _ (by simp)
  | @stores n σ =>
    obtain ⟨host, client, he⟩ := register_eq b n σ
    rw [he]
    exact .same _ (by simp)
  | @loses n σ hσ =>
    cases hside : σ.side <;> simp only [Hook.done, hside]
    · exact .same _ (by simp)
    · exact .loses hσ
  | tracks hσ => exact .tracks hσ
  | captures others hshares => exact .shares _ (some b.streams.length) rfl
  | trackEnds => exact .same _ (by simp)
  | stops streams hi =>
    rcases hi with rfl | ⟨s, j, rfl⟩ <;> exact moves_stopShare rfl rfl
  | quits => exact moves_stopShare rfl rfl

/-! ## Frames -/

/-- The frames of the socket that have been handled. -/
def Hook.framesOf (b : Hook) (k : ℕ) : List Frame := (b.sockets[k]?.map Socket.frames).getD []

theorem framesOf_step (b : Hook) (i : HookInput) (k : ℕ) :
    (b.step i).framesOf k = b.framesOf k ++ b.delivered i k := by
  cases hws : b.sockets[k]? with
  | some ws =>
    obtain ⟨ws', hws', hafter⟩ := socket_step b i hws
    simp [Hook.framesOf, hws, hws', hafter.frames]
  | none =>
    have hnone : b.delivered i k = [] := by
      unfold Hook.delivered
      split
      · exact if_neg fun h => by simp [hws] at h
      · rfl
    cases hws' : (b.step i).sockets[k]? with
    | none => simp [Hook.framesOf, hws, hws', hnone]
    | some ws' =>
      rcases socket_back hws' with ⟨ws, hws₁, -⟩ | ⟨-, -, rfl⟩
      · exact absurd (hws.symm.trans hws₁) (by simp)
      · simp [Hook.framesOf, hws, hws', hnone, Socket.new]

/-- **Every call has been announced** by a frame of its socket. -/
def Announced (b : Hook) : Prop := ∀ σ ∈ b.sessions, σ.announcement ∈ b.framesOf σ.ws

/-- The payload of a `room` frame. -/
def Frame.roomInfo : Frame → Option RoomInfo
  | .room payload => some payload
  | _ => none

/-- The payload of the last `room` frame. -/
def lastRoom (frames : List Frame) : Option RoomInfo := (frames.filterMap Frame.roomInfo).getLast?

theorem lastRoom_concat (frames : List Frame) (payload : RoomInfo) :
    lastRoom (frames ++ [.room payload]) = some payload := by
  simp [lastRoom, Frame.roomInfo]

theorem lastRoom_append {frames new : List Frame} (h : ∀ payload, .room payload ∉ new) :
    lastRoom (frames ++ new) = lastRoom frames := by
  have hnil : new.filterMap Frame.roomInfo = [] := by
    refine List.filterMap_eq_nil_iff.mpr fun event hevent => ?_
    cases event with
    | room payload => exact absurd hevent (h payload)
    | _ => rfl
  rw [lastRoom, List.filterMap_append, hnil, List.append_nil, lastRoom]

theorem announced_step (h : Announced b) (i : HookInput) : Announced (b.step i) := by
  intro σ' hσ'
  obtain ⟨n, hn⟩ := List.getElem?_of_mem hσ'
  rw [framesOf_step, List.mem_append]
  rcases session_back hn with ⟨σ, hσ, hlater⟩ | hnew
  · left
    have hsame : σ'.announcement = σ.announcement := by
      simp only [Session.announcement, hlater.side, hlater.sid, hlater.peerID]
    rw [hsame, hlater.ws]
    exact h σ (List.mem_of_getElem? hσ)
  · exact Or.inr hnew

theorem hook_announced : hook.Always Announced :=
  Machine.always_of_step (fun _ hσ => nomatch hσ) fun b i h => ⟨b.step i, rfl, announced_step h i⟩

/-! ## The current connection -/

/-- **An event of another socket than `conn.current` leaves the state as it is.** -/
def Undisturbed (b : Hook) (i : HookInput) : Prop :=
  ∀ k, i.socket = some k → b.conn ≠ some k → (b.step i).state = b.state

/-- The stream belongs to a session that the socket has announced. -/
def Hook.Announces (b : Hook) (k : ℕ) (s : ClientStream) : Prop :=
  ∃ σ, b.sessions[s.session]? = some σ ∧ σ.side = .client ∧ σ.ws = k ∧ σ.sid = s.id ∧
    σ.peerID = s.peerID ∧ .clientSession s.id s.peerID ∈ b.framesOf k

/-- **A room that comes from the frames of `conn.current`**: the socket is the current one, the
`RoomInfo` is that of its last `room` frame, and every stream belongs to a session it has announced. -/
structure DerivedFrom (b : Hook) (cr : ConnectedRoom) : Prop where
  conn : b.conn = some cr.ws
  info : lastRoom (b.framesOf cr.ws) = some cr.info
  streams : ∀ s ∈ cr.clientStreams, b.Announces cr.ws s

/-- **The state is `false` or comes from the frames of `conn.current`.** -/
def Derived (b : Hook) : Prop := ∀ cr, b.state = some cr → DerivedFrom b cr

/-- **What a socket that is not `conn.current` can do to the state**: enter a room of its own, give the
room other information, end a session that is shown, end the room, or show the peer of a session. -/
inductive Intrudes (b : Hook) : HookInput → Prop
  | enters (k : ℕ) (payload : RoomInfo) (hconn : b.conn ≠ some k) (hk : b.Hears k true) :
      Intrudes b (.message k (.room payload))
  | updates (k : ℕ) (payload : RoomInfo) (cr : ConnectedRoom) (hconn : b.conn ≠ some k)
      (hk : b.Hears k false) (hstate : b.state = some cr) (hinfo : cr.info ≠ payload) :
      Intrudes b (.message k (.room payload))
  | ends (k : ℕ) (cr : ConnectedRoom) (s : ClientStream) (hconn : b.conn ≠ some k)
      (hk : b.Hears k false) (hstate : b.state = some cr) (hs : s ∈ cr.clientStreams) :
      Intrudes b (.message k (.endShare s.id))
  | leaves (i : HookInput) (k : ℕ) (hi : i.socket = some k) (hconn : b.conn ≠ some k) (hends : Ends b i)
      (hstate : b.state ≠ none) : Intrudes b i
  | tracks (n : ℕ) (σ : Session) (hσ : b.Tracks n σ) (hconn : b.conn ≠ some σ.ws)
      (hstate : b.state ≠ none) : Intrudes b (.track n)

/-! ### Inputs that intrude -/

theorem state_enters {payload : RoomInfo} (hk : b.Hears k true) :
    (b.step (.message k (.room payload))).state = some ⟨k, payload, none, []⟩ := by
  obtain ⟨ws, hws, hopen, hfirst⟩ := hk
  simp [Hook.step, Hook.onMessage, hws, hopen, hfirst, Hook.handleFirst]

theorem step_message (hk : b.Hears k false) (event : Frame) :
    b.step (.message k event) = (b.noted k event).handle k event := by
  obtain ⟨ws, hws, hopen, hfirst⟩ := hk
  simp [Hook.step, Hook.onMessage, hws, hopen, hfirst, Hook.noted]

theorem state_updates {payload : RoomInfo} (hk : b.Hears k false) (hstate : b.state = some cr) :
    (b.step (.message k (.room payload))).state = some { cr with info := payload } := by
  rw [step_message hk]
  simp [Hook.handle, Hook.setState, Hook.noted, Hook.setSocket, hstate]

theorem state_ends {id : String} (hk : b.Hears k false) (hstate : b.state = some cr) :
    (b.step (.message k (.endShare id))).state =
      some { cr with clientStreams := cr.clientStreams.filter fun s => s.id ≠ id } := by
  obtain ⟨sessions, he, -⟩ := handle_endShare_eq (b.noted k (.endShare id)) k id
  rw [step_message hk, he]
  simp [Hook.noted, Hook.setSocket, hstate]

theorem state_leaves (h : Ends b i) : (b.step i).state = none := by
  cases h with
  | close k ws hws hover => simp [Hook.step, Hook.onClose, hws, hover]
  | error k ws hws hready => simp [Hook.step, Hook.onError, hws, hready]

theorem state_tracks (h : b.Tracks n σ) (hstate : b.state = some cr) :
    (b.step (.track n)).state =
      some { cr with clientStreams := cr.clientStreams ++ [⟨σ.sid, n, σ.peerID⟩] } := by
  obtain ⟨hσ, hside, hnotified, hclosed⟩ := h
  simp [Hook.step, Hook.track, hσ, hside, hnotified, hclosed, Hook.setState, Hook.setSession, hstate]

/-- **Intruders disturb the state**, or it comes from elsewhere after them. -/
theorem intrudes_step (hd : Derived b) (h : Intrudes b i) :
    ¬ (Undisturbed b i ∧ Derived (b.step i)) := by
  rintro ⟨hu, hd'⟩
  cases h with
  | enters k payload hconn hk =>
    have hstate := (hu k rfl hconn).symm.trans (state_enters hk)
    exact hconn (hd _ hstate).conn
  | updates k payload cr hconn hk hstate hinfo =>
    have hsame := (state_updates hk hstate).symm.trans ((hu k rfl hconn).trans hstate)
    exact hinfo (congrArg ConnectedRoom.info (Option.some.inj hsame)).symm
  | ends k cr s hconn hk hstate hs =>
    have hsame := (state_ends hk hstate).symm.trans ((hu k rfl hconn).trans hstate)
    have hfilter := congrArg ConnectedRoom.clientStreams (Option.some.inj hsame)
    rw [← hfilter, List.mem_filter] at hs
    simp at hs
  | leaves i k hi hconn hends hstate =>
    exact hstate ((hu k hi hconn).symm.trans (state_leaves hends))
  | tracks n σ hσ hconn hstate =>
    obtain ⟨cr, hcr⟩ := Option.ne_none_iff_exists'.mp hstate
    have hs := (hd' _ (state_tracks hσ hcr)).streams ⟨σ.sid, n, σ.peerID⟩ (by simp)
    obtain ⟨σ', hσ', -, hws, -⟩ := hs
    rw [(later_of_step hσ.1 hσ').ws] at hws
    exact hconn (hws ▸ (hd cr hcr).conn)

/-! ### Other inputs -/

/-- **Inputs of other sockets that do not intrude** leave the state as it is. -/
theorem undisturbed_step (h : ¬ Intrudes b i) : Undisturbed b i := by
  intro k hk hconn
  generalize hst : (b.step i).state = st
  cases hst ▸ moves_step b i with
  | keeps => rfl
  | shares _ stream hi => exact absurd (hi.symm.trans hk) (by simp)
  | enters payload hhears =>
    obtain rfl := Option.some.inj hk
    exact absurd (.enters _ payload hconn hhears) h
  | updates payload hhears =>
    obtain rfl := Option.some.inj hk
    cases hstate : b.state with
    | none => rfl
    | some cr =>
      have hinfo : cr.info = payload := by
        by_contra hinfo
        exact h (.updates _ payload cr hconn hhears hstate hinfo)
      rw [Option.map_some, ← hinfo]
  | ends id hhears =>
    obtain rfl := Option.some.inj hk
    cases hstate : b.state with
    | none => rfl
    | some cr =>
      have hall : ∀ s ∈ cr.clientStreams, decide (s.id ≠ id) = true := by
        intro s hs
        rw [decide_eq_true_eq]
        rintro rfl
        exact h (.ends _ cr s hconn hhears hstate hs)
      rw [Option.map_some, List.filter_eq_self.mpr hall]
  | loses => cases hk
  | tracks => cases hk
  | leaves hends =>
    by_contra hstate
    exact h (.leaves i k hk hconn hends (Ne.symm hstate))

theorem announces_step {s : ClientStream} (h : b.Announces k s) (i : HookInput) :
    (b.step i).Announces k s := by
  obtain ⟨σ, hσ, hside, hws, hsid, hpeer, hframe⟩ := h
  obtain ⟨σ', hσ', hlater⟩ := session_step b i hσ
  refine ⟨σ', hσ', hlater.side.trans hside, hlater.ws.trans hws, hlater.sid.trans hsid,
    hlater.peerID.trans hpeer, ?_⟩
  rw [framesOf_step]
  exact List.mem_append_left _ hframe

/-- No room frame is delivered: the room still comes from where it came from. -/
theorem derivedFrom_step (h : DerivedFrom b cr) (hstate : b.state ≠ none)
    (hroom : ∀ payload, .room payload ∉ b.delivered i cr.ws) : DerivedFrom (b.step i) cr where
  conn := (conn_step fun _ => hstate).trans h.conn
  info := by rw [framesOf_step, lastRoom_append hroom, h.info]
  streams s hs := announces_step (h.streams s hs) i

theorem mem_delivered {event : Frame} (h : event ∈ b.delivered i k) :
    i = .message k event ∧ ∃ first, b.Hears k first := by
  unfold Hook.delivered at h
  split at h
  · split_ifs at h with hk
    · obtain ⟨rfl, hopen⟩ := hk
      obtain ⟨ws, hws, hready⟩ := Option.map_eq_some_iff.mp hopen
      exact ⟨by rw [List.mem_singleton.mp h], ws.first, ws, hws, hready, rfl⟩
    · cases h
  · cases h

/-- Inputs that are not a room frame. -/
theorem derivedFrom_apart (hd : Derived b) (hcr : b.state = some cr)
    (hi : ∀ k payload, i ≠ .message k (.room payload)) : DerivedFrom (b.step i) cr :=
  derivedFrom_step (hd cr hcr) (by simp [hcr]) fun payload hp => hi _ payload (mem_delivered hp).1

/-- **Inputs that do not intrude** leave the state coming from the frames of `conn.current`. -/
theorem derived_step (ha : Announced b) (hd : Derived b) (h : ¬ Intrudes b i) :
    Derived (b.step i) := by
  intro cr' hcr'
  generalize hst : (b.step i).state = st at hcr'
  cases hst ▸ moves_step b i with
  | keeps _ hroom =>
    refine derivedFrom_step (hd cr' hcr') (by simp [hcr']) fun payload hp => ?_
    obtain ⟨hi, first, hk⟩ := mem_delivered hp
    exact hroom _ payload first hi hk
  | shares _ stream hi =>
    obtain ⟨cr, hcr, rfl⟩ := Option.map_eq_some_iff.mp hcr'
    have hkeep := derivedFrom_apart hd hcr fun k payload (he : i = _) => by
      rw [he] at hi
      cases hi
    exact ⟨hkeep.conn, hkeep.info, hkeep.streams⟩
  | @enters k payload hk =>
    obtain rfl := Option.some.inj hcr'
    have hconn : b.conn = some k := by
      by_contra hconn
      exact h (.enters k payload hconn hk)
    refine ⟨(conn_step (by simp)).trans hconn, ?_, fun s hs => nomatch hs⟩
    rw [framesOf_step, delivered_of_hears hk, lastRoom_concat]
  | @updates k payload hk =>
    obtain ⟨cr, hcr, rfl⟩ := Option.map_eq_some_iff.mp hcr'
    have hcr₀ := hd cr hcr
    refine ⟨(conn_step (by simp)).trans hcr₀.conn, ?_,
      fun s hs => announces_step (hcr₀.streams s hs) _⟩
    dsimp only
    rw [framesOf_step]
    by_cases hk' : k = cr.ws
    · subst hk'
      rw [delivered_of_hears hk, lastRoom_concat]
    · -- another socket: the payload is the one that is shown
      have hinfo : cr.info = payload := by
        by_contra hinfo
        refine h (.updates k payload cr (fun hconn => hk' ?_) hk hcr hinfo)
        exact Option.some.inj (hconn.symm.trans hcr₀.conn)
      have hnone : b.delivered (.message k (.room payload)) cr.ws = [] := if_neg fun hc => hk' hc.1
      rw [hnone, List.append_nil, hcr₀.info, hinfo]
  | @ends k id hk =>
    obtain ⟨cr, hcr, rfl⟩ := Option.map_eq_some_iff.mp hcr'
    have hkeep := derivedFrom_apart (i := .message k (.endShare id)) hd hcr (by simp)
    exact ⟨hkeep.conn, hkeep.info, fun s hs => hkeep.streams s (List.mem_of_mem_filter hs)⟩
  | @loses n σ hσ =>
    obtain ⟨cr, hcr, rfl⟩ := Option.map_eq_some_iff.mp hcr'
    have hkeep := derivedFrom_apart (i := .connectionLost n) hd hcr (by simp)
    exact ⟨hkeep.conn, hkeep.info, fun s hs => hkeep.streams s (List.mem_of_mem_filter hs)⟩
  | @tracks n σ hσ =>
    obtain ⟨cr, hcr, rfl⟩ := Option.map_eq_some_iff.mp hcr'
    have hkeep := derivedFrom_apart (i := .track n) hd hcr (by simp)
    refine ⟨hkeep.conn, hkeep.info, fun s hs => ?_⟩
    rcases List.mem_append.mp hs with hs | hs
    · exact hkeep.streams s hs
    · obtain rfl := List.mem_singleton.mp hs
      have hconn : b.conn = some σ.ws := by
        by_contra hconn
        exact h (.tracks n σ hσ hconn (by simp [hcr]))
      obtain ⟨hσ, hside, -, -⟩ := hσ
      have hws : σ.ws = cr.ws := Option.some.inj (hconn.symm.trans (hd cr hcr).conn)
      have hframe := ha σ (List.mem_of_getElem? hσ)
      rw [Session.announcement, hside, hws] at hframe
      exact announces_step ⟨σ, hσ, hside, hws, rfl, rfl, hframe⟩ _
  | leaves hends => cases hcr'

/-- **The state follows `conn.current`** in exactly the runs in which no other socket intrudes: in these,
an event of another socket leaves the state as it is, and the state is always `false` or comes from the
frames of `conn.current`. -/
theorem state_follows_conn (is : List HookInput) :
    hook.Meets Undisturbed is ∧ hook.Throughout Derived is ↔
      hook.Meets (fun b i => ¬ Intrudes b i) is := by
  refine Machine.meets_and_throughout_iff hook_announced (fun cr hcr => nomatch hcr)
    (fun b i b' ha hd hs => ?_) is
  cases hs
  constructor
  · intro h hi
    exact intrudes_step hd hi h
  · intro h
    exact ⟨undisturbed_step h, derived_step ha hd h⟩

/-- The page joins a room when it is loaded, and the user enters another one; then the first connection is
closed, since its room does not exist. -/
theorem older_socket_ends_room : ¬ ∀ is, hook.Meets Undisturbed is ∧ hook.Throughout Derived is := by
  intro h
  have hrun : ((hook.run [.room, .room, .opened 0, .opened 1, .message 1 (.room ⟨"room", "", []⟩)]).map
      fun b => (b.conn, b.state, (b.step (.close 0)).state)) =
      some (some 1, some ⟨1, ⟨"room", "", []⟩, none, []⟩, none) := by decide +kernel
  obtain ⟨b, hb, hfields⟩ := Option.map_eq_some_iff.mp hrun
  simp only [Prod.mk.injEq] at hfields
  obtain ⟨hconn, hstate, hstate'⟩ := hfields
  have hsame := (h _).1 _ (.close 0) [] b rfl hb 0 rfl (by simp [hconn])
  rw [hstate, hstate'] at hsame
  cases hsame

end Screego.UseRoom
