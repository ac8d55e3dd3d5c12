import Screego.UseRoom

/-!
# What one input does to the hook

* `Session.Later`, `Later`: a call keeps its name, and a closed peer stays closed;
* `Branch`, **`branch_step`**: the branches of a step, with what each one changes;
* `Hook.held`: the refs and the captured streams; `Does`, **`does_step`**: what becomes of them;
* `Calls`, **`calls_step`**: what becomes of the calls;
* `Socket.After`, **`socket_step`**: a socket keeps its frames and gets the one that is delivered.
-/

set_option autoImplicit false

namespace Screego.UseRoom

open Lib

variable {b b' : Hook} {i : HookInput} {k n s : ℕ} {key : String} {side : Side} {σ σ' : Session}
  {S : Stream}

/-! ## Calls later on -/

/-- **A call later on**: it keeps its name, and a closed peer stays closed. -/
structure Session.Later (σ σ' : Session) : Prop where
  side : σ'.side = σ.side
  sid : σ'.sid = σ.sid
  peerID : σ'.peerID = σ.peerID
  ws : σ'.ws = σ.ws
  closed : σ.closed = true → σ'.closed = true

theorem Session.Later.refl (σ : Session) : σ.Later σ := ⟨rfl, rfl, rfl, rfl, id⟩

theorem Session.Later.trans {σ₁ σ₂ σ₃ : Session} (h : σ₁.Later σ₂) (h' : σ₂.Later σ₃) : σ₁.Later σ₃ :=
  ⟨h'.side.trans h.side, h'.sid.trans h.sid, h'.peerID.trans h.peerID, h'.ws.trans h.ws,
    h'.closed ∘ h.closed⟩

theorem Session.later_close (σ : Session) : σ.Later σ.close := ⟨rfl, rfl, rfl, rfl, fun _ => rfl⟩

theorem Session.later_phase (phase : Session → Phase) (σ : Session) :
    σ.Later { σ with phase := phase σ } := ⟨rfl, rfl, rfl, rfl, id⟩

/-- The calls of `l`, later on. -/
structure Later (l l' : List Session) : Prop where
  length : l'.length = l.length
  call : ∀ (n : ℕ) (σ : Session), l[n]? = some σ →
    ∃ σ' : Session, l'[n]? = some σ' ∧ Session.Later σ σ'

namespace Later

variable {l l' l₁ : List Session}

theorem refl (l : List Session) : Later l l := ⟨rfl, fun _ σ hσ => ⟨σ, hσ, .refl σ⟩⟩

theorem trans (h : Later l l') (h' : Later l' l₁) : Later l l₁ := by
  refine ⟨h'.length.trans h.length, fun n σ hσ => ?_⟩
  obtain ⟨σ', hσ', hlater⟩ := h.call n σ hσ
  obtain ⟨σ₁, hσ₁, hlater'⟩ := h'.call n σ' hσ'
  exact ⟨σ₁, hσ₁, hlater.trans hlater'⟩

theorem modify (l : List Session) (m : ℕ) {f : Session → Session}
    (hf : ∀ σ : Session, Session.Later σ (f σ)) : Later l (l.modify m f) := by
  refine ⟨List.length_modify .., fun n σ hσ => ?_⟩
  rw [List.getElem?_modify, hσ]
  by_cases hm : m = n
  · exact ⟨f σ, by simp [hm], hf σ⟩
  · exact ⟨σ, by simp [hm], .refl σ⟩

theorem closeAll (peers : List ℕ) (l : List Session) :
    Later l (peers.foldl (fun l n => l.modify n Session.close) l) := by
  induction peers generalizing l with
  | nil => exact .refl l
  | cons n peers ih => exact (modify l n Session.later_close).trans (ih _)

/-- Back from a call to the earlier one. -/
theorem back (h : Later l l') (hσ' : l'[n]? = some σ') : ∃ σ, l[n]? = some σ ∧ σ.Later σ' := by
  have hn : n < l.length := h.length ▸ (List.getElem?_eq_some_iff.mp hσ').1
  obtain ⟨σ₁, hσ₁, hlater⟩ := h.call n _ (List.getElem?_eq_getElem hn)
  obtain rfl := Option.some.inj (hσ'.symm.trans hσ₁)
  exact ⟨_, List.getElem?_eq_getElem hn, hlater⟩

end Later

/-! ## The branches of a step -/

/-- The frame that the input hands to the handlers of the socket, if any. -/
def Hook.delivered (b : Hook) (i : HookInput) (k : ℕ) : List Frame :=
  match i with
  | .message k' event =>
    if k' = k ∧ b.sockets[k]?.map Socket.readyState = some .opened then [event] else []
  | _ => []

/-- The frame that announces the call. -/
def Session.announcement (σ : Session) : Frame :=
  match σ.side with
  | .host => .hostSession σ.sid σ.peerID
  | .client => .clientSession σ.sid σ.peerID

/-- **The handlers of the socket get frames**; `first` tells whether it is the first one. -/
def Hook.Hears (b : Hook) (k : ℕ) (first : Bool) : Prop :=
  ∃ ws, b.sockets[k]? = some ws ∧ ws.readyState = .opened ∧ ws.first = first

/-- The first track of a viewer's peer arrives. -/
def Hook.Tracks (b : Hook) (n : ℕ) (σ : Session) : Prop :=
  b.sessions[n]? = some σ ∧ σ.side = .client ∧ σ.notified = false ∧ σ.closed = false

/-- A frame is noted before it is handled. -/
def Hook.noted (b : Hook) (k : ℕ) (event : Frame) : Hook :=
  b.setSocket k fun ws => { ws with first := false, frames := ws.frames ++ [event] }

/-- **The branches of a step**, and the hook after each of them. -/
inductive Branch (b : Hook) : HookInput → Hook → Prop
  | idle (i : HookInput) (hdelivered : ∀ k, b.delivered i k = [])
      (hgone : ∀ k ws, i = .close k → b.sockets[k]? = some ws → ws.gone = true) : Branch b i b
  | opens (hstate : b.state = none) :
      Branch b .room { b with sockets := b.sockets ++ [Socket.new], conn := some b.sockets.length }
  | opened (k : ℕ) : Branch b (.opened k) (b.onOpen k)
  | enters {k : ℕ} (payload : RoomInfo) (hk : b.Hears k true) : Branch b (.message k (.room payload))
      { b.noted k (.room payload) with state := some ⟨k, payload, none, []⟩ }
  | refuses {k : ℕ} {event : Frame} (hk : b.Hears k true) (hevent : ∀ payload, event ≠ .room payload) :
      Branch b (.message k event) ((b.noted k event).setSocket k Socket.close)
  | updates {k : ℕ} (payload : RoomInfo) (hk : b.Hears k false) : Branch b (.message k (.room payload))
      { b.noted k (.room payload) with
        state := b.state.map fun current => { current with info := payload } }
  | begins {k : ℕ} (σ : Session) (hk : b.Hears k false) (hws : σ.ws = k) :
      Branch b (.message k σ.announcement)
        { b.noted k σ.announcement with sessions := b.sessions ++ [σ] }
  | ends {k : ℕ} (id : String) (sessions : List Session) (hk : b.Hears k false)
      (hlater : Later b.sessions sessions)
      (hclosed : ∀ n σ, b.host.lookup id = some n ∨ b.client.lookup id = some n →
        sessions[n]? = some σ → σ.closed = true) :
      Branch b (.message k (.endShare id))
        { b.noted k (.endShare id) with
          sessions := sessions
          state := b.state.map fun current =>
            { current with clientStreams := current.clientStreams.filter fun s => s.id ≠ id }
          ends := b.ends ++ [(id, b.sessions.length)] }
  | passes {k : ℕ} {event : Frame} (hk : b.Hears k false) (hevent : ∀ payload, event ≠ .room payload) :
      Branch b (.message k event) (b.noted k event)
  | closes {k : ℕ} {ws : Socket} (hws : b.sockets[k]? = some ws) (hgone : ws.gone = false) :
      Branch b (.close k)
        { b.setSocket k fun ws => { ws with readyState := .closed, first := false, gone := true } with
          state := none }
  | fails {k : ℕ} {ws : Socket} (hws : b.sockets[k]? = some ws) (hready : ws.readyState ≠ .closed) :
      Branch b (.error k)
        { b.setSocket k fun ws => { ws with readyState := .closed, first := false } with state := none }
  | goesOn {i : HookInput} {n : ℕ} (phase : Session → Phase) (hi : i = .resume n ∨ i = .reject n) :
      Branch b i (b.setSession n fun σ => { σ with phase := phase σ })
  | stores {n : ℕ} {σ : Session} (hσ : b.sessions[n]? = some σ) (hphase : σ.phase = .fulfilled) :
      Branch b (.resume n) ((b.register n σ).setSession n fun σ => { σ with phase := .settled })
  | loses {n : ℕ} {σ : Session} (hσ : b.sessions[n]? = some σ) :
      Branch b (.connectionLost n) ((b.setSession n Session.close).done σ)
  | tracks {n : ℕ} {σ : Session} (hσ : b.Tracks n σ) : Branch b (.track n)
      { b.setSession n fun σ => { σ with notified := true } with
        state := b.state.map fun current =>
          { current with clientStreams := current.clientStreams ++ [⟨σ.sid, n, σ.peerID⟩] } }
  | asks {i : HookInput} (shares : ℕ) (hi : i = .share ∨ i = .captureFailed) :
      Branch b i { b with shares := shares }
  | captures (others : ℕ) (hshares : b.shares ≠ 0) : Branch b (.captured others)
      { b with
        shares := b.shares - 1
        streams := b.streams ++ [⟨List.replicate (others + 1) false, b.conn⟩]
        stream := some b.streams.length
        state := b.state.map fun current => { current with hostStream := some b.streams.length } }
  | trackEnds (s j : ℕ) : Branch b (.trackEnded s j)
      { b with streams := b.streams.modify s fun S => { S with tracks := S.tracks.set j true } }
  | stops {i : HookInput} (streams : List Stream)
      (hi : i = .stopShare ∨ ∃ s j, i = .trackEnded s j) :
      Branch b i { b with streams := streams }.stopShare
  | quits {cr : ConnectedRoom} (hstate : b.state = some cr) :
      Branch b .leaveRoom (b.stopShare.setSocket cr.ws Socket.close)

/-- Inputs that are neither a frame nor a close event. -/
theorem Branch.apart (hi : ∀ k event, i ≠ .message k event) (hi' : ∀ k, i ≠ .close k) :
    Branch b i b := by
  refine .idle i (fun k => ?_) fun k ws he => absurd he (hi' k)
  unfold Hook.delivered
  split
  · exact absurd rfl (hi _ _)
  · rfl

theorem delivered_eq_nil {event : Frame} (h : b.sockets[k]?.map Socket.readyState ≠ some .opened)
    (k' : ℕ) : b.delivered (.message k event) k' = [] :=
  if_neg fun hk => h (by rw [hk.1]; exact hk.2)

theorem delivered_of_hears {first : Bool} (hk : b.Hears k first) (event : Frame) :
    b.delivered (.message k event) k = [event] := by
  obtain ⟨ws, hws, hopen, -⟩ := hk
  exact if_pos ⟨rfl, by simp [hws, hopen]⟩

theorem closeRef_eq (b : Hook) (refs : GoMap String ℕ) (key : String) : ∃ sessions,
    b.closeRef refs key = { b with sessions := sessions } ∧ Later b.sessions sessions ∧
      ∀ n σ, refs.lookup key = some n → sessions[n]? = some σ → σ.closed = true := by
  unfold Hook.closeRef
  split
  · rename_i m hm
    refine ⟨_, rfl, .modify _ m Session.later_close, fun n σ hn hσ => ?_⟩
    obtain rfl := Option.some.inj (hm.symm.trans hn)
    rw [List.getElem?_modify_eq, Option.map_eq_map, Option.map_eq_some_iff] at hσ
    obtain ⟨σ₀, -, rfl⟩ := hσ
    rfl
  · rename_i hnone
    exact ⟨_, rfl, .refl _, fun n σ hn => absurd (hnone.symm.trans hn) (by simp)⟩

/-- **`endshare` closes the peers of its session.** -/
theorem handle_endShare_eq (b : Hook) (k : ℕ) (id : String) : ∃ sessions,
    b.handle k (.endShare id) = { b with
      sessions := sessions
      state := b.state.map fun current =>
        { current with clientStreams := current.clientStreams.filter fun s => s.id ≠ id }
      ends := b.ends ++ [(id, b.sessions.length)] } ∧
    Later b.sessions sessions ∧ ∀ n σ, b.host.lookup id = some n ∨ b.client.lookup id = some n →
      sessions[n]? = some σ → σ.closed = true := by
  obtain ⟨sessions, he, hlater, hclosed⟩ := closeRef_eq b b.client id
  obtain ⟨sessions', he', hlater', hclosed'⟩ := closeRef_eq { b with sessions := sessions } b.host id
  refine ⟨sessions', ?_, hlater.trans hlater', fun n σ hn hσ => ?_⟩
  · simp only [Hook.handle, he]
    rw [he']
    rfl
  · rcases hn with hn | hn
    · exact hclosed' n σ hn hσ
    · obtain ⟨σ₀, hσ₀, hlater₀⟩ := hlater'.back hσ
      exact hlater₀.closed (hclosed n σ₀ hn hσ₀)

theorem register_eq (b : Hook) (n : ℕ) (σ : Session) : ∃ host client,
    b.register n σ = { b with host := host, client := client } := by
  unfold Hook.register
  split <;> exact ⟨_, _, rfl⟩

theorem done_eq (b : Hook) (σ : Session) : ∃ host client state,
    b.done σ = { b with host := host, client := client, state := state } := by
  unfold Hook.done
  split <;> exact ⟨_, _, _, rfl⟩

/-- **`stopShare`** closes the peers in `host.current` and the stream, and tells the state. -/
theorem stopShare_eq (b : Hook) : ∃ sessions streams state,
    b.stopShare = { b with
      sessions := sessions
      host := ∅
      streams := streams
      stream := none
      stops := b.stops ++ [b.sessions.length]
      state := state } ∧
    Later b.sessions sessions ∧ (state = b.state ∨
      state = b.state.map fun current => { current with hostStream := none }) := by
  unfold Hook.stopShare
  simp only
  split_ifs
  · exact ⟨_, _, _, rfl, .closeAll _ _, Or.inl rfl⟩
  · exact ⟨_, _, _, rfl, .closeAll _ _, Or.inr rfl⟩

/-- A frame that is not the first one. -/
theorem branch_handle {event : Frame} (hk : b.Hears k false) :
    Branch b (.message k event) ((b.noted k event).handle k event) := by
  cases event with
  | room payload => exact .updates payload hk
  | hostSession id peer =>
    unfold Hook.handle
    split_ifs
    · exact .passes hk (by simp)
    · exact .begins ⟨.host, id, peer, k, .applySenderQuality, false, false⟩ hk rfl
  | clientSession id peer =>
    exact .begins ⟨.client, id, peer, k, .fulfilled, false, false⟩ hk rfl
  | endShare id =>
    obtain ⟨sessions, he, hlater, hclosed⟩ := handle_endShare_eq (b.noted k (.endShare id)) k id
    rw [he]
    exact .ends id sessions hk hlater hclosed
  | _ => exact .passes hk (by simp)

/-- **Every step is one of these branches.** -/
theorem branch_step (b : Hook) (i : HookInput) : Branch b i (b.step i) := by
  cases i with
  | opened k => exact .opened k
  | share => exact .asks (b.shares + 1) (Or.inl rfl)
  | captureFailed => exact .asks (b.shares - 1) (Or.inr rfl)
  | stopShare => exact .stops b.streams (Or.inl rfl)
  | room =>
    simp only [Hook.step, Hook.room]
    split_ifs with hstate
    · exact .apart (by simp) (by simp)
    · exact .opens (by simpa using hstate)
  | message k event =>
    simp only [Hook.step, Hook.onMessage]
    split
    · rename_i hnone
      exact .idle _ (delivered_eq_nil (by simp [hnone])) fun k ws he => by cases he
    · rename_i ws hws
      split_ifs with hopen hfirst
      · exact .idle _ (delivered_eq_nil (by simpa [hws] using hopen)) fun k ws he => by cases he
      · have hk : b.Hears k true := ⟨ws, hws, by simpa using hopen, hfirst⟩
        cases event with
        | room payload => exact .enters payload hk
        | _ => exact .refuses hk (by simp)
      · exact branch_handle ⟨ws, hws, by simpa using hopen, by simpa using hfirst⟩
  | error k =>
    simp only [Hook.step, Hook.onError]
    split
    · exact .apart (by simp) (by simp)
    · rename_i ws hws
      split_ifs with hready
      · exact .apart (by simp) (by simp)
      · exact .fails hws hready
  | close k =>
    simp only [Hook.step, Hook.onClose]
    split
    · rename_i hnone
      refine .idle _ (fun _ => rfl) fun k' ws he hws => ?_
      cases he
      exact absurd (hnone.symm.trans hws) (by simp)
    · rename_i ws hws
      split_ifs with hgone
      · refine .idle _ (fun _ => rfl) fun k' ws' he hws' => ?_
        cases he
        exact Option.some.inj (hws.symm.trans hws') ▸ hgone
      · exact .closes hws (by simpa using hgone)
  | resume n =>
    simp only [Hook.step, Hook.resume]
    split
    · exact .apart (by simp) (by simp)
    · rename_i σ hσ
      split_ifs with hphase
      · exact .stores hσ hphase
      · exact .goesOn Session.next (Or.inl rfl)
  | reject n =>
    simp only [Hook.step, Hook.reject]
    split
    · exact .apart (by simp) (by simp)
    · split_ifs
      · exact .apart (by simp) (by simp)
      · exact .goesOn (fun _ => .settled) (Or.inr rfl)
  | connectionLost n =>
    simp only [Hook.step, Hook.connectionLost]
    split
    · exact .apart (by simp) (by simp)
    · rename_i σ hσ
      split_ifs
      · exact .apart (by simp) (by simp)
      · exact .loses hσ
  | track n =>
    simp only [Hook.step, Hook.track]
    split
    · exact .apart (by simp) (by simp)
    · rename_i σ hσ
      split_ifs with hno
      · exact .apart (by simp) (by simp)
      · simp only [Bool.or_eq_true, decide_eq_true_eq, not_or, Bool.not_eq_true] at hno
        obtain ⟨⟨hclosed, hnotified⟩, hside⟩ := hno
        refine .tracks ⟨hσ, ?_, hnotified, hclosed⟩
        cases hs : σ.side with
        | host => exact absurd hs hside
        | client => rfl
  | captured others =>
    simp only [Hook.step, Hook.captured]
    split_ifs with hshares
    · exact .apart (by simp) (by simp)
    · exact .captures others hshares
  | trackEnded s j =>
    simp only [Hook.step, Hook.trackEnded]
    split
    · exact .apart (by simp) (by simp)
    · split_ifs
      · exact .stops _ (Or.inr ⟨s, j, rfl⟩)
      · exact .trackEnds s j
      · exact .apart (by simp) (by simp)
  | leaveRoom =>
    simp only [Hook.step, Hook.leaveRoom]
    split
    · exact .apart (by simp) (by simp)
    · rename_i cr hcr
      exact .quits hcr

/-! ## The refs -/

/-- The refs, the captured streams and the history of `stopShare` and `endshare`. -/
structure Held where
  conn : Option ℕ
  host : GoMap String ℕ
  client : GoMap String ℕ
  stream : Option ℕ
  streams : List Stream
  stops : List ℕ
  ends : List (String × ℕ)

def Hook.held (b : Hook) : Held :=
  ⟨b.conn, b.host, b.client, b.stream, b.streams, b.stops, b.ends⟩

/-- `host.current` or `client.current`. -/
def Held.refs (h : Held) : Side → GoMap String ℕ
  | .host => h.host
  | .client => h.client

/-- **What one input does to the refs.** -/
inductive Does (b : Hook) : HookInput → Held → Prop
  | keeps (i : HookInput) : Does b i b.held
  /-- `room` opens a socket. -/
  | opens (hstate : b.state = none) : Does b .room { b.held with conn := some b.sockets.length }
  /-- The peer of a call is stored. -/
  | registers {n : ℕ} {σ : Session} {host client : GoMap String ℕ} (hσ : b.sessions[n]? = some σ)
      (hphase : σ.phase = .fulfilled)
      (hrefs : ∀ side key, (({ b.held with host := host, client := client } : Held).refs side).lookup key =
        if side = σ.side ∧ key = σ.sid then some n else (b.held.refs side).lookup key) :
      Does b (.resume n) { b.held with host := host, client := client }
  /-- A peer has lost its connection and is dropped. -/
  | drops {n : ℕ} {host client : GoMap String ℕ}
      (hrefs : ∀ side key m,
        (({ b.held with host := host, client := client } : Held).refs side).lookup key = some m →
          (b.held.refs side).lookup key = some m) :
      Does b (.connectionLost n) { b.held with host := host, client := client }
  | captures (others : ℕ) (hshares : b.shares ≠ 0) : Does b (.captured others)
      { b.held with
        stream := some b.streams.length
        streams := b.streams ++ [⟨List.replicate (others + 1) false, b.conn⟩] }
  | trackEnds (s j : ℕ) : Does b (.trackEnded s j)
      { b.held with
        streams := b.streams.modify s fun S => { S with tracks := S.tracks.set j true } }
  /-- `stopShare` is called. -/
  | stops (i : HookInput) (streams : List Stream) : Does b i
      ⟨b.conn, ∅, b.client, none, streams, b.stops ++ [b.sessions.length], b.ends⟩
  /-- An `endshare` is handled: it closes the peers of its session. -/
  | ends {k : ℕ} (id : String)
      (hclosed : ∀ n σ, b.host.lookup id = some n ∨ b.client.lookup id = some n →
        (b.step (.message k (.endShare id))).sessions[n]? = some σ → σ.closed = true) :
      Does b (.message k (.endShare id)) { b.held with ends := b.ends ++ [(id, b.sessions.length)] }

theorem lookup_register (b : Hook) (n : ℕ) (σ : Session) (side : Side) (key : String) :
    ((b.register n σ).held.refs side).lookup key =
      if side = σ.side ∧ key = σ.sid then some n else (b.held.refs side).lookup key := by
  cases hσ : σ.side <;> cases side <;>
    simp [Hook.register, hσ, Hook.held, Held.refs, GoMap.lookup_insert_ite]

theorem lookup_done (b : Hook) (σ : Session) (side : Side) (key : String) (n : ℕ)
    (h : ((b.done σ).held.refs side).lookup key = some n) :
    (b.held.refs side).lookup key = some n := by
  cases hσ : σ.side <;> cases side <;>
    simp only [Hook.done, hσ, Hook.held, Held.refs, Hook.dropStreams, Hook.setState,
      GoMap.lookup_erase_ite] at h ⊢ <;>
    first | exact h | exact (ite_eq_iff.mp h).elim (fun h => nomatch h.2) fun h => h.2

/-- **Every input does one of these.** -/
theorem does_step (b : Hook) (i : HookInput) : Does b i (b.step i).held := by
  generalize hb' : b.step i = b'
  cases hb' ▸ branch_step b i with
  | idle | opened | enters | refuses | updates | begins | passes | closes | fails | goesOn | tracks
  | asks => exact .keeps _
  | opens hstate => exact .opens hstate
  | ends id sessions hk hlater hclosed => exact .ends id (hb' ▸ hclosed)
  | @stores n σ hσ hphase =>
    obtain ⟨host, client, he⟩ := register_eq b n σ
    have hrefs := lookup_register b n σ
    rw [he] at hrefs ⊢
    exact .registers hσ hphase hrefs
  | @loses n σ hσ =>
    obtain ⟨host, client, state, he⟩ := done_eq (b.setSession n Session.close) σ
    have hrefs := lookup_done (b.setSession n Session.close) σ
    rw [he] at hrefs ⊢
    exact .drops hrefs
  | captures others hshares => exact .captures others hshares
  | trackEnds s j => exact .trackEnds s j
  | stops streams =>
    obtain ⟨sessions, streams', state, he, -⟩ := stopShare_eq { b with streams := streams }
    rw [he]
    exact .stops _ _
  | quits =>
    obtain ⟨sessions, streams, state, he, -⟩ := stopShare_eq b
    rw [he]
    exact .stops _ _

/-! ### The peers and the stream -/

/-- **The input stores the peer** of the `n`-th call, `σ`. -/
def Hook.Stores (b : Hook) (i : HookInput) (n : ℕ) (σ : Session) : Prop :=
  i = .resume n ∧ b.sessions[n]? = some σ ∧ σ.phase = .fulfilled

/-- In a room, no input changes `conn.current`. -/
theorem conn_step (hi : i = .room → b.state ≠ none) : (b.step i).conn = b.conn := by
  generalize hh : (b.step i).held = held
  have hconn : (b.step i).conn = held.conn := congrArg Held.conn hh
  rw [hconn]
  cases hh ▸ does_step b i with
  | keeps | registers | drops | captures | trackEnds | stops | ends => rfl
  | opens hstate => exact absurd hstate (hi rfl)

/-- **What `host.current` and `client.current` hold after an input** they held before, or it is stored. -/
theorem refs_step (h : ((b.step i).held.refs side).lookup key = some n) :
    (b.held.refs side).lookup key = some n ∨
      ∃ σ, b.Stores i n σ ∧ σ.side = side ∧ σ.sid = key := by
  generalize hh : (b.step i).held = held at h
  cases hh ▸ does_step b i with
  | keeps | opens | captures | trackEnds | ends => exact Or.inl h
  | @registers m σ host client hσ hphase hrefs =>
    rw [hrefs] at h
    split_ifs at h with hkey
    · exact Or.inr ⟨σ, Option.some.inj h ▸ ⟨rfl, hσ, hphase⟩, hkey.1.symm, hkey.2.symm⟩
    · exact Or.inl h
  | drops hrefs => exact Or.inl (hrefs side key n h)
  | stops =>
    cases side with
    | host => exact absurd h (by simp [Held.refs])
    | client => exact Or.inl h

/-- **The stream in `stream.current`** was there before, perhaps with more tracks live, or it is captured
just now. -/
theorem stream_step (hs : (b.step i).stream = some s) (hS : (b.step i).streams[s]? = some S) :
    (∃ S₀, b.stream = some s ∧ b.streams[s]? = some S₀ ∧ S.room = S₀.room ∧
      ((∀ ended ∈ S₀.tracks, ended = true) → ∀ ended ∈ S.tracks, ended = true)) ∨
    ∃ others, i = .captured others ∧ b.shares ≠ 0 ∧
      S = ⟨List.replicate (others + 1) false, b.conn⟩ := by
  generalize hh : (b.step i).held = held
  have hs' : held.stream = some s := hh ▸ hs
  have hS' : held.streams[s]? = some S := hh ▸ hS
  cases hh ▸ does_step b i with
  | keeps | opens | registers | drops | ends => exact Or.inl ⟨S, hs', hS', rfl, id⟩
  | captures others hshares =>
    obtain rfl := Option.some.inj hs'
    refine Or.inr ⟨others, rfl, hshares, (Option.some.inj (hS'.symm.trans ?_))⟩
    exact List.getElem?_concat_length ..
  | trackEnds m j =>
    simp only [List.getElem?_modify, Option.map_eq_map, Option.map_eq_some_iff] at hS'
    obtain ⟨S₀, hS₀, rfl⟩ := hS'
    refine Or.inl ⟨S₀, hs', hS₀, by split_ifs <;> rfl, fun hall ended he => ?_⟩
    split_ifs at he
    · exact (List.mem_or_eq_of_mem_set he).elim (hall ended) id
    · exact hall ended he
  | stops => exact absurd hs' (by simp)

/-! ## The calls -/

/-- **What one input does to the calls**: they go on, or one begins that a frame announces. -/
inductive Calls (b : Hook) (i : HookInput) : List Session → Prop
  | goOn {l : List Session} (h : Later b.sessions l) : Calls b i l
  | begins (σ : Session) (hσ : σ.announcement ∈ b.delivered i σ.ws) : Calls b i (b.sessions ++ [σ])

/-- **Every input does one of these to the calls.** -/
theorem calls_step (b : Hook) (i : HookInput) : Calls b i (b.step i).sessions := by
  generalize hb' : b.step i = b'
  cases hb' ▸ branch_step b i with
  | idle | opens | opened | enters | refuses | updates | passes | closes | fails | asks | captures
  | trackEnds => exact .goOn (.refl _)
  | begins σ hk hws =>
    subst hws
    exact .begins σ (by simp [delivered_of_hears hk])
  | ends id sessions hk hlater => exact .goOn hlater
  | goesOn phase => exact .goOn (.modify _ _ (Session.later_phase phase))
  | @stores n σ =>
    obtain ⟨host, client, he⟩ := register_eq b n σ
    rw [he]
    exact .goOn (.modify _ _ (Session.later_phase fun _ => .settled))
  | @loses n σ =>
    obtain ⟨host, client, state, he⟩ := done_eq (b.setSession n Session.close) σ
    rw [he]
    exact .goOn (.modify _ _ Session.later_close)
  | tracks => exact .goOn (.modify _ _ fun _ => ⟨rfl, rfl, rfl, rfl, id⟩)
  | stops streams =>
    obtain ⟨sessions, streams', state, he, hlater, -⟩ := stopShare_eq { b with streams := streams }
    rw [he]
    exact .goOn hlater
  | quits =>
    obtain ⟨sessions, streams, state, he, hlater, -⟩ := stopShare_eq b
    rw [he]
    exact .goOn hlater

/-- **A call goes on.** -/
theorem session_step (b : Hook) (i : HookInput) (hσ : b.sessions[n]? = some σ) :
    ∃ σ', (b.step i).sessions[n]? = some σ' ∧ Session.Later σ σ' := by
  generalize hl : (b.step i).sessions = l
  cases hl ▸ calls_step b i with
  | goOn h => exact h.call n σ hσ
  | begins =>
    exact ⟨σ, by rw [List.getElem?_append_left (List.getElem?_eq_some_iff.mp hσ).1, hσ], .refl σ⟩

/-- One call before and after an input. -/
theorem later_of_step (hσ : b.sessions[n]? = some σ) (hσ' : (b.step i).sessions[n]? = some σ') :
    σ.Later σ' := by
  obtain ⟨σ₁, hσ₁, hlater⟩ := session_step b i hσ
  exact Option.some.inj (hσ₁.symm.trans hσ') ▸ hlater

theorem length_sessions_le (b : Hook) (i : HookInput) :
    b.sessions.length ≤ (b.step i).sessions.length := by
  generalize hl : (b.step i).sessions = l
  cases hl ▸ calls_step b i with
  | goOn h => exact h.length.ge
  | begins σ hσ => simp

/-- A call there was before the input. -/
theorem session_back_of_lt (hn : n < b.sessions.length) (h : (b.step i).sessions[n]? = some σ') :
    ∃ σ, b.sessions[n]? = some σ ∧ σ.Later σ' :=
  ⟨_, List.getElem?_eq_getElem hn, later_of_step (List.getElem?_eq_getElem hn) h⟩

/-- **A call there is after an input** was there before, or it is announced just now. -/
theorem session_back (h : (b.step i).sessions[n]? = some σ') :
    (∃ σ, b.sessions[n]? = some σ ∧ σ.Later σ') ∨ σ'.announcement ∈ b.delivered i σ'.ws := by
  by_cases hn : n < b.sessions.length
  · exact Or.inl (session_back_of_lt hn h)
  · refine Or.inr ?_
    generalize hl : (b.step i).sessions = l at h
    have hn' := (List.getElem?_eq_some_iff.mp h).1
    cases hl ▸ calls_step b i with
    | goOn hlater => exact absurd (hlater.length ▸ hn') hn
    | begins σ hσ =>
      rw [List.length_append, List.length_singleton] at hn'
      obtain rfl : n = b.sessions.length := by omega
      rw [List.getElem?_concat_length] at h
      exact Option.some.inj h ▸ hσ

/-! ## The sockets -/

/-- **A socket after the input.** -/
structure Socket.After (b : Hook) (i : HookInput) (k : ℕ) (ws ws' : Socket) : Prop where
  frames : ws'.frames = ws.frames ++ b.delivered i k
  gone : ws'.gone = true ↔ ws.gone = true ∨ i = .close k

/-- Inputs that are no event of the socket. -/
theorem Socket.After.same {ws ws' : Socket} (hframes : ws'.frames = ws.frames)
    (hgone : ws'.gone = ws.gone) (hi : b.delivered i k = []) (hk : i ≠ .close k) :
    Socket.After b i k ws ws' :=
  ⟨by rw [hframes, hi, List.append_nil], by simp [hgone, hk]⟩

/-- **What one input does to the sockets**: they go on, or `room` opens one. -/
inductive Listens (b : Hook) (i : HookInput) : List Socket → Prop
  | goOn {l : List Socket} (hlength : l.length = b.sockets.length)
      (h : ∀ k ws, b.sockets[k]? = some ws → ∃ ws', l[k]? = some ws' ∧ Socket.After b i k ws ws') :
      Listens b i l
  | opens (hi : i = .room) : Listens b i (b.sockets ++ [Socket.new])

namespace Listens

variable {l : List Socket} {m : ℕ} {f : Socket → Socket}

/-- One socket changes. -/
theorem modify (hsame : ∀ ws, b.sockets[m]? = some ws → Socket.After b i m ws (f ws))
    (hother : ∀ k ws, m ≠ k → Socket.After b i k ws ws) : Listens b i (b.sockets.modify m f) := by
  refine .goOn (List.length_modify ..) fun k ws hws => ?_
  by_cases hm : m = k
  · subst hm
    exact ⟨f ws, by simp [hws], hsame ws hws⟩
  · exact ⟨ws, by simp [hws, hm], hother k ws hm⟩

/-- A socket is told to close. -/
theorem close (h : Listens b i l) (hi : i ≠ .room) (m : ℕ) :
    Listens b i (l.modify m Socket.close) := by
  cases h with
  | opens hroom => exact absurd hroom hi
  | goOn hlength h =>
    refine .goOn ((List.length_modify ..).trans hlength) fun k ws hws => ?_
    obtain ⟨ws', hws', hafter⟩ := h k ws hws
    have hclose : ws'.close.frames = ws'.frames ∧ ws'.close.gone = ws'.gone := by
      unfold Socket.close
      split_ifs <;> exact ⟨rfl, rfl⟩
    by_cases hm : m = k
    · exact ⟨ws'.close, by simp [hws', hm], hclose.1.trans hafter.frames, hclose.2 ▸ hafter.gone⟩
    · exact ⟨ws', by simp [hws', hm], hafter⟩

/-- No socket changes. -/
theorem same (h : l = b.sockets) (hdelivered : ∀ k, b.delivered i k = [])
    (hi : ∀ k, i ≠ .close k) : Listens b i l := by
  subst h
  exact .goOn rfl fun k ws hws => ⟨ws, hws, .same rfl rfl (hdelivered k) (hi k)⟩

/-- A frame is delivered. -/
theorem noted {event : Frame} {first : Bool} (hk : b.Hears k first) :
    Listens b (.message k event) (b.noted k event).sockets := by
  refine .modify (fun ws hws => ⟨?_, by simp⟩) fun k' ws hk' => .same rfl rfl (if_neg ?_) (by simp)
  · rw [delivered_of_hears hk]
  · exact fun hc => hk' hc.1

end Listens

/-- **Every input does one of these to the sockets.** -/
theorem listens_step (b : Hook) (i : HookInput) : Listens b i (b.step i).sockets := by
  generalize hb' : b.step i = b'
  cases hb' ▸ branch_step b i with
  | idle _ hdelivered hgone =>
    refine .goOn rfl fun k ws hws => ⟨ws, hws, by rw [hdelivered, List.append_nil], ?_⟩
    exact iff_self_or.mpr fun hi => hgone k ws hi hws
  | opens => exact .opens rfl
  | opened k =>
    refine .modify (fun ws _ => ?_) fun k' ws _ => .same rfl rfl rfl (by simp)
    split_ifs <;> exact .same rfl rfl rfl (by simp)
  | enters payload hk => exact .noted hk
  | refuses hk => exact (Listens.noted hk).close (by simp) _
  | updates payload hk => exact .noted hk
  | begins σ hk => exact .noted hk
  | ends id sessions hk => exact .noted hk
  | passes hk => exact .noted hk
  | @closes k =>
    refine .modify (fun ws _ => ⟨(List.append_nil _).symm, by simp⟩) fun k' ws hk' => ?_
    exact .same rfl rfl rfl fun hc => hk' (HookInput.close.inj hc)
  | fails =>
    refine .modify (fun ws _ => ?_) fun k' ws _ => ?_ <;> exact .same rfl rfl rfl (by simp)
  | goesOn phase hi => rcases hi with rfl | rfl <;> exact .same rfl (fun _ => rfl) (by simp)
  | @stores n σ =>
    obtain ⟨host, client, he⟩ := register_eq b n σ
    rw [he]
    exact .same rfl (fun _ => rfl) (by simp)
  | @loses n σ =>
    obtain ⟨host, client, state, he⟩ := done_eq (b.setSession n Session.close) σ
    rw [he]
    exact .same rfl (fun _ => rfl) (by simp)
  | tracks | captures | trackEnds => exact .same rfl (fun _ => rfl) (by simp)
  | asks shares hi => rcases hi with rfl | rfl <;> exact .same rfl (fun _ => rfl) (by simp)
  | stops streams hi =>
    obtain ⟨sessions, streams', state, he, -⟩ := stopShare_eq { b with streams := streams }
    rw [he]
    rcases hi with rfl | ⟨s, j, rfl⟩ <;> exact .same rfl (fun _ => rfl) (by simp)
  | @quits cr =>
    obtain ⟨sessions, streams, state, he, -⟩ := stopShare_eq b
    rw [he]
    have hsame : Listens b .leaveRoom b.sockets := .same rfl (fun _ => rfl) (by simp)
    exact hsame.close (by simp) cr.ws

/-- **A socket goes on**: it gets the frame that is delivered, and only a close event makes it over. -/
theorem socket_step {ws : Socket} (b : Hook) (i : HookInput) (h : b.sockets[k]? = some ws) :
    ∃ ws', (b.step i).sockets[k]? = some ws' ∧ Socket.After b i k ws ws' := by
  generalize hl : (b.step i).sockets = l
  cases hl ▸ listens_step b i with
  | goOn hlength hgoes => exact hgoes k ws h
  | opens hi =>
    subst hi
    refine ⟨ws, ?_, .same rfl rfl rfl (by simp)⟩
    rw [List.getElem?_append_left (List.getElem?_eq_some_iff.mp h).1, h]

/-- **A socket there is after an input** was there before, or `room` has just opened it. -/
theorem socket_back {ws' : Socket} (h : (b.step i).sockets[k]? = some ws') :
    (∃ ws, b.sockets[k]? = some ws ∧ Socket.After b i k ws ws') ∨
      i = .room ∧ k = b.sockets.length ∧ ws' = Socket.new := by
  by_cases hk : k < b.sockets.length
  · obtain ⟨ws₁, hws₁, hafter⟩ := socket_step b i (List.getElem?_eq_getElem hk)
    obtain rfl := Option.some.inj (hws₁.symm.trans h)
    exact Or.inl ⟨_, List.getElem?_eq_getElem hk, hafter⟩
  · generalize hl : (b.step i).sockets = l at h
    have hk' := (List.getElem?_eq_some_iff.mp h).1
    cases hl ▸ listens_step b i with
    | goOn hlength => exact absurd (hlength ▸ hk') hk
    | opens hi =>
      simp only [List.length_append, List.length_singleton] at hk'
      obtain rfl : k = b.sockets.length := by omega
      exact Or.inr ⟨hi, rfl, Option.some.inj (h.symm.trans List.getElem?_concat_length)⟩

end Screego.UseRoom
