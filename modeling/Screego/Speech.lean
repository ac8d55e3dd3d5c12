import Screego.HookState
import Screego.Reading

/-!
# What a page sends

The calls of `ws.send` in `useRoom.ts`.

* `Say`: what is sent; `Say.incoming`: what the server reads it as, **`read_say`**;
* `Hook.sendOn`, `Hook.sendCurrent`: `send` of a call of `room`, and `conn.current?.send`;
* `Hook.speaks`: what an input of the hook makes it send; `Hook.candidate`; `Hook.answers`: the calls that an
  offer starts;
* `Hook.Owns`: a signalling message is one of a session of the socket; **`speaks_cases`**;
* `Ages`, **`ages_step`**: a socket opens once.
-/

set_option autoImplicit false

namespace Screego

open Lib Outgoing UseRoom

/-- **What a page hands to `ws.send`**: a session goes by the text of its id. -/
inductive Say where
  | create (e : Create)
  | join (e : Join)
  | name (username : String)
  | share
  | stopshare
  | signal (k : Signal) (sid value : String)

namespace Say

/-- A request to enter a room. -/
def enters : Say → Bool
  | create _ => true
  | join _ => true
  | _ => false

variable {env : Env} (X : XidReader env)

theorem registered_signal (k : Signal) (m : P2PMessage) : (k.event m).registered = true := by
  cases k <;> rfl

/-- What the server reads it as, if it can be read. -/
def incoming : Say → Option Incoming
  | create e => some ⟨.create e, rfl⟩
  | join e => some ⟨.join e, rfl⟩
  | name username => some ⟨.name username, rfl⟩
  | share => some ⟨.startShare, rfl⟩
  | stopshare => some ⟨.stopShare, rfl⟩
  | signal k sid value => (X.unmarshalJSON (rawText (.str sid))).map fun id =>
      ⟨k.event ⟨id, value⟩, registered_signal k _⟩

end Say

/-- The message as it is sent. -/
def OutgoingMessage.say (env : Env) : OutgoingMessage → Say
  | create id closeOnOwnerLeave mode username visitorId joinIfExist =>
    .create ⟨id.getD "", mode, closeOnOwnerLeave.getD false, username.getD "", visitorId.getD "",
      joinIfExist.getD false⟩
  | join id _ username visitorId => .join ⟨id, username.getD "", visitorId.getD ""⟩
  | name username => .name username
  | share => .share
  | stopshare => .stopshare
  | signal k sid value => .signal k (env.xidString sid) ((value.map rawText).getD "")

/-- **Any text of a message** is read as the message is. -/
theorem read_say {env : Env} (X : XidReader env) {m : OutgoingMessage} {text : List Char}
    (h : m.Spells env text) : ∃ e, (m.say env).incoming X = some e ∧
      readTypedIncoming X text = .ok e.event := by
  rw [h.read X]
  cases m with
  | signal k sid value =>
    simp only [OutgoingMessage.say, Say.incoming, X.unmarshalJSON_text, Option.map_some]
    exact ⟨_, rfl, rfl⟩
  | _ => exact ⟨_, rfl, rfl⟩

/-! ## The hook -/

namespace UseRoom

namespace Hook

variable (b : Hook)

/-- The state of the socket. -/
def stateOf (k : ℕ) : Option ReadyState := b.sockets[k]?.map Socket.readyState

/-- `send` of a call of `room`. -/
def sendOn (k : ℕ) (say : Say) : Option (ℕ × Say) :=
  if b.stateOf k = some .opened then some (k, say) else none

/-- `conn.current?.send`: it throws while the socket is connecting, and a closed one discards. -/
def sendCurrent (say : Say) : Option (ℕ × Say) := b.conn.bind fun k => b.sendOn k say

/-- **What the hook sends** when an input is handled; `enter` is the request that `room` was called with,
and `offer` the description that has been made. -/
def speaks (enter : Say) (offer : String) : HookInput → Option (ℕ × Say)
  | .opened k => if b.stateOf k = some .connecting then some (k, enter) else none
  | .resume n =>
    match b.sessions[n]? with
    | some σ =>
      if σ.side = .host ∧ σ.phase = .setLocalDescription ∧ σ.closed = false then
        b.sendOn σ.ws (.signal .hostOffer σ.sid offer)
      else none
    | none => none
  | .captured _ => if b.shares = 0 then none else b.sendCurrent .share
  | .trackEnded s i =>
    if i = 0 ∧ (b.streams[s]?.bind fun S => S.tracks[i]?) = some false then b.sendCurrent .stopshare
    else none
  | .stopShare => b.sendCurrent .stopshare
  | .leaveRoom => if b.state.isSome then b.sendCurrent .stopshare else none
  | _ => none

/-- `peer.onicecandidate`, with a candidate: a closed peer has no events. -/
def candidate (n : ℕ) (value : String) : Option (ℕ × Say) :=
  match b.sessions[n]? with
  | some σ =>
    if σ.closed then none
    else match σ.side with
      | .host => b.sendOn σ.ws (.signal .hostICE σ.sid value)
      | .client => b.sendOn σ.ws (.signal .clientICE σ.sid value)
  | none => none

/-- The answer that a frame asks for. -/
def answers : HookInput → Option (ℕ × String)
  | .message k (.hostOffer sid) =>
    if b.sockets[k]?.map (fun ws => (ws.readyState, ws.first)) = some (.opened, false) then some (k, sid)
    else none
  | _ => none

end Hook

/-- The side of a session that sends the kind. -/
def sideOf : Signal → Side
  | .hostOffer => .host
  | .hostICE => .host
  | .clientAnswer => .client
  | .clientICE => .client

/-- **A signalling message is one of a session** of the socket, from its side. -/
def Hook.Owns (b : Hook) (k : ℕ) (say : Say) : Prop :=
  ∀ kind sid value, say = .signal kind sid value →
    ∃ σ ∈ b.sessions, σ.ws = k ∧ σ.sid = sid ∧ σ.side = sideOf kind

variable {b : Hook} {k : ℕ} {say enter : Say} {y : ℕ × Say}

theorem Hook.sendOn_eq_some (h : b.sendOn k say = some y) : y = (k, say) ∧ b.stateOf k = some .opened := by
  unfold Hook.sendOn at h
  split_ifs at h with hopened
  exact ⟨(Option.some.inj h).symm, hopened⟩

theorem Hook.sendCurrent_cases (h : b.sendCurrent say = some y) (hsay : ∀ kind sid value,
    say ≠ .signal kind sid value) : b.stateOf y.1 = some .opened ∧ y.2 = say ∧ b.Owns y.1 y.2 := by
  obtain ⟨k, -, h⟩ := Option.bind_eq_some_iff.mp h
  obtain ⟨rfl, hopened⟩ := Hook.sendOn_eq_some h
  exact ⟨hopened, rfl, fun kind sid value e => absurd e (hsay kind sid value)⟩

/-- **What the hook says**: the request to enter, when the socket opens, or something else on a socket
that is open. -/
theorem speaks_cases {offer : String} {i : HookInput} (h : b.speaks enter offer i = some y) :
    (i = .opened y.1 ∧ y.2 = enter ∧ b.stateOf y.1 = some .connecting) ∨
      (b.stateOf y.1 = some .opened ∧ y.2.enters = false ∧ b.Owns y.1 y.2) := by
  have hcurrent : ∀ {say}, b.sendCurrent say = some y → say = .share ∨ say = .stopshare →
      b.stateOf y.1 = some .opened ∧ y.2.enters = false ∧ b.Owns y.1 y.2 := by
    intro say h hsay
    obtain ⟨hopened, hy, howns⟩ := Hook.sendCurrent_cases h (by rcases hsay with rfl | rfl <;> simp)
    refine ⟨hopened, ?_, howns⟩
    rcases hsay with rfl | rfl <;> rw [hy] <;> rfl
  cases i with
  | opened k =>
    simp only [Hook.speaks] at h
    split_ifs at h with hconnecting
    obtain rfl := Option.some.inj h
    exact Or.inl ⟨rfl, rfl, hconnecting⟩
  | resume n =>
    simp only [Hook.speaks] at h
    split at h
    case h_2 => cases h
    case h_1 σ hσ =>
      split_ifs at h with hside
      obtain ⟨rfl, hopened⟩ := Hook.sendOn_eq_some h
      refine Or.inr ⟨hopened, rfl, fun kind sid value e => ?_⟩
      obtain ⟨rfl, rfl, -⟩ := Say.signal.inj e
      exact ⟨σ, List.mem_of_getElem? hσ, rfl, rfl, hside.1⟩
  | captured others =>
    simp only [Hook.speaks] at h
    split_ifs at h
    exact Or.inr (hcurrent h (Or.inl rfl))
  | trackEnded s j =>
    simp only [Hook.speaks] at h
    split_ifs at h
    exact Or.inr (hcurrent h (Or.inr rfl))
  | stopShare => exact Or.inr (hcurrent h (Or.inr rfl))
  | leaveRoom =>
    simp only [Hook.speaks] at h
    split_ifs at h
    exact Or.inr (hcurrent h (Or.inr rfl))
  | _ => cases h

/-- A candidate is one of a session. -/
theorem candidate_cases {n : ℕ} {value : String} (h : b.candidate n value = some y) :
    b.stateOf y.1 = some .opened ∧ y.2.enters = false ∧ b.Owns y.1 y.2 := by
  unfold Hook.candidate at h
  split at h
  case h_2 => cases h
  case h_1 σ hσ =>
    split_ifs at h
    have howns : ∀ kind, sideOf kind = σ.side → b.Owns σ.ws (.signal kind σ.sid value) := by
      intro kind hkind kind' sid value' e
      obtain ⟨rfl, rfl, -⟩ := Say.signal.inj e
      exact ⟨σ, List.mem_of_getElem? hσ, rfl, rfl, hkind.symm⟩
    split at h
    case h_1 hside =>
      obtain ⟨rfl, hopened⟩ := Hook.sendOn_eq_some h
      exact ⟨hopened, rfl, howns .hostICE hside.symm⟩
    case h_2 hside =>
      obtain ⟨rfl, hopened⟩ := Hook.sendOn_eq_some h
      exact ⟨hopened, rfl, howns .clientICE hside.symm⟩

/-- An answer is asked for by a frame that is handled. -/
theorem answers_cases {i : HookInput} {a : ℕ × String} (h : b.answers i = some a) :
    i = .message a.1 (.hostOffer a.2) ∧ b.stateOf a.1 = some .opened := by
  unfold Hook.answers at h
  split at h
  · split_ifs at h with hopened
    obtain rfl := Option.some.inj h
    obtain ⟨ws, hws, he⟩ := Option.map_eq_some_iff.mp hopened
    exact ⟨rfl, Option.map_eq_some_iff.mpr ⟨ws, hws, (Prod.mk.inj he).1⟩⟩
  · cases h

/-! ## Sockets open once -/

/-- The state stays, or a socket closes. -/
def Ages (st st' : Option ReadyState) : Prop :=
  st = st' ∨ (st ≠ none ∧ (st' = some .closing ∨ st' = some .closed))

theorem Ages.refl (st : Option ReadyState) : Ages st st := Or.inl rfl

theorem Ages.trans {st₁ st₂ st₃ : Option ReadyState} (h : Ages st₁ st₂) (h' : Ages st₂ st₃) :
    Ages st₁ st₃ := by
  rcases h' with rfl | ⟨hne, h'⟩
  · exact h
  · refine Or.inr ⟨?_, h'⟩
    rcases h with rfl | ⟨hne', -⟩
    · exact hne
    · exact hne'

/-- A socket that has not closed. -/
theorem Ages.back {st st' : Option ReadyState} (h : Ages st st') {x : Option ReadyState}
    (hx : x ≠ some .closing ∧ x ≠ some .closed) (hst' : st' = x) : st = x := by
  rcases h with rfl | ⟨-, hclosed⟩
  · exact hst'
  · rcases hclosed with hclosed | hclosed
    · exact absurd (hst'.symm.trans hclosed) hx.1
    · exact absurd (hst'.symm.trans hclosed) hx.2

/-- One of the sockets changes. -/
theorem Ages.modify (l : List Socket) (m k : ℕ) {f : Socket → Socket}
    (hf : ∀ ws, (f ws).readyState = ws.readyState ∨ (f ws).readyState = .closing ∨
      (f ws).readyState = .closed) :
    Ages (l[k]?.map Socket.readyState) ((l.modify m f)[k]?.map Socket.readyState) := by
  by_cases hm : m = k
  · subst hm
    cases hws : l[m]? with
    | none => exact Or.inl (by simp [hws])
    | some ws =>
      have hafter : (l.modify m f)[m]? = some (f ws) := by simp [hws]
      rw [hafter, Option.map_some, Option.map_some]
      rcases hf ws with h | h
      · exact Or.inl (congrArg some h.symm)
      · exact Or.inr ⟨Option.some_ne_none _, h.imp (congrArg some) (congrArg some)⟩
  · exact Or.inl (by simp [hm])

theorem Ages.noted (b : Hook) (m k : ℕ) (event : Frame) :
    Ages (b.stateOf k) ((b.noted m event).stateOf k) :=
  .modify _ _ _ fun _ => Or.inl rfl

theorem Ages.close (l : List Socket) (m k : ℕ) :
    Ages (l[k]?.map Socket.readyState) ((l.modify m Socket.close)[k]?.map Socket.readyState) := by
  refine .modify _ _ _ fun ws => ?_
  unfold Socket.close
  split_ifs
  · exact Or.inl rfl
  · exact Or.inr (Or.inl rfl)

theorem stateOf_onOpen (b : Hook) (m k : ℕ) : (b.onOpen m).stateOf k =
    if m = k ∧ b.stateOf k = some .connecting then some .opened else b.stateOf k := by
  by_cases hm : m = k
  · subst hm
    cases hws : b.sockets[m]? with
    | none => simp [Hook.onOpen, Hook.setSocket, Hook.stateOf, hws]
    | some ws =>
      by_cases hready : ws.readyState = .connecting <;>
        simp [Hook.onOpen, Hook.setSocket, Hook.stateOf, hws, hready]
  · simp [Hook.onOpen, Hook.setSocket, Hook.stateOf, hm]

/-- **What one input does to the state of a socket**: it stays, closes, opens, or is new. -/
theorem ages_step (b : Hook) (i : HookInput) (k : ℕ) : Ages (b.stateOf k) ((b.step i).stateOf k) ∨
    (b.stateOf k = none ∧ (b.step i).stateOf k = some .connecting) ∨
    (i = .opened k ∧ b.stateOf k = some .connecting ∧ (b.step i).stateOf k = some .opened) := by
  generalize hb' : b.step i = b'
  cases hb' ▸ branch_step b i with
  | opens =>
    by_cases hk : k < b.sockets.length
    · exact Or.inl (Or.inl (by simp [Hook.stateOf, List.getElem?_append_left hk]))
    by_cases hk' : k = b.sockets.length
    · exact Or.inr (Or.inl (by simp [Hook.stateOf, hk', Socket.new]))
    · have hlt : b.sockets.length < k := by omega
      have hnone : (b.sockets ++ [Socket.new])[k]? = none :=
        List.getElem?_eq_none (by rw [List.length_append, List.length_singleton]; omega)
      exact Or.inl (Or.inl (by simp [Hook.stateOf, hnone, List.getElem?_eq_none hlt.le]))
  | opened m =>
    rw [stateOf_onOpen]
    split_ifs with h
    · exact Or.inr (Or.inr ⟨by rw [h.1], h.2, rfl⟩)
    · exact Or.inl (.refl _)
  | idle => exact Or.inl (.refl _)
  | enters => exact Or.inl (.noted ..)
  | refuses => exact Or.inl ((Ages.noted ..).trans (.close ..))
  | updates => exact Or.inl (.noted ..)
  | begins => exact Or.inl (.noted ..)
  | ends => exact Or.inl (.noted ..)
  | passes => exact Or.inl (.noted ..)
  | closes => exact Or.inl (.modify _ _ _ fun _ => Or.inr (Or.inr rfl))
  | fails => exact Or.inl (.modify _ _ _ fun _ => Or.inr (Or.inr rfl))
  | goesOn | tracks | asks | captures | trackEnds => exact Or.inl (.refl _)
  | @stores n σ =>
    obtain ⟨host, client, he⟩ := register_eq b n σ
    rw [he]
    exact Or.inl (.refl _)
  | @loses n σ =>
    obtain ⟨host, client, state, he⟩ := done_eq (b.setSession n Session.close) σ
    rw [he]
    exact Or.inl (.refl _)
  | stops streams =>
    obtain ⟨sessions, streams', state, he, -⟩ := stopShare_eq { b with streams := streams }
    rw [he]
    exact Or.inl (.refl _)
  | quits =>
    obtain ⟨sessions, streams, state, he, -⟩ := stopShare_eq b
    rw [he]
    exact Or.inl (.close ..)

end UseRoom

end Screego
