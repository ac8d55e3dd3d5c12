import Screego.HookState

/-!
# What a page views

The calls of `clientSession`, and the streams that they bring.

* `Session.viewed`, `Frame.viewed`: the session that a call or a frame is about, for its viewer;
* `Hook.viewed`: the sessions that a socket's calls are for; `Viewed`: they are those of the frames after
  the first one; **`hook_viewed`**;
* `Notes`: a call that has brought a stream; `ShowsSourced`, **`hook_showsSourced`**: every stream that is shown
  has been brought by a call of its own.
-/

set_option autoImplicit false

namespace Screego.UseRoom

open Lib

variable {b : Hook} {i : HookInput} {k n : ℕ} {σ : Session} {l l' : List Session}

/-! ## The calls of a socket -/

/-- The session and its host, for a call of `clientSession`. -/
def Session.viewed (σ : Session) : Option (String × String) :=
  match σ.side with
  | .client => some (σ.sid, σ.peerID)
  | .host => none

/-- The session and its host, for a `clientsession`. -/
def Frame.viewed : Frame → Option (String × String)
  | .clientSession id peer => some (id, peer)
  | _ => none

/-- The call is for a viewer, and for this socket. -/
def Session.viewedOn (k : ℕ) (σ : Session) : Option (String × String) :=
  if σ.ws = k then σ.viewed else none

/-- **The sessions that the calls of the socket are for.** -/
def Hook.viewed (b : Hook) (k : ℕ) : List (String × String) := b.sessions.filterMap (Session.viewedOn k)

/-- Calls later on are for the same sessions. -/
theorem Later.viewed (h : Later l l') (k : ℕ) :
    l'.filterMap (Session.viewedOn k) = l.filterMap (Session.viewedOn k) := by
  have hmap : l'.map (Session.viewedOn k) = l.map (Session.viewedOn k) := by
    refine List.ext_getElem? fun n => ?_
    rw [List.getElem?_map, List.getElem?_map]
    cases hσ : l[n]? with
    | none =>
      have hlen : l'.length ≤ n := h.length ▸ List.getElem?_eq_none_iff.mp hσ
      rw [List.getElem?_eq_none hlen]
    | some σ =>
      obtain ⟨σ', hσ', hlater⟩ := h.call n σ hσ
      simp only [hσ', Option.map_some, Session.viewedOn, Session.viewed, hlater.ws, hlater.side,
        hlater.sid, hlater.peerID]
  have hid : ∀ l : List Session, l.filterMap (Session.viewedOn k) =
      (l.map (Session.viewedOn k)).filterMap id := fun l => by rw [List.filterMap_map]; rfl
  rw [hid, hid, hmap]

/-! ### The first frame -/

/-- A socket that may get frames: `first` tells whether it has got any. -/
def Socket.Fresh (ws : Socket) : Prop :=
  ws.readyState = .connecting ∨ ws.readyState = .opened → (ws.first = true ↔ ws.frames = [])

theorem Socket.fresh_of_ended {ws : Socket} (h : ws.readyState = .closing ∨ ws.readyState = .closed) :
    ws.Fresh := by
  intro hlive
  rcases h with h | h <;> simp [h] at hlive

theorem Socket.Fresh.close {ws : Socket} : ws.close.Fresh := by
  unfold Socket.close
  split_ifs with hclosed
  · exact fresh_of_ended (Or.inr hclosed)
  · exact fresh_of_ended (Or.inl rfl)

/-- All the sockets. -/
def Freshly (sockets : List Socket) : Prop := ∀ ws ∈ sockets, ws.Fresh

theorem Freshly.modify {sockets : List Socket} (h : Freshly sockets) (m : ℕ) {f : Socket → Socket}
    (hf : ∀ ws, ws.Fresh → (f ws).Fresh) : Freshly (sockets.modify m f) := by
  intro ws hws
  obtain ⟨j, hj⟩ := List.getElem?_of_mem hws
  rw [List.getElem?_modify, Option.map_eq_map, Option.map_eq_some_iff] at hj
  obtain ⟨ws₀, hws₀, rfl⟩ := hj
  have hfresh := h ws₀ (List.mem_of_getElem? hws₀)
  split_ifs
  · exact hf ws₀ hfresh
  · exact hfresh

theorem Freshly.noted (h : Freshly b.sockets) (k : ℕ) (event : Frame) :
    Freshly (b.noted k event).sockets :=
  h.modify k fun ws _ _ => iff_of_false Bool.false_ne_true (by simp)

theorem freshly_step (h : Freshly b.sockets) (i : HookInput) : Freshly (b.step i).sockets := by
  generalize hb' : b.step i = b'
  cases hb' ▸ branch_step b i with
  | idle | goesOn | tracks | asks | captures | trackEnds => exact h
  | opens =>
    intro ws hws
    rcases List.mem_append.mp hws with hws | hws
    · exact h ws hws
    · rw [List.mem_singleton.mp hws]
      exact fun _ => iff_of_true rfl rfl
  | opened k =>
    refine h.modify k fun ws hfresh => ?_
    split_ifs with hconnecting
    · exact fun _ => hfresh (Or.inl hconnecting)
    · exact hfresh
  | enters => exact h.noted _ _
  | refuses => exact (h.noted _ _).modify _ fun _ _ => .close
  | updates => exact h.noted _ _
  | begins => exact h.noted _ _
  | ends => exact h.noted _ _
  | passes => exact h.noted _ _
  | closes => exact h.modify _ fun _ _ => Socket.fresh_of_ended (Or.inr rfl)
  | fails => exact h.modify _ fun _ _ => Socket.fresh_of_ended (Or.inr rfl)
  | @stores n σ =>
    obtain ⟨host, client, he⟩ := register_eq b n σ
    rw [he]
    exact h
  | @loses n σ =>
    obtain ⟨host, client, state, he⟩ := done_eq (b.setSession n Session.close) σ
    rw [he]
    exact h
  | stops streams =>
    obtain ⟨sessions, streams', state, he, -⟩ := stopShare_eq { b with streams := streams }
    rw [he]
    exact h
  | quits =>
    obtain ⟨sessions, streams, state, he, -⟩ := stopShare_eq b
    rw [he]
    exact h.modify _ fun _ _ => .close

/-! ### Frames and calls -/

/-- **The calls of every socket are for the sessions of its frames**, but for the first one. -/
structure Viewed (b : Hook) : Prop where
  fresh : Freshly b.sockets
  viewed : ∀ k, b.viewed k = (b.framesOf k).tail.filterMap Frame.viewed

theorem Viewed.init : Viewed Hook.init where
  fresh _ h := nomatch h
  viewed _ := rfl

theorem viewed_handle (b : Hook) (k : ℕ) (event : Frame) (k' : ℕ) :
    (b.handle k event).viewed k' =
      b.viewed k' ++ if k = k' then (event.viewed).toList else [] := by
  cases event with
  | clientSession id peer =>
    rw [Hook.viewed, Hook.handle, List.filterMap_append, Hook.viewed]
    by_cases hk : k = k' <;> simp [Session.viewedOn, Session.viewed, Frame.viewed, hk]
  | hostSession id peer =>
    have hnone : b.viewed k' ++ (if k = k' then (Frame.viewed (.hostSession id peer)).toList else []) =
        b.viewed k' := by simp [Frame.viewed]
    rw [hnone, Hook.handle]
    split_ifs
    · rfl
    · rw [Hook.viewed, List.filterMap_append, Hook.viewed]
      simp [Session.viewedOn, Session.viewed]
  | endShare id =>
    obtain ⟨sessions, he, hlater, -⟩ := handle_endShare_eq b k id
    rw [he, Hook.viewed, hlater.viewed]
    simp [Hook.viewed, Frame.viewed]
  | _ => simp [Hook.handle, Frame.viewed, Hook.viewed, Hook.setState]

/-- The frame is the first one of its socket. -/
theorem Viewed.enters (h : Viewed b) {ws : Socket} (hws : b.sockets[k]? = some ws)
    (hopen : ws.readyState = .opened) (hfirst : ws.first = true) : b.framesOf k = [] := by
  have hfresh := h.fresh ws (List.mem_of_getElem? hws) (Or.inr hopen)
  simp [Hook.framesOf, hws, hfresh.mp hfirst]

theorem viewed_handleFirst (b : Hook) (k : ℕ) (event : Frame) (k' : ℕ) :
    (b.handleFirst k event).viewed k' = b.viewed k' := by
  cases event <;> rfl

/-- **What a frame does to the calls.** -/
theorem Viewed.message (h : Viewed b) (k : ℕ) (event : Frame) (k' : ℕ) :
    (b.step (.message k event)).viewed k' =
      ((b.step (.message k event)).framesOf k').tail.filterMap Frame.viewed := by
  rw [framesOf_step]
  cases hws : b.sockets[k]? with
  | none =>
    have hnone : b.delivered (.message k event) k' = [] := delivered_eq_nil (by simp [hws]) k'
    rw [hnone, List.append_nil, ← h.viewed k']
    simp [Hook.step, Hook.onMessage, hws]
  | some ws =>
    by_cases hopen : ws.readyState = .opened
    swap
    · have hnone : b.delivered (.message k event) k' = [] :=
        delivered_eq_nil (by simpa [hws] using hopen) k'
      rw [hnone, List.append_nil, ← h.viewed k']
      simp [Hook.step, Hook.onMessage, hws, hopen]
    have hstep : (b.step (.message k event)).viewed k' = b.viewed k' ++
        if ws.first = false ∧ k = k' then event.viewed.toList else [] := by
      simp only [Hook.step, Hook.onMessage, hws, hopen, ne_eq, not_true_eq_false, if_false]
      cases hfirst : ws.first with
      | true => exact (viewed_handleFirst _ k event k').trans (by simp [Hook.viewed, Hook.setSocket])
      | false => exact (viewed_handle _ k event k').trans (by simp [Hook.viewed, Hook.setSocket])
    rw [hstep, h.viewed k']
    by_cases hk : k = k'
    · subst hk
      have hdelivered : b.delivered (.message k event) k = [event] :=
        delivered_of_hears ⟨ws, hws, hopen, rfl⟩ event
      rw [hdelivered]
      cases hfirst : ws.first with
      | true =>
        rw [h.enters hws hopen hfirst]
        rfl
      | false =>
        have hfresh := h.fresh ws (List.mem_of_getElem? hws) (Or.inr hopen)
        have hne : b.framesOf k ≠ [] := by
          simpa [Hook.framesOf, hws, hfirst] using hfresh
        rw [List.tail_append_of_ne_nil hne, List.filterMap_append]
        cases hview : event.viewed <;> simp [hview]
    · have hnone : b.delivered (.message k event) k' = [] := if_neg fun hc => hk hc.1
      rw [hnone, if_neg fun hc => hk hc.2, List.append_nil, List.append_nil]

theorem Viewed.step (h : Viewed b) (i : HookInput) : Viewed (b.step i) where
  fresh := freshly_step h.fresh i
  viewed k := by
    by_cases hi : ∃ k' event, i = .message k' event
    · obtain ⟨k', event, rfl⟩ := hi
      exact h.message k' event k
    · have hnone : ∀ k', b.delivered i k' = [] := by
        intro k'
        unfold Hook.delivered
        split
        · exact absurd ⟨_, _, rfl⟩ hi
        · rfl
      rw [framesOf_step, hnone, List.append_nil, ← h.viewed k]
      generalize hl : (b.step i).sessions = sessions
      rw [Hook.viewed, hl]
      cases hl ▸ calls_step b i with
      | goOn hlater => exact hlater.viewed k
      | begins σ hσ =>
        rw [hnone] at hσ
        exact absurd hσ List.not_mem_nil

/-- **The calls of every socket are for the sessions of its frames.** -/
theorem hook_viewed : hook.Always Viewed :=
  Machine.always_of_step Viewed.init fun b i h => ⟨b.step i, rfl, h.step i⟩

/-! ## The streams that are shown -/

/-- The calls of `l` that have brought a stream have done so in `l'`. -/
def Notes (l l' : List Session) : Prop :=
  ∀ n : ℕ, l[n]?.map Session.notified = some true → l'[n]?.map Session.notified = some true

namespace Notes

variable {l₁ : List Session}

theorem refl (l : List Session) : Notes l l := fun _ h => h

theorem trans (h : Notes l l') (h' : Notes l' l₁) : Notes l l₁ := fun n hn => h' n (h n hn)

theorem modify (l : List Session) (m : ℕ) {f : Session → Session}
    (hf : ∀ σ : Session, σ.notified = true → (f σ).notified = true) : Notes l (l.modify m f) := by
  intro n hn
  obtain ⟨σ, hσ, hnotified⟩ := Option.map_eq_some_iff.mp hn
  rw [List.getElem?_modify, hσ]
  by_cases hm : m = n
  · simp [hm, hf σ hnotified]
  · simp [hm, hnotified]

theorem append (l l' : List Session) : Notes l (l ++ l') := by
  intro n hn
  obtain ⟨σ, hσ, -⟩ := Option.map_eq_some_iff.mp hn
  rwa [List.getElem?_append_left (List.getElem?_eq_some_iff.mp hσ).1]

theorem closeAll (peers : List ℕ) (l : List Session) :
    Notes l (peers.foldl (fun l n => l.modify n Session.close) l) := by
  induction peers generalizing l with
  | nil => exact .refl l
  | cons n peers ih => exact (modify l n (f := Session.close) fun _ h => h).trans (ih _)

theorem stopShare (b : Hook) : Notes b.sessions b.stopShare.sessions := by
  unfold Hook.stopShare
  simp only
  split_ifs <;> exact .closeAll _ _

theorem closeRef (b : Hook) (refs : GoMap String ℕ) (key : String) :
    Notes b.sessions (b.closeRef refs key).sessions := by
  unfold Hook.closeRef
  split
  · exact .modify _ _ fun _ => id
  · exact .refl _

end Notes

/-- **A call that has brought a stream** has done so from then on. -/
theorem notes_step (b : Hook) (i : HookInput) : Notes b.sessions (b.step i).sessions := by
  generalize hb' : b.step i = b'
  cases hb' ▸ branch_step b i with
  | idle | opens | opened | enters | refuses | updates | passes | closes | fails | asks | captures
  | trackEnds => exact .refl _
  | begins σ => exact .append _ _
  | @ends k id sessions hk =>
    rw [← hb', step_message hk]
    show Notes b.sessions ((((b.noted k (.endShare id)).closeRef _ id).closeRef _ id).sessions)
    exact (Notes.closeRef (b.noted k (.endShare id)) _ id).trans (.closeRef _ _ id)
  | goesOn phase => exact .modify _ _ fun _ => id
  | @stores n σ =>
    obtain ⟨host, client, he⟩ := register_eq b n σ
    rw [he]
    exact .modify _ _ fun _ => id
  | @loses n σ =>
    obtain ⟨host, client, state, he⟩ := done_eq (b.setSession n Session.close) σ
    rw [he]
    exact .modify _ _ fun _ => id
  | tracks => exact .modify _ _ fun _ _ => rfl
  | stops streams => exact .stopShare { b with streams := streams }
  | quits => exact .stopShare _

/-- The stream has been brought by a call of `clientSession`. -/
def Hook.Brought (b : Hook) (s : ClientStream) : Prop :=
  ∃ σ, b.sessions[s.session]? = some σ ∧ σ.viewed = some (s.id, s.peerID) ∧ σ.notified = true

theorem Hook.Brought.step {s : ClientStream} (h : b.Brought s) (i : HookInput) : (b.step i).Brought s := by
  obtain ⟨σ, hσ, hviewed, hnotified⟩ := h
  obtain ⟨σ', hσ', hlater⟩ := session_step b i hσ
  refine ⟨σ', hσ', ?_, ?_⟩
  · rw [← hviewed, Session.viewed, Session.viewed, hlater.side, hlater.sid, hlater.peerID]
  · have hnotes := notes_step b i s.session (by rw [hσ, Option.map_some, hnotified])
    rw [hσ', Option.map_some] at hnotes
    exact Option.some.inj hnotes

/-- **Every stream that is shown has been brought by a call of its own.** -/
structure Sourced (b : Hook) (streams : List ClientStream) : Prop where
  brought : ∀ s ∈ streams, b.Brought s
  apart : (streams.map ClientStream.session).Nodup

/-- So it is in the state. -/
def ShowsSourced (b : Hook) : Prop := ∀ cr, b.state = some cr → Sourced b cr.clientStreams

theorem Sourced.step {streams : List ClientStream} (h : Sourced b streams) (i : HookInput) :
    Sourced (b.step i) streams := ⟨fun s hs => (h.brought s hs).step i, h.apart⟩

theorem Sourced.filter {streams : List ClientStream} (h : Sourced b streams) (p : ClientStream → Bool) :
    Sourced b (streams.filter p) :=
  ⟨fun s hs => h.brought s (List.mem_of_mem_filter hs), h.apart.sublist (List.filter_sublist.map _)⟩

/-- A track arrives. -/
theorem Sourced.track {streams : List ClientStream} (h : Sourced b streams) (hσ : b.Tracks n σ) :
    Sourced (b.step (.track n)) (streams ++ [⟨σ.sid, n, σ.peerID⟩]) := by
  obtain ⟨hn, hside, hnotified, hclosed⟩ := hσ
  have hstep : (b.step (.track n)).sessions = b.sessions.modify n fun σ => { σ with notified := true } := by
    simp [Hook.step, Hook.track, hn, hside, hnotified, hclosed, Hook.setState, Hook.setSession]
  refine ⟨fun s hs => ?_, ?_⟩
  · rcases List.mem_append.mp hs with hs | hs
    · exact (h.brought s hs).step _
    · rw [List.mem_singleton.mp hs]
      refine ⟨{ σ with notified := true }, ?_, ?_, rfl⟩
      · simp [hstep, hn]
      · simp [Session.viewed, hside]
  · rw [List.map_append, List.nodup_append]
    refine ⟨h.apart, List.nodup_singleton _, ?_⟩
    rintro m hm _ hn' rfl
    obtain rfl := List.mem_singleton.mp hn'
    obtain ⟨s, hs, rfl⟩ := List.mem_map.mp hm
    -- the call of a stream that is shown has had its first track
    obtain ⟨σ', hσ', -, hnotified'⟩ := h.brought s hs
    obtain rfl := Option.some.inj (hn.symm.trans hσ')
    exact absurd (hnotified.symm.trans hnotified') Bool.false_ne_true

theorem ShowsSourced.step (h : ShowsSourced b) (i : HookInput) : ShowsSourced (b.step i) := by
  intro cr' hcr'
  generalize hst : (b.step i).state = st at hcr'
  cases hst ▸ moves_step b i with
  | keeps => exact (h cr' hcr').step i
  | shares | updates =>
    obtain ⟨cr, hcr, rfl⟩ := Option.map_eq_some_iff.mp hcr'
    exact (h cr hcr).step _
  | enters =>
    obtain rfl := Option.some.inj hcr'
    exact ⟨fun s hs => absurd hs List.not_mem_nil, List.nodup_nil⟩
  | ends | loses =>
    obtain ⟨cr, hcr, rfl⟩ := Option.map_eq_some_iff.mp hcr'
    exact ((h cr hcr).filter _).step _
  | tracks hσ =>
    obtain ⟨cr, hcr, rfl⟩ := Option.map_eq_some_iff.mp hcr'
    exact (h cr hcr).track hσ
  | leaves => cases hcr'

/-- **Every stream that is shown has been brought by a call of its own.** -/
theorem hook_showsSourced : hook.Always ShowsSourced :=
  Machine.always_of_step (fun _ h => nomatch h) fun b i h => ⟨b.step i, rfl, h.step i⟩

end Screego.UseRoom
