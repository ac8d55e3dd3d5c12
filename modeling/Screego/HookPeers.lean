import Screego.HookSteps

/-!
# What becomes of the peers

The peers in `host.current` and `client.current` and the captured stream, when a room ends, when sharing
stops and when a session ends.

* `Hook.Quiet`, `EndsQuiet`: a room that is over has no open peer and no live stream; `Abandons`;
  **`peers_end_with_room`**: the runs in which it is so;
* `NeverStale`: no peer of a call that was begun before its end is stored open; `Revives`;
  **`no_stale_peer`**: the runs in which it is so.
-/

set_option autoImplicit false

namespace Screego.UseRoom

open Lib

variable {b : Hook} {i : HookInput} {k n : ℕ} {σ : Session}

/-- **What is stored in the refs is a call.** -/
def InRange (b : Hook) : Prop :=
  ∀ (side : Side) (key : String) (n : ℕ),
    (b.held.refs side).lookup key = some n → n < b.sessions.length

theorem inRange_step (h : InRange b) (i : HookInput) : InRange (b.step i) := by
  intro side key n hn
  refine lt_of_lt_of_le ?_ (length_sessions_le b i)
  rcases refs_step hn with hn | ⟨σ, ⟨-, hσ, -⟩, -⟩
  · exact h side key n hn
  · exact (List.getElem?_eq_some_iff.mp hσ).1

theorem hook_inRange : hook.Always InRange := by
  refine Machine.always_of_step (fun side key n hn => ?_) fun b i h => ⟨b.step i, rfl, inRange_step h i⟩
  cases side <;> simp [hook, Hook.init, Hook.held, Held.refs] at hn

/-! ## The room ends -/

/-- The close event of the socket has been handled. -/
def Hook.Over (b : Hook) (k : ℕ) : Prop := ∃ ws, b.sockets[k]? = some ws ∧ ws.gone = true

/-- **Nothing of the room of the socket goes on**: the peers that are stored for it are closed, and no
track of a stream captured in it is live. -/
structure Hook.Quiet (b : Hook) (k : ℕ) : Prop where
  peers : ∀ side key n σ, (b.held.refs side).lookup key = some n → b.sessions[n]? = some σ →
    σ.ws = k → σ.closed = true
  stream : ∀ s S, b.stream = some s → b.streams[s]? = some S → S.room = some k →
    ∀ ended ∈ S.tracks, ended = true

/-- **Rooms that are over are quiet.** -/
def EndsQuiet (b : Hook) : Prop := ∀ k, b.Over k → b.Quiet k

/-- All promises of `hostSession`, of `clientSession` and of `getDisplayMedia` have settled. -/
def Hook.Settled (b : Hook) : Prop := (∀ σ ∈ b.sessions, σ.phase = .settled) ∧ b.shares = 0

/-- **Inputs that leave something of a room behind**: its socket closes while something of it goes on,
or a peer is stored open, or a screen is captured, for a room that is over. -/
inductive Abandons (b : Hook) : HookInput → Prop
  | close (k : ℕ) (hk : k < b.sockets.length) (hquiet : ¬ b.Quiet k) : Abandons b (.close k)
  | stores (n : ℕ) (σ : Session) (hσ : b.sessions[n]? = some σ) (hphase : σ.phase = .fulfilled)
      (hclosed : σ.closed = false) (hover : b.Over σ.ws) : Abandons b (.resume n)
  | captures (others k : ℕ) (hshares : b.shares ≠ 0) (hk : b.conn = some k) (hover : b.Over k) :
      Abandons b (.captured others)

theorem over_step : (b.step i).Over k ↔ b.Over k ∨ i = .close k ∧ k < b.sockets.length := by
  constructor
  · rintro ⟨ws', hws', hover⟩
    rcases socket_back hws' with ⟨ws, hws, hafter⟩ | ⟨-, -, rfl⟩
    · rcases hafter.gone.mp hover with hover | hi
      · exact Or.inl ⟨ws, hws, hover⟩
      · exact Or.inr ⟨hi, (List.getElem?_eq_some_iff.mp hws).1⟩
    · cases hover
  · rintro (⟨ws, hws, hover⟩ | ⟨hi, hk⟩)
    · obtain ⟨ws', hws', hafter⟩ := socket_step b i hws
      exact ⟨ws', hws', hafter.gone.mpr (Or.inl hover)⟩
    · obtain ⟨ws', hws', hafter⟩ := socket_step b i (List.getElem?_eq_getElem hk)
      exact ⟨ws', hws', hafter.gone.mpr (Or.inr hi)⟩

/-- **What keeps a room quiet.** -/
theorem quiet_step (hr : InRange b) (h : b.Quiet k)
    (hstores : ∀ n σ, b.Stores i n σ → σ.ws = k → σ.closed = true)
    (hcaptures : ∀ others, i = .captured others → b.shares ≠ 0 → b.conn ≠ some k) :
    (b.step i).Quiet k where
  peers side key n σ' hn hσ' hws := by
    rcases refs_step hn with hn | ⟨σ, hσ, -⟩
    · obtain ⟨σ, hσ, hlater⟩ := session_back_of_lt (hr side key n hn) hσ'
      exact hlater.closed (h.peers side key n σ hn hσ (hlater.ws ▸ hws))
    · have hlater := later_of_step hσ.2.1 hσ'
      exact hlater.closed (hstores n σ hσ (hlater.ws ▸ hws))
  stream s S hs hS hroom := by
    rcases stream_step hs hS with ⟨S₀, hs₀, hS₀, he, hended⟩ | ⟨others, hi, hshares, rfl⟩
    · exact hended (h.stream s S₀ hs₀ hS₀ (he ▸ hroom))
    · exact absurd hroom (hcaptures others hi hshares)

/-- What is quiet depends on the refs, the streams and the calls. -/
theorem Hook.Quiet.of_same {b' : Hook} (h : b'.Quiet k) (hheld : b'.held = b.held)
    (hsessions : b'.sessions = b.sessions) : b.Quiet k := by
  have hstream : b'.stream = b.stream := congrArg Held.stream hheld
  have hstreams : b'.streams = b.streams := congrArg Held.streams hheld
  exact ⟨fun side key n σ hn hσ => h.peers side key n σ (hheld ▸ hn) (hsessions ▸ hσ),
    fun s S hs hS => h.stream s S (hstream ▸ hs) (hstreams ▸ hS)⟩

/-- A close event leaves the peers and the streams alone. -/
theorem onClose_same (b : Hook) (k : ℕ) :
    (b.onClose k).held = b.held ∧ (b.onClose k).sessions = b.sessions := by
  unfold Hook.onClose
  split
  · exact ⟨rfl, rfl⟩
  · split_ifs <;> exact ⟨rfl, rfl⟩

theorem resume_fulfilled (hσ : b.sessions[n]? = some σ) (hphase : σ.phase = .fulfilled) :
    b.step (.resume n) = (b.register n σ).setSession n fun σ => { σ with phase := .settled } := by
  simp only [Hook.step, Hook.resume, hσ, hphase, if_true]

/-- A peer that is stored. -/
theorem lookup_resume (hσ : b.sessions[n]? = some σ) (hphase : σ.phase = .fulfilled) :
    ((b.step (.resume n)).held.refs σ.side).lookup σ.sid = some n := by
  rw [resume_fulfilled hσ hphase]
  exact (lookup_register b n σ σ.side σ.sid).trans (if_pos ⟨rfl, rfl⟩)

theorem sessions_resume (hσ : b.sessions[n]? = some σ) (hphase : σ.phase = .fulfilled) :
    (b.step (.resume n)).sessions[n]? = some { σ with phase := .settled } := by
  obtain ⟨host, client, he⟩ := register_eq b n σ
  rw [resume_fulfilled hσ hphase, he]
  simp [Hook.setSession, hσ]

/-- **Rooms that are over stay quiet** as long as the inputs leave nothing behind, and no longer. -/
theorem endsQuiet_step (hr : InRange b) (h : EndsQuiet b) (i : HookInput) :
    EndsQuiet (b.step i) ↔ ¬ Abandons b i := by
  constructor
  · intro h' ha
    cases ha with
    | close k hk hquiet =>
      have hover : (b.step (.close k)).Over k := over_step.mpr (Or.inr ⟨rfl, hk⟩)
      obtain ⟨hheld, hsessions⟩ := onClose_same b k
      exact hquiet ((h' k hover).of_same hheld hsessions)
    | stores n σ hσ hphase hclosed hover =>
      have hquiet := h' σ.ws (over_step.mpr (Or.inl hover))
      have hclosed' := hquiet.peers _ _ _ _ (lookup_resume hσ hphase) (sessions_resume hσ hphase) rfl
      exact absurd (hclosed.symm.trans hclosed') (by decide)
    | captures others k hshares hk hover =>
      have hquiet := h' k (over_step.mpr (Or.inl hover))
      have hlive := hquiet.stream b.streams.length ⟨List.replicate (others + 1) false, some k⟩
        (by simp only [Hook.step, Hook.captured, if_neg hshares]; rfl)
        (by simp only [Hook.step, Hook.captured, if_neg hshares, hk]; exact List.getElem?_concat_length)
        rfl false
      exact absurd (hlive (by simp)) (by decide)
  · intro ha k hover
    rcases over_step.mp hover with hover' | ⟨rfl, hk⟩
    · refine quiet_step hr (h k hover') (fun n σ hσ hws => ?_) fun others hi hshares hk => ?_
      · obtain ⟨rfl, hσ, hphase⟩ := hσ
        by_contra hclosed
        exact ha (.stores n σ hσ hphase (Bool.eq_false_iff.mpr hclosed) (hws ▸ hover'))
      · subst hi
        exact ha (.captures others k hshares hk hover')
    · have hquiet : b.Quiet k := by
        by_contra hquiet
        exact ha (.close k hk hquiet)
      refine quiet_step hr hquiet (fun n σ hσ => ?_) fun others hi => ?_
      · cases hσ.1
      · cases hi

/-- **Peers end with the room** in exactly the runs whose inputs leave nothing behind: no socket closes
while a peer of its room is open or a stream captured in it is live, and no peer is stored open and no
screen captured for a room that is over. In these runs, whenever all promises have settled, rooms that are
over have only closed peers and stopped tracks. -/
theorem peers_end_with_room (is : List HookInput) :
    (hook.Throughout EndsQuiet is ↔ hook.Meets (fun b i => ¬ Abandons b i) is) ∧
      (hook.Meets (fun b i => ¬ Abandons b i) is →
        hook.Throughout (fun b => b.Settled → EndsQuiet b) is) := by
  have hiff : hook.Throughout EndsQuiet is ↔ hook.Meets (fun b i => ¬ Abandons b i) is := by
    refine Machine.meets_iff hook_inRange ?_ (fun b i b' hr h hs => ?_) is
    · rintro k ⟨ws, hws, -⟩
      cases hws
    · cases hs
      exact endsQuiet_step hr h i
  refine ⟨hiff, fun h pre post b he hb _ => hiff.mpr h pre post b he hb⟩

/-- A member shares its screen and its peer is negotiated; then the connection drops. -/
theorem host_streams_after_close :
    ¬ ∀ is, hook.Throughout (fun b => b.Settled → EndsQuiet b) is := by
  intro h
  have hrun : ((hook.run [.room, .opened 0, .message 0 (.room ⟨"room", "", []⟩), .share, .captured 0,
      .message 0 (.hostSession "s" "p"), .resume 0, .resume 0, .resume 0, .resume 0, .close 0]).map
        fun b => (b.sockets, b.sessions, b.shares, b.host.lookup "s")) =
      some ([⟨.closed, false, true, [.room ⟨"room", "", []⟩, .hostSession "s" "p"]⟩],
        [⟨.host, "s", "p", 0, .settled, false, false⟩], 0, some 0) := by decide +kernel
  obtain ⟨b, hb, hfields⟩ := Option.map_eq_some_iff.mp hrun
  simp only [Prod.mk.injEq] at hfields
  obtain ⟨hsockets, hsessions, hshares, hlookup⟩ := hfields
  have hsettled : b.Settled := ⟨by simp [hsessions], hshares⟩
  have hover : b.Over 0 := ⟨_, by rw [hsockets]; rfl, rfl⟩
  have hquiet := h _ _ [] b (List.append_nil _).symm hb hsettled 0 hover
  have hclosed := hquiet.peers .host "s" 0 _ hlookup (by rw [hsessions]; rfl) rfl
  exact absurd hclosed (by decide)

/-! ## Sharing stops, a session ends -/

/-- **No stored peer is stale**: the peers of calls begun before a `stopShare` are closed in
`host.current`, and those of a session that has ended in both refs. -/
structure NeverStale (b : Hook) : Prop where
  stopped : ∀ m ∈ b.stops, ∀ key n σ, b.host.lookup key = some n → n < m →
    b.sessions[n]? = some σ → σ.closed = true
  ended : ∀ e ∈ b.ends, ∀ side n σ, (b.held.refs side).lookup e.1 = some n →
    b.sessions[n]? = some σ → σ.closed = true

/-- The promises of the first `m` calls have settled. -/
def Hook.SettledBefore (b : Hook) (m : ℕ) : Prop :=
  ∀ n σ, n < m → b.sessions[n]? = some σ → σ.phase = .settled

/-- **No stored peer is stale once the promises begun before have settled.** -/
structure FinallyNotStale (b : Hook) : Prop where
  stopped : ∀ m ∈ b.stops, b.SettledBefore m → ∀ key n σ, b.host.lookup key = some n → n < m →
    b.sessions[n]? = some σ → σ.closed = true
  ended : ∀ e ∈ b.ends, b.SettledBefore e.2 → ∀ side n σ,
    (b.held.refs side).lookup e.1 = some n → b.sessions[n]? = some σ → σ.closed = true

theorem NeverStale.finally (h : NeverStale b) : FinallyNotStale b :=
  ⟨fun m hm _ => h.stopped m hm, fun e he _ => h.ended e he⟩

/-- **Inputs that revive a session**: a peer is stored open though sharing was stopped since its call
began, or though its session has ended. -/
inductive Revives (b : Hook) : HookInput → Prop
  | stopped (n m : ℕ) (σ : Session) (hσ : b.sessions[n]? = some σ) (hphase : σ.phase = .fulfilled)
      (hclosed : σ.closed = false) (hside : σ.side = .host) (hm : m ∈ b.stops) (hn : n < m) :
      Revives b (.resume n)
  | ended (n m : ℕ) (σ : Session) (hσ : b.sessions[n]? = some σ) (hphase : σ.phase = .fulfilled)
      (hclosed : σ.closed = false) (he : (σ.sid, m) ∈ b.ends) : Revives b (.resume n)

/-- A promise changes nothing of the history of `stopShare` and `endshare`. -/
theorem history_resume (b : Hook) (n : ℕ) :
    (b.step (.resume n)).stops = b.stops ∧ (b.step (.resume n)).ends = b.ends := by
  simp only [Hook.step, Hook.resume]
  split
  · exact ⟨rfl, rfl⟩
  · split_ifs
    · unfold Hook.register
      split <;> exact ⟨rfl, rfl⟩
    · exact ⟨rfl, rfl⟩

/-- `stopShare` leaves no peer in `host.current`. -/
theorem stops_step {m : ℕ} (hm : m ∈ (b.step i).stops) : m ∈ b.stops ∨ (b.step i).host = ∅ := by
  generalize hh : (b.step i).held = held
  have hstops : m ∈ held.stops := hh ▸ hm
  have hhost : (b.step i).host = held.host := congrArg Held.host hh
  rw [hhost]
  cases hh ▸ does_step b i with
  | keeps | opens | registers | drops | captures | trackEnds | ends => exact Or.inl hstops
  | stops => exact Or.inr rfl

/-- An `endshare` that has been handled was handled before, or its peers are closed just now. -/
theorem ends_step {e : String × ℕ} (he : e ∈ (b.step i).ends) : e ∈ b.ends ∨
    (∀ n, i ≠ .resume n) ∧ ∀ side n σ, (b.held.refs side).lookup e.1 = some n →
      (b.step i).sessions[n]? = some σ → σ.closed = true := by
  generalize hh : (b.step i).held = held
  have hends : e ∈ held.ends := hh ▸ he
  cases hh ▸ does_step b i with
  | keeps | opens | registers | drops | captures | trackEnds | stops => exact Or.inl hends
  | ends id hclosed =>
    refine (List.mem_append.mp hends).imp_right fun hlast =>
      ⟨fun n => HookInput.noConfusion, fun side n σ hn hσ => ?_⟩
    obtain rfl := List.mem_singleton.mp hlast
    cases side with
    | host => exact hclosed n σ (Or.inl hn) hσ
    | client => exact hclosed n σ (Or.inr hn) hσ

/-- **Stored peers stay fresh** as long as no input revives a session, and no longer. -/
theorem neverStale_step (hr : InRange b) (h : NeverStale b) (i : HookInput) :
    NeverStale (b.step i) ↔ ¬ Revives b i := by
  constructor
  · intro h' hrev
    cases hrev with
    | stopped n m σ hσ hphase hclosed hside hm hn =>
      have hkey := lookup_resume hσ hphase
      rw [hside] at hkey
      have hm' : m ∈ (b.step (.resume n)).stops := by rwa [(history_resume b n).1]
      have hclosed' := h'.stopped m hm' σ.sid n _ hkey hn (sessions_resume hσ hphase)
      exact absurd (hclosed.symm.trans hclosed') (by decide)
    | ended n m σ hσ hphase hclosed he =>
      have he' : (σ.sid, m) ∈ (b.step (.resume n)).ends := by rwa [(history_resume b n).2]
      have hclosed' := h'.ended _ he' σ.side n _ (lookup_resume hσ hphase) (sessions_resume hσ hphase)
      exact absurd (hclosed.symm.trans hclosed') (by decide)
  · intro hrev
    refine ⟨fun m hm key n σ' hkey hn hσ' => ?_, fun e he side n σ' hkey hσ' => ?_⟩
    · have hm' : m ∈ b.stops := (stops_step hm).resolve_right fun he => by simp [he] at hkey
      have hheld : ((b.step i).held.refs .host).lookup key = some n := hkey
      rcases refs_step hheld with hkey | ⟨σ, ⟨rfl, hσ, hphase⟩, hside, -⟩
      · obtain ⟨σ, hσ, hlater⟩ := session_back_of_lt (hr .host key n hkey) hσ'
        exact hlater.closed (h.stopped m hm' key n σ hkey hn hσ)
      · have hlater := later_of_step hσ hσ'
        refine hlater.closed (Bool.of_not_eq_false fun hclosed => hrev ?_)
        exact .stopped n m σ hσ hphase hclosed hside hm' hn
    · rcases refs_step hkey with hkey | ⟨σ, ⟨rfl, hσ, hphase⟩, -, hsid⟩
      · rcases ends_step he with he | ⟨-, hclosed⟩
        · obtain ⟨σ, hσ, hlater⟩ := session_back_of_lt (hr side e.1 n hkey) hσ'
          exact hlater.closed (h.ended e he side n σ hkey hσ)
        · exact hclosed side n σ' hkey hσ'
      · have hlater := later_of_step hσ hσ'
        refine hlater.closed (Bool.of_not_eq_false fun hclosed => hrev ?_)
        refine .ended n e.2 σ hσ hphase hclosed ?_
        rw [hsid]
        exact (ends_step he).resolve_right fun hi => hi.1 n rfl

/-- **No stale peer is stored** in exactly the runs whose inputs revive no session. In these runs,
whatever was begun before `stopShare` or before the `endshare` of its session is closed where it is stored
once the promises begun before have settled. -/
theorem no_stale_peer (is : List HookInput) :
    (hook.Throughout NeverStale is ↔ hook.Meets (fun b i => ¬ Revives b i) is) ∧
      (hook.Meets (fun b i => ¬ Revives b i) is → hook.Throughout FinallyNotStale is) := by
  have hiff : hook.Throughout NeverStale is ↔ hook.Meets (fun b i => ¬ Revives b i) is := by
    refine Machine.meets_iff hook_inRange ⟨fun m hm => (nomatch hm), fun e he => (nomatch he)⟩
      (fun b i b' hr h hs => ?_) is
    cases hs
    exact neverStale_step hr h i
  exact ⟨hiff, fun h pre post b he hb => (hiff.mpr h pre post b he hb).finally⟩

/-- Sharing stops while the offer to a viewer is made; then the viewer's peer is stored. -/
theorem stopped_session_streams : ¬ ∀ is, hook.Throughout FinallyNotStale is := by
  intro h
  have hrun : ((hook.run [.room, .opened 0, .message 0 (.room ⟨"room", "", []⟩), .share, .captured 0,
      .message 0 (.hostSession "s" "p"), .stopShare, .resume 0, .resume 0, .resume 0, .resume 0]).map
        fun b => (b.sessions, b.stops, b.host.lookup "s")) =
      some ([⟨.host, "s", "p", 0, .settled, false, false⟩], [1], some 0) := by decide +kernel
  obtain ⟨b, hb, hfields⟩ := Option.map_eq_some_iff.mp hrun
  simp only [Prod.mk.injEq] at hfields
  obtain ⟨hsessions, hstops, hlookup⟩ := hfields
  have hstale := h _ _ [] b (List.append_nil _).symm hb
  have hsettled : b.SettledBefore 1 := by
    rintro n σ hn hσ
    obtain rfl : n = 0 := by omega
    rw [hsessions] at hσ
    exact (Option.some.inj hσ) ▸ rfl
  have hclosed := hstale.stopped 1 (by simp [hstops]) hsettled "s" 0 _ hlookup (by decide)
    (by rw [hsessions]; rfl)
  exact absurd hclosed (by decide)

end Screego.UseRoom
