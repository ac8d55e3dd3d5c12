import Screego.Deployment
import Screego.Speech

/-!
# The server and the pages in conversation

A deployment in which the connections of the pages carry what the pages say, and nothing else. Of the other
connections nothing is assumed.

* `Conversation`, `Exchange`, `Conversation.step`, `conversation`; `Goes`: what a step does;
* `component_deployment`: the deployment runs inside it;
* `Deployment.Told`: a session that a socket has been told of;
* `Talk`: what the pages have said; `Says`: what a socket says in a step; **`Talk.step`**.
-/

set_option autoImplicit false

namespace Screego

open Lib Outgoing UseRoom

/-! ## The machine -/

/-- **The server, the pages, and what the pages say.** -/
structure Conversation (P : Type) where
  deployment : Deployment P
  /-- What has been handed to the sockets. -/
  outbox : P → ℕ → List Say
  /-- How many messages the reader of the connection is done with. -/
  heard : P → ℕ → ℕ
  /-- The answers that are being made, by their sockets and sessions. -/
  answering : P → List (ℕ × String)
  /-- The socket that speaks for the client. -/
  voices : XID → Option (P × ℕ)

/-- What happens next. -/
inductive Exchange (P : Type) where
  /-- The main loop goes on without a message of a page. -/
  | server (ch : Choice) (i : Input)
  | upgrade (p : P) (k : ℕ) (ch : Choice) (addr : IP) (user : String) (authenticated : Bool)
  | write (p : P) (k : ℕ)
  | drop (p : P) (k : ℕ)
  /-- Something in a page, which may say something. -/
  | page (p : P) (i : HookInput) (hi : i.isMessage = false) (enter : Say) (he : enter.enters = true)
      (offer : String)
  /-- A peer has a candidate. -/
  | candidate (p : P) (n : ℕ) (value : String)
  /-- An answer is ready. -/
  | answer (p : P) (j : ℕ) (value : String)
  /-- `setName`. -/
  | setName (p : P) (username : String)
  /-- `startReading` reads a message of a page, and the main loop handles it. -/
  | read (p : P) (k : ℕ) (ch : Choice)

/-- `websocket.CloseUnsupportedData`. -/
def closeUnsupportedData : ℕ := 1003

section Machine

variable {P : Type} [DecidableEq P] (env : Env) (raw : String → Json) (X : XidReader env)

/-- What reaches the main loop when a message of the client is read. -/
def Say.input {env : Env} (X : XidReader env) (u : XID) (say : Say) : Input :=
  match say.incoming X with
  | some e => .receive u e.event e.fromClient
  | none => .receive u (.disconnected ⟨closeUnsupportedData, "malformed message"⟩) rfl

namespace Conversation

def init : Conversation P :=
  ⟨Deployment.init env, fun _ _ => [], fun _ _ => 0, fun _ => [], fun _ => none⟩

variable (c : Conversation P)

/-- A page says something. -/
def hand (p : P) (y : Option (ℕ × Say)) : Conversation P :=
  match y with
  | some (k, say) => { c with
      outbox := Function.update c.outbox p (Function.update (c.outbox p) k (c.outbox p k ++ [say])) }
  | none => c

/-- A page has more answers to make. -/
def ask (p : P) (l : List (ℕ × String)) : Conversation P :=
  { c with answering := Function.update c.answering p (c.answering p ++ l) }

/-- The input is no message of a page: its connection may end at any time. -/
def outside : Input → Bool
  | .receive _ (.disconnected _) _ => true
  | .receive u _ _ => (c.voices u).isNone
  | _ => true

/-- The message that is read next from a socket, with the client it is from. -/
def next (p : P) (k : ℕ) : Option (XID × Say) :=
  match c.deployment.wires p k, (c.outbox p k)[c.heard p k]? with
  | some x, some say => some (x.client, say)
  | _, _ => none

/-- What the turn is to the deployment. -/
def happening {env : Env} (X : XidReader env) : Exchange P → Option (Happening P)
  | .server ch i => if c.outside i then some (.server ch i) else none
  | .upgrade p k ch addr user authenticated => some (.upgrade p k ch addr user authenticated)
  | .write p k => some (.write p k)
  | .drop p k => some (.drop p k)
  | .page p i hi _ _ _ => some (.page p i hi)
  | .read p k ch => (c.next p k).map fun y => .server ch (y.2.input X y.1)
  | _ => none

/-- **What the turn does apart from the deployment.** -/
def noting (t : Exchange P) : Conversation P :=
  match t with
  | .upgrade p k _ _ _ _ =>
    { c with voices := Function.update c.voices (env.xidNew c.deployment.world.rooms.drawn) (some (p, k)) }
  | .write p k =>
    c.ask p (((Happening.write p k).hookInput env raw c.deployment p).bind
      (c.deployment.pages p).answers).toList
  | .page p i _ enter _ offer => c.hand p ((c.deployment.pages p).speaks enter offer i)
  | .candidate p n value => c.hand p ((c.deployment.pages p).candidate n value)
  | .answer p j value =>
    match (c.answering p)[j]? with
    | some (k, sid) =>
      { c with answering := Function.update c.answering p ((c.answering p).eraseIdx j) }.hand p
        ((c.deployment.pages p).sendOn k (.signal .clientAnswer sid value))
    | none => c
  | .setName p username => c.hand p ((c.deployment.pages p).sendCurrent (.name username))
  | .read p k _ =>
    { c with heard := Function.update c.heard p (Function.update (c.heard p) k (c.heard p k + 1)) }
  | _ => c

/-- **One step**, if it is possible. -/
def step (t : Exchange P) : Option (Conversation P) :=
  match t with
  | .candidate .. | .answer .. | .setName .. => some (c.noting env raw t)
  | t => do
    let a ← c.happening X t
    let d ← c.deployment.step env raw a
    some { c.noting env raw t with deployment := d }

end Conversation

variable (P) in
/-- **The machine of the conversation.** -/
def conversation : Machine (Conversation P) (Exchange P) where
  init := Conversation.init env
  step := Conversation.step env raw X

end Machine

variable {P : Type} [DecidableEq P] {env : Env} {raw : String → Json} {X : XidReader env}
  {c c' : Conversation P} {d d' : Deployment P} {t : Exchange P} {a : Happening P} {p : P} {k : ℕ}

/-! ## The deployment in it -/

variable (env raw X c) in
/-- **What a step does**: the deployment goes on, or a page only says something. -/
inductive Goes : Exchange P → Conversation P → Prop
  | on {t : Exchange P} {a : Happening P} {d : Deployment P} (ha : c.happening X t = some a)
      (hd : c.deployment.step env raw a = some d) : Goes t { c.noting env raw t with deployment := d }
  | candidate (p : P) (n : ℕ) (value : String) :
      Goes (.candidate p n value) (c.hand p ((c.deployment.pages p).candidate n value))
  | answer {p : P} {j k : ℕ} {sid : String} (value : String) (hj : (c.answering p)[j]? = some (k, sid)) :
      Goes (.answer p j value)
        ({ c with answering := Function.update c.answering p ((c.answering p).eraseIdx j) }.hand p
          ((c.deployment.pages p).sendOn k (.signal .clientAnswer sid value)))
  | unasked (p : P) (j : ℕ) (value : String) : Goes (.answer p j value) c
  | setName (p : P) (username : String) :
      Goes (.setName p username) (c.hand p ((c.deployment.pages p).sendCurrent (.name username)))

theorem goes_of_step (hs : c.step env raw X t = some c') : Goes env raw X c t c' := by
  have hon : ∀ {t : Exchange P}, (do
      let a ← c.happening X t
      let d ← c.deployment.step env raw a
      some { c.noting env raw t with deployment := d }) = some c' → Goes env raw X c t c' := by
    intro t hs
    obtain ⟨a, ha, hs⟩ := Option.bind_eq_some_iff.mp hs
    obtain ⟨d, hd, hs⟩ := Option.bind_eq_some_iff.mp hs
    exact Option.some.inj hs ▸ .on ha hd
  cases t with
  | candidate p n value => exact Option.some.inj hs ▸ .candidate p n value
  | answer p j value =>
    obtain rfl := Option.some.inj hs
    simp only [Conversation.noting]
    split
    case h_1 k sid hj => exact .answer value hj
    case h_2 => exact .unasked p j value
  | setName p username => exact Option.some.inj hs ▸ .setName p username
  | server | upgrade | write | drop | page | read => exact hon hs

@[simp] theorem deployment_hand (c : Conversation P) (p : P) (y : Option (ℕ × Say)) :
    (c.hand p y).deployment = c.deployment := by cases y <;> rfl

/-- **The deployment runs inside the conversation.** -/
theorem component_deployment (env : Env) (raw : String → Json) (X : XidReader env) :
    (deployment P env raw).Component (conversation P env raw X) Conversation.deployment
      fun c t => (c.happening X t).toList where
  init := rfl
  step c t c' d _ hd hs _ := by
    subst hd
    cases goes_of_step hs with
    | @on t a d ha hd =>
      refine ⟨d, ?_, rfl⟩
      rw [ha]
      exact (Machine.runFrom_singleton _ _).trans hd
    | candidate | answer | setName => exact ⟨_, rfl, deployment_hand ..⟩
    | unasked => exact ⟨_, rfl, rfl⟩

/-! ## What a socket has been told -/

/-- The message announces the session to one of its sides. -/
def Outgoing.Message.Invites (side : Side) (id : XID) : Message → Prop
  | .hostSession q => side = .host ∧ q.id = id
  | .clientSession q => side = .client ∧ q.id = id
  | _ => False

/-- **The socket's client has been told of the session**, as one of its sides. -/
def Deployment.Told (env : Env) (d : Deployment P) (p : P) (k : ℕ) (side : Side) (sid : String) : Prop :=
  ∃ x id, d.wires p k = some x ∧ sid = env.xidString id ∧ ∃ m ∈ d.world.log x.client, m.Invites side id

/-- A wire stays with its client. -/
theorem wires_step {x : Wire} (hs : d.step env raw a = some d') (hx : d.wires p k = some x) :
    ∃ x', d'.wires p k = some x' ∧ x'.client = x.client := by
  have hset : ∀ {d₁ : Deployment P} {p' : P} {k' : ℕ} {y : Wire}, d₁.wires = d.wires →
      (∀ x', d.wires p' k' = some x' → y.client = x'.client) →
      ∃ x', (d₁.setWire p' k' y).wires p k = some x' ∧ x'.client = x.client := by
    intro d₁ p' k' y hd₁ hy
    rw [wires_setWire]
    split_ifs with h
    · obtain ⟨rfl, rfl⟩ := h
      exact ⟨y, rfl, hy x hx⟩
    · exact ⟨x, by rw [hd₁, hx], rfl⟩
  cases happens_of_step hs with
  | server => exact ⟨x, hx, rfl⟩
  | upgrade hnew => exact hset rfl fun x' hx' => by rw [hnew] at hx'; cases hx'
  | write hx₁ => exact hset rfl fun x' hx' => by rw [hx₁] at hx'; cases hx'; rfl
  | drop hx₁ => exact hset rfl fun x' hx' => by rw [hx₁] at hx'; cases hx'; rfl
  | page => exact ⟨x, hx, rfl⟩

/-- The logs grow. -/
theorem log_step (hok : d.world.Ok env) (hs : d.step env raw a = some d') (u : XID) :
    d.world.log u <+: d'.world.log u := by
  have hgrow : ∀ {ch i w}, d.world.step env (ch, i) = some w → d.world.log u <+: w.log u := by
    intro ch i w hw
    have hch := hok.change_of_step hw
    exact hch.log_prefix u
  cases happens_of_step hs with
  | server hw => exact hgrow hw
  | upgrade _ hw => exact hgrow hw
  | write | drop | page => exact List.prefix_rfl

theorem Deployment.Told.step {side : Side} {sid : String} (h : d.Told env p k side sid)
    (hok : d.world.Ok env) (hs : d.step env raw a = some d') : d'.Told env p k side sid := by
  obtain ⟨x, id, hx, hsid, m, hm, hinvites⟩ := h
  obtain ⟨x', hx', hclient⟩ := wires_step hs hx
  exact ⟨x', id, hx', hsid, m, (log_step hok hs _).subset (hclient ▸ hm), hinvites⟩

omit [DecidableEq P] in
/-- What a socket has handled is in the log of its client. -/
theorem WiresOk.mem_log (h : WiresOk env d) {event : Frame} (hevent : event ∈ (d.pages p).framesOf k) :
    ∃ x m, d.wires p k = some x ∧ m ∈ d.world.log x.client ∧ frame env m = some event := by
  cases hx : d.wires p k with
  | none =>
    rw [h.unwired p k hx] at hevent
    exact absurd hevent List.not_mem_nil
  | some x =>
    obtain ⟨m, hm, hframe⟩ := (h.wired p k x hx).mem_log hevent
    exact ⟨x, m, rfl, hm, hframe⟩

/-- What an announcement was. -/
theorem invites_of_frame {m : Message} {σ : Session} (h : frame env m = some σ.announcement) :
    ∃ id, σ.sid = env.xidString id ∧ m.Invites σ.side id := by
  unfold Session.announcement at h
  cases hside : σ.side <;> rw [hside] at h <;> cases m <;>
    simp only [frame, Option.some.injEq, reduceCtorEq, Frame.hostSession.injEq,
      Frame.clientSession.injEq] at h
  · exact ⟨_, h.1.symm, rfl, rfl⟩
  · exact ⟨_, h.1.symm, rfl, rfl⟩

omit [DecidableEq P] in
/-- **A call has been announced** to the client of its socket. -/
theorem told_of_session (h : WiresOk env d) (ha : UseRoom.Announced (d.pages p)) {σ : Session}
    (hσ : σ ∈ (d.pages p).sessions) : d.Told env p σ.ws σ.side σ.sid := by
  obtain ⟨x, m, hx, hm, hframe⟩ := h.mem_log (ha σ hσ)
  obtain ⟨id, hsid, hinvites⟩ := invites_of_frame hframe
  exact ⟨x, id, hx, hsid, m, hm, hinvites⟩

omit [DecidableEq P] in
/-- **Who has got an offer** was told of the session before. -/
theorem told_of_offer {x : Wire} {m : Message} {sid : String} (hsig : SignalsOk d.world)
    (hx : d.wires p k = some x) (hm : m ∈ d.world.log x.client)
    (hoffer : frame env m = some (.hostOffer sid)) : d.Told env p k .client sid := by
  obtain ⟨q, rfl, rfl⟩ : ∃ q, m = .hostOffer q ∧ sid = env.xidString q.sid := by
    cases m <;> simp only [frame, Option.some.injEq, reduceCtorEq, Frame.hostOffer.injEq] at hoffer
    exact ⟨_, rfl, hoffer.symm⟩
  obtain ⟨pre, post, hlog⟩ := List.append_of_mem hm
  obtain ⟨y, hy, q', rfl, hid⟩ := (((hsig x.client) pre _ post hlog) q).1 (Or.inl rfl) |>.exists_mem
  refine ⟨x, q.sid, hx, rfl, .clientSession q', ?_, rfl, hid⟩
  rw [hlog]
  exact List.mem_append_left _ hy

/-! ## What the pages have said -/

/-- **The first message, and no other, asks to enter.** -/
def EntersFirst (l : List Say) : Prop := ∀ i say, l[i]? = some say → (say.enters = true ↔ i = 0)

theorem EntersFirst.concat {l : List Say} (h : EntersFirst l) {say : Say} (hsay : say.enters = true ↔ l = []) :
    EntersFirst (l ++ [say]) := by
  intro i say' hi
  rcases Nat.lt_trichotomy i l.length with hlt | rfl | hgt
  · rw [List.getElem?_append_left hlt] at hi
    exact h i say' hi
  · rw [List.getElem?_concat_length] at hi
    obtain rfl := Option.some.inj hi
    rw [hsay, List.length_eq_zero_iff]
  · rw [List.getElem?_eq_none (by rw [List.length_append, List.length_singleton]; omega)] at hi
    cases hi

/-- **What the pages have said**: a socket that is open has asked to enter; and what a page says of a
session, and the answers it makes, are of sessions that it has been told of. -/
structure Talk (env : Env) (c : Conversation P) : Prop where
  mute : ∀ p k, (c.deployment.pages p).stateOf k = none ∨
    (c.deployment.pages p).stateOf k = some .connecting → c.outbox p k = []
  spoken : ∀ p k, (c.deployment.pages p).stateOf k = some .opened → c.outbox p k ≠ []
  entersFirst : ∀ p k, EntersFirst (c.outbox p k)
  told : ∀ p k kind sid value, .signal kind sid value ∈ c.outbox p k →
    c.deployment.Told env p k (sideOf kind) sid
  asked : ∀ p y, y ∈ c.answering p → c.deployment.Told env p y.1 .client y.2

/-- **What a socket says in a step.** -/
inductive Says (told : Side → String → Prop) (st st' : Option ReadyState) (l : List Say) : List Say → Prop
  | quiet (h : Ages st st' ∨ (st = none ∧ st' = some .connecting)) : Says told st st' l l
  | opens {say : Say} (hst : st = some .connecting) (hst' : st' = some .opened) (he : say.enters = true) :
      Says told st st' l (l ++ [say])
  | more {say : Say} (hst : st = some .opened) (h : Ages st st') (he : say.enters = false)
      (htold : ∀ kind sid value, say = .signal kind sid value → told (sideOf kind) sid) :
      Says told st st' l (l ++ [say])

omit [DecidableEq P] in
/-- **One step.** -/
theorem Talk.of_says (h : Talk env c) (hmono : ∀ {p k side sid},
      c.deployment.Told env p k side sid → c'.deployment.Told env p k side sid)
    (hspoken : ∀ p k, Says (c'.deployment.Told env p k) ((c.deployment.pages p).stateOf k)
      ((c'.deployment.pages p).stateOf k) (c.outbox p k) (c'.outbox p k))
    (hasked : ∀ p y, y ∈ c'.answering p → y ∈ c.answering p ∨ c'.deployment.Told env p y.1 .client y.2) :
    Talk env c' where
  mute p k hst' := by
    generalize hl : c'.outbox p k = l
    cases hl ▸ hspoken p k with
    | quiet hages =>
      refine h.mute p k ?_
      rcases hages with hages | ⟨hnone, -⟩
      · exact hst'.imp (hages.back (by simp)) (hages.back (by simp))
      · exact Or.inl hnone
    | opens _ hopened => simp [hopened] at hst'
    | more hst hages =>
      rcases hst' with hst' | hst'
      · exact absurd (hst.symm.trans (hages.back (by simp) hst')) (by simp)
      · exact absurd (hst.symm.trans (hages.back (by simp) hst')) (by simp)
  spoken p k hst' := by
    generalize hl : c'.outbox p k = l
    cases hl ▸ hspoken p k with
    | quiet hages =>
      rcases hages with hages | ⟨-, hconnecting⟩
      · exact h.spoken p k (hages.back (by simp) hst')
      · exact absurd (hconnecting.symm.trans hst') (by simp)
    | opens | more => simp
  entersFirst p k := by
    generalize hl : c'.outbox p k = l
    cases hl ▸ hspoken p k with
    | quiet => exact h.entersFirst p k
    | opens hst _ he => exact (h.entersFirst p k).concat (iff_of_true he (h.mute p k (Or.inr hst)))
    | more hst _ he =>
      exact (h.entersFirst p k).concat (iff_of_false (by simp [he]) (h.spoken p k hst))
  told p k kind sid value hmem := by
    generalize hl : c'.outbox p k = l at hmem
    cases hl ▸ hspoken p k with
    | quiet => exact hmono (h.told p k kind sid value hmem)
    | opens _ _ he =>
      rcases List.mem_append.mp hmem with hmem | hmem
      · exact hmono (h.told p k kind sid value hmem)
      · rw [← List.mem_singleton.mp hmem] at he
        cases he
    | more _ _ _ htold =>
      rcases List.mem_append.mp hmem with hmem | hmem
      · exact hmono (h.told p k kind sid value hmem)
      · exact htold kind sid value (List.mem_singleton.mp hmem).symm
  asked p y hy := (hasked p y hy).elim (fun hy => hmono (h.asked p y hy)) id

/-! ## What one step says -/

/-- What is handed to the sockets. -/
theorem outbox_hand (c : Conversation P) (p p' : P) (y : Option (ℕ × Say)) (k' : ℕ) :
    (c.hand p y).outbox p' k' = c.outbox p' k' ∨ ∃ say, p' = p ∧ y = some (k', say) ∧
      (c.hand p y).outbox p' k' = c.outbox p' k' ++ [say] := by
  cases y with
  | none => exact Or.inl rfl
  | some y =>
    obtain ⟨k, say⟩ := y
    show Function.update c.outbox p _ p' k' = _ ∨ _
    by_cases hp : p' = p
    · subst hp
      rw [Function.update_self]
      by_cases hk : k' = k
      · subst hk
        rw [Function.update_self]
        exact Or.inr ⟨say, rfl, rfl, by simp [Conversation.hand]⟩
      · exact Or.inl (Function.update_of_ne hk _ _)
    · rw [Function.update_of_ne hp]
      exact Or.inl rfl

/-- A page that goes on without an event of a socket says something on an open one. -/
theorem says_hand {y : Option (ℕ × Say)} (hy : ∀ k say, y = some (k, say) →
      (c.deployment.pages p).stateOf k = some .opened ∧ say.enters = false ∧
        ∀ kind sid value, say = .signal kind sid value → c.deployment.Told env p k (sideOf kind) sid)
    (p' : P) (k' : ℕ) : Says (c.deployment.Told env p' k') ((c.deployment.pages p').stateOf k')
      ((c.deployment.pages p').stateOf k') (c.outbox p' k') ((c.hand p y).outbox p' k') := by
  rcases outbox_hand c p p' y k' with he | ⟨say, rfl, rfl, he⟩
  · rw [he]
    exact .quiet (Or.inl (.refl _))
  · obtain ⟨hopened, henters, htold⟩ := hy k' say rfl
    rw [he]
    exact .more hopened (.refl _) henters htold

/-- **What a step of the deployment does to the state of a socket.** -/
theorem ages_pages (hs : d.step env raw a = some d') (p : P) (k : ℕ) :
    Ages ((d.pages p).stateOf k) ((d'.pages p).stateOf k) ∨
      ((d.pages p).stateOf k = none ∧ (d'.pages p).stateOf k = some .connecting) ∨
      (a.hookInput env raw d p = some (.opened k) ∧ (d.pages p).stateOf k = some .connecting ∧
        (d'.pages p).stateOf k = some .opened) := by
  rw [pages_step hs p]
  cases hi : a.hookInput env raw d p with
  | none => exact Or.inl (.refl _)
  | some i =>
    rcases ages_step (d.pages p) i k with h | h | ⟨rfl, h⟩
    · exact Or.inl h
    · exact Or.inr (Or.inl h)
    · exact Or.inr (Or.inr ⟨rfl, h⟩)

/-- A step in which no page says anything, and no socket opens. -/
theorem says_quiet {told : Side → String → Prop} {l : List Say} (hs : d.step env raw a = some d') (p : P)
    (k : ℕ) (hno : a.hookInput env raw d p ≠ some (.opened k)) :
    Says told ((d.pages p).stateOf k) ((d'.pages p).stateOf k) l l := by
  rcases ages_pages hs p k with h | h | ⟨h, -⟩
  · exact .quiet (Or.inl h)
  · exact .quiet (Or.inr h)
  · exact absurd h hno

/-- **A page says something as it goes on.** -/
theorem says_page {i : HookInput} {hi : i.isMessage = false} {enter : Say} (he : enter.enters = true)
    {offer : String} (hs : c.deployment.step env raw (.page p i hi) = some d')
    (hown : ∀ k say, (c.deployment.pages p).Owns k say → ∀ kind sid value, say = .signal kind sid value →
      d'.Told env p k (sideOf kind) sid) (p' : P) (k' : ℕ) :
    Says (d'.Told env p' k') ((c.deployment.pages p').stateOf k') ((d'.pages p').stateOf k')
      (c.outbox p' k') ((c.hand p ((c.deployment.pages p).speaks enter offer i)).outbox p' k') := by
  rcases outbox_hand c p p' ((c.deployment.pages p).speaks enter offer i) k' with hq | ⟨say, rfl, hy, hq⟩
  · rw [hq]
    rcases ages_pages hs p' k' with h | h | ⟨h, hconnecting, -⟩
    · exact .quiet (Or.inl h)
    · exact .quiet (Or.inr h)
    -- the page has said something then
    exfalso
    simp only [Happening.hookInput] at h
    split_ifs at h with hp
    obtain rfl := hp
    obtain rfl := Option.some.inj h
    simp only [Hook.speaks, if_pos hconnecting] at hq
    have hlen := congrArg List.length hq
    simp [Conversation.hand] at hlen
  rw [hq]
  have hages := ages_pages hs p' k'
  rcases speaks_cases hy with ⟨rfl, rfl, hconnecting⟩ | ⟨hopened, henters, howns⟩
  · refine .opens hconnecting ?_ he
    rw [pages_step hs p', show (Happening.page p' (.opened k') hi).hookInput env raw c.deployment p' =
      some (.opened k') from if_pos rfl]
    exact (stateOf_onOpen _ _ _).trans (if_pos ⟨rfl, hconnecting⟩)
  · refine .more hopened ?_ henters (hown k' say howns)
    rcases hages with h | ⟨h, -⟩ | ⟨-, h, -⟩
    · exact h
    · exact absurd (hopened.symm.trans h) (by simp)
    · exact absurd (hopened.symm.trans h) (by simp)

/-! ## What the pages have said so far -/

/-- **What is known of a deployment.** -/
structure Sound (env : Env) (d : Deployment P) : Prop where
  ok : d.world.Ok env
  log : LogOk d.world
  story : StoryOk env d.world
  signals : SignalsOk d.world
  wires : WiresOk env d
  announced : ∀ p, UseRoom.Announced (d.pages p)

theorem deployment_sound (env : Env) (raw : String → Json) :
    (deployment P env raw).Safe (Sound env) := by
  have hstory : (server env).Always fun w => (w.Ok env ∧ LogOk w ∧ StoryOk env w) ∧ SignalsOk w :=
    server_story_always (fun _ => guarded_nil) fun _ _ _ _ _ hs hsig hch => hsig.change hs hch
  intro is d hd
  obtain ⟨⟨hok, hlog, hstory⟩, hsig⟩ := (component_server env raw).safe hstory is d hd
  exact ⟨hok, hlog, hstory, hsig, (deployment_wiresOk env raw is d hd).2, fun p =>
    (component_hook env raw p).safe hook_announced is d hd⟩

omit [DecidableEq P] in
theorem Talk.init : Talk env (Conversation.init env : Conversation P) where
  mute _ _ _ := rfl
  spoken p k h := by
    cases h
  entersFirst p k i say h := by
    cases h
  told p k kind sid value h := by
    cases h
  asked p y h := by
    cases h

/-- Whoever makes an answer has got the offer. -/
theorem told_of_answers (hd : Sound env d) {y : ℕ × String}
    (hy : y ∈ (((Happening.write p k).hookInput env raw d p).bind (d.pages p).answers).toList) :
    d.Told env p y.1 .client y.2 := by
  obtain ⟨i, hi, hy⟩ := Option.bind_eq_some_iff.mp (Option.mem_toList.mp hy)
  obtain ⟨rfl, -⟩ := answers_cases hy
  simp only [Happening.hookInput, if_pos] at hi
  obtain ⟨x, hx, hi⟩ := Option.bind_eq_some_iff.mp hi
  obtain ⟨m, hm, hi⟩ := Option.map_eq_some_iff.mp hi
  rw [arrival_eq] at hi
  split at hi
  case h_2 => cases hi
  case h_1 event hframe =>
    obtain ⟨rfl, rfl⟩ := HookInput.message.inj hi
    exact told_of_offer hd.signals hx (List.mem_of_getElem? hm) hframe

omit [DecidableEq P] in
/-- A call belongs to a session that its socket has been told of. -/
theorem told_of_owns (hd : Sound env d) {say : Say} (h : (d.pages p).Owns k say) (kind : Signal)
    (sid value : String) (he : say = .signal kind sid value) : d.Told env p k (sideOf kind) sid := by
  obtain ⟨σ, hσ, rfl, rfl, hside⟩ := h kind sid value he
  exact hside ▸ told_of_session hd.wires (hd.announced p) hσ

/-- The page says something on its own. -/
theorem Talk.hand (h : Talk env c) {p : P} {y : Option (ℕ × Say)} (hy : ∀ k say, y = some (k, say) →
      (c.deployment.pages p).stateOf k = some .opened ∧ say.enters = false ∧
        ∀ kind sid value, say = .signal kind sid value → c.deployment.Told env p k (sideOf kind) sid) :
    Talk env (c.hand p y) := by
  refine h.of_says (fun ht => by rwa [deployment_hand]) (fun p' k' => ?_) fun p' z hz => Or.inl ?_
  · rw [deployment_hand]
    exact says_hand hy p' k'
  · cases y <;> exact hz

/-- An answer is no longer to be made. -/
theorem Talk.answered (h : Talk env c) (p : P) (j : ℕ) : Talk env
    { c with answering := Function.update c.answering p ((c.answering p).eraseIdx j) } where
  mute := h.mute
  spoken := h.spoken
  entersFirst := h.entersFirst
  told := h.told
  asked p' z hz := by
    simp only [Function.update_apply] at hz
    split_ifs at hz with hp
    · exact h.asked p' z (hp ▸ List.mem_of_mem_eraseIdx hz)
    · exact h.asked p' z hz

/-- The page gets no event of a socket that opens. -/
theorem hookInput_ne_opened {i : HookInput} (ha : ∀ p i hi, a ≠ .page p i hi)
    (h : a.hookInput env raw d p = some i) (k : ℕ) : i ≠ .opened k := by
  cases a with
  | page p i hi => exact absurd rfl (ha p i hi)
  | write p' k' =>
    simp only [Happening.hookInput] at h
    split_ifs at h
    obtain ⟨x, -, h⟩ := Option.bind_eq_some_iff.mp h
    obtain ⟨m, -, rfl⟩ := Option.map_eq_some_iff.mp h
    rw [arrival_eq]
    split <;> simp
  | server | upgrade | drop => cases h

/-- **What a step says.** -/
theorem Talk.step (h : Talk env c) (hd : Sound env c.deployment) (hs : c.step env raw X t = some c') :
    Talk env c' := by
  cases goes_of_step hs with
  | candidate p n value =>
    refine h.hand fun k say hy => ?_
    obtain ⟨hopened, henters, howns⟩ := candidate_cases hy
    exact ⟨hopened, henters, told_of_owns hd howns⟩
  | @answer p j k sid value hj =>
    refine (h.answered p j).hand fun k' say hy => ?_
    obtain ⟨hy, hopened⟩ := Hook.sendOn_eq_some hy
    obtain ⟨rfl, rfl⟩ := Prod.mk.inj hy
    refine ⟨hopened, rfl, fun kind sid' value' e => ?_⟩
    obtain ⟨rfl, rfl, -⟩ := Say.signal.inj e
    exact h.asked p _ (List.mem_of_getElem? hj)
  | unasked => exact h
  | setName p username =>
    refine h.hand fun k say hy => ?_
    obtain ⟨hopened, rfl, howns⟩ := Hook.sendCurrent_cases hy (by simp)
    exact ⟨hopened, rfl, told_of_owns hd howns⟩
  | @on t a d ha hstep =>
    have hmono : ∀ {p k side sid}, c.deployment.Told env p k side sid → d.Told env p k side sid :=
      fun ht => ht.step hd.ok hstep
    have hquiet : (∀ p i hi, a ≠ .page p i hi) → ∀ p k, Says (d.Told env p k)
        ((c.deployment.pages p).stateOf k) ((d.pages p).stateOf k) (c.outbox p k) (c.outbox p k) :=
      fun hno p k => says_quiet hstep p k fun hi => hookInput_ne_opened hno hi k rfl
    cases t with
    | candidate | answer | setName => cases ha
    | server ch i =>
      simp only [Conversation.happening] at ha
      split_ifs at ha
      cases ha
      exact h.of_says hmono (hquiet (by simp)) fun p y hy => Or.inl hy
    | upgrade | drop =>
      cases ha
      exact h.of_says hmono (hquiet (by simp)) fun p y hy => Or.inl hy
    | read p k ch =>
      obtain ⟨y, -, rfl⟩ := Option.map_eq_some_iff.mp ha
      exact h.of_says hmono (hquiet (by simp)) fun p y hy => Or.inl hy
    | write p k =>
      cases ha
      refine h.of_says hmono (hquiet (by simp)) fun p' y hy => ?_
      simp only [Conversation.noting, Conversation.ask, Function.update_apply] at hy
      split_ifs at hy with hp
      · subst hp
        exact (List.mem_append.mp hy).imp_right fun hy => hmono (told_of_answers hd hy)
      · exact Or.inl hy
    | page p i hi enter he offer =>
      cases ha
      refine h.of_says hmono (fun p' k' => ?_) fun p' y hy => Or.inl ?_
      · exact says_page he hstep
          (fun k say howns kind sid value e => hmono (told_of_owns hd howns kind sid value e)) p' k'
      · simp only [Conversation.noting] at hy
        generalize (c.deployment.pages p).speaks enter offer i = z at hy
        cases z <;> exact hy

end Screego
