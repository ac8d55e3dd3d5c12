import Screego.HookState
import Screego.Lib.Simulation
import Screego.Moments
import Screego.Protocol
import Screego.Wire

/-!
# The server and the pages

The main loop together with any number of pages, each with its own hook and its sockets. The writer of a
connection writes the log of its client to its socket, message by message; a message that the write
channel does not take in time is lost. What a page sends is not looked at: any client may say anything
at any time.

* `Wire`, `Deployment`, `Happening`, `Deployment.step`;
* `Deployment.Intact`: what a socket has handled of the log of its client;
* `Presents`: a `RoomInfo` is that of a room, for one of its users;
* `lastRoom_frames`: the room that the hook takes to be the last one;
* **`pages_show_their_rooms`**.
-/

set_option autoImplicit false

namespace Screego

open Lib Outgoing UseRoom

/-! ## The machine -/

/-- **The connection behind a socket.** -/
structure Wire where
  client : XID
  /-- How many messages of its log the writer is done with. -/
  written : ℕ
  /-- The page has handled all of them. -/
  intact : Bool

/-- **The server and the pages.** -/
structure Deployment (P : Type) where
  world : World
  pages : P → Hook
  wires : P → ℕ → Option Wire

/-- The input is a frame. -/
def UseRoom.HookInput.isMessage : HookInput → Bool
  | .message _ _ => true
  | _ => false

/-- What happens next. -/
inductive Happening (P : Type) where
  /-- The main loop goes on, for a connection of a page or of anybody else. -/
  | server (ch : Choice) (i : Input)
  /-- The request of a socket is upgraded. -/
  | upgrade (p : P) (k : ℕ) (ch : Choice) (addr : IP) (user : String) (authenticated : Bool)
  /-- `startWriteHandler` writes a message, and the page handles it. -/
  | write (p : P) (k : ℕ)
  /-- `writeTimeout` drops a message. -/
  | drop (p : P) (k : ℕ)
  /-- Anything else in a page: also the end of a connection, at any time. -/
  | page (p : P) (i : HookInput) (hi : i.isMessage = false)

section Machine

variable {P : Type} [DecidableEq P] (env : Env) (raw : String → Json)

/-- What the writer makes of a message, for the page: a frame, or the end of the connection. -/
def arrival (k : ℕ) (m : Message) : HookInput :=
  match Frame.ofTyped (toTypedOutgoing env raw m) with
  | some event => .message k event
  | none => .close k

namespace Deployment

def init : Deployment P := ⟨World.init env, fun _ => Hook.init, fun _ _ => none⟩

variable (d : Deployment P)

/-- The wire behind a socket is now `x`. -/
def setWire (p : P) (k : ℕ) (x : Wire) : Deployment P :=
  { d with wires := Function.update d.wires p (Function.update (d.wires p) k (some x)) }

/-- The page gets an input. -/
def setPage (p : P) (i : HookInput) : Deployment P :=
  { d with pages := Function.update d.pages p ((d.pages p).step i) }

/-- **One step**, if it is possible. -/
def step : Happening P → Option (Deployment P)
  | .server ch i => (d.world.step env (ch, i)).map fun w => { d with world := w }
  | .upgrade p k ch addr user authenticated =>
    match d.wires p k with
    | some _ => none
    | none =>
      if k < (d.pages p).sockets.length then
        (d.world.step env (ch, .upgrade addr user authenticated)).map fun w =>
          { d with world := w }.setWire p k ⟨env.xidNew d.world.rooms.drawn, 0, true⟩
      else none
  | .write p k => do
    let x ← d.wires p k
    let m ← (d.world.log x.client)[x.written]?
    let ws ← (d.pages p).sockets[k]?
    if ws.readyState = .connecting then none
    else
      -- a socket that is not open delivers nothing
      let intact := x.intact && ws.readyState = .opened && !decide m.IsClose
      some ((d.setPage p (arrival env raw k m)).setWire p k ⟨x.client, x.written + 1, intact⟩)
  | .drop p k => do
    let x ← d.wires p k
    let _ ← (d.world.log x.client)[x.written]?
    some (d.setWire p k ⟨x.client, x.written + 1, false⟩)
  | .page p i _ => some (d.setPage p i)

end Deployment

variable (P) in
/-- **The machine of the deployment.** -/
def deployment : Machine (Deployment P) (Happening P) where
  init := Deployment.init env
  step := Deployment.step env raw

/-- What happens to the page. -/
def Happening.hookInput (d : Deployment P) (p : P) : Happening P → Option HookInput
  | .page p' i _ => if p' = p then some i else none
  | .write p' k =>
    if p' = p then (d.wires p' k).bind fun x => ((d.world.log x.client)[x.written]?).map (arrival env raw k)
    else none
  | _ => none

end Machine

variable {P : Type} [DecidableEq P] {env : Env} {raw : String → Json} {d d' : Deployment P}
  {a : Happening P} {p : P} {k : ℕ} {x : Wire}

/-! ## What one step does -/

section Steps

@[simp] theorem wires_setWire (d : Deployment P) (p p' : P) (k k' : ℕ) (x : Wire) :
    (d.setWire p k x).wires p' k' = if p' = p ∧ k' = k then some x else d.wires p' k' := by
  simp only [Deployment.setWire, Function.update_apply]
  by_cases hp : p' = p
  · subst hp
    by_cases hk : k' = k <;> simp [hk]
  · simp [hp]

@[simp] theorem pages_setPage (d : Deployment P) (p p' : P) (i : HookInput) :
    (d.setPage p i).pages p' = if p' = p then (d.pages p).step i else d.pages p' :=
  Function.update_apply _ _ _ _

/-- **What one step does**: the main loop goes on, a message is written or dropped, or a page goes on. -/
inductive Happens (env : Env) (raw : String → Json) (d : Deployment P) :
    Happening P → Deployment P → Prop
  | server {ch : Choice} {i : Input} {w : World} (hw : d.world.step env (ch, i) = some w) :
      Happens env raw d (.server ch i) { d with world := w }
  | upgrade {p : P} {k : ℕ} {ch : Choice} {addr : IP} {user : String} {authenticated : Bool} {w : World}
      (hnew : d.wires p k = none)
      (hw : d.world.step env (ch, .upgrade addr user authenticated) = some w) :
      Happens env raw d (.upgrade p k ch addr user authenticated)
        ({ d with world := w }.setWire p k ⟨env.xidNew d.world.rooms.drawn, 0, true⟩)
  | write {p : P} {k : ℕ} {x : Wire} {m : Message} {ws : Socket} (hx : d.wires p k = some x)
      (hm : (d.world.log x.client)[x.written]? = some m) (hws : (d.pages p).sockets[k]? = some ws) :
      Happens env raw d (.write p k) ((d.setPage p (arrival env raw k m)).setWire p k
        ⟨x.client, x.written + 1, x.intact && ws.readyState = .opened && !decide m.IsClose⟩)
  | drop {p : P} {k : ℕ} {x : Wire} {m : Message} (hx : d.wires p k = some x)
      (hm : (d.world.log x.client)[x.written]? = some m) :
      Happens env raw d (.drop p k) (d.setWire p k ⟨x.client, x.written + 1, false⟩)
  | page {p : P} {i : HookInput} (hi : i.isMessage = false) :
      Happens env raw d (.page p i hi) (d.setPage p i)

theorem happens_of_step (h : d.step env raw a = some d') : Happens env raw d a d' := by
  cases a with
  | server ch i =>
    obtain ⟨w, hw, rfl⟩ := Option.map_eq_some_iff.mp h
    exact .server hw
  | upgrade p k ch addr user authenticated =>
    simp only [Deployment.step] at h
    split at h
    · cases h
    · rename_i hnew
      split_ifs at h
      obtain ⟨w, hw, rfl⟩ := Option.map_eq_some_iff.mp h
      exact .upgrade hnew hw
  | write p k =>
    obtain ⟨x, hx, h⟩ := Option.bind_eq_some_iff.mp h
    obtain ⟨m, hm, h⟩ := Option.bind_eq_some_iff.mp h
    obtain ⟨ws, hws, h⟩ := Option.bind_eq_some_iff.mp h
    split_ifs at h
    cases h
    exact .write hx hm hws
  | drop p k =>
    obtain ⟨x, hx, h⟩ := Option.bind_eq_some_iff.mp h
    obtain ⟨m, hm, h⟩ := Option.bind_eq_some_iff.mp h
    cases h
    exact .drop hx hm
  | page p i hi =>
    cases h
    exact .page hi

/-- What an arrival is: the frame of a message, or the end. -/
theorem arrival_eq (k : ℕ) (m : Message) : arrival env raw k m =
    match frame env m with
    | some event => .message k event
    | none => .close k := by
  rw [arrival, ofTyped_toTypedOutgoing]

end Steps

/-! ## The parts -/

/-- What happens to the main loop. -/
def Happening.input : Happening P → List (Choice × Input)
  | .server ch i => [(ch, i)]
  | .upgrade _ _ ch addr user authenticated => [(ch, .upgrade addr user authenticated)]
  | _ => []

/-- The main loop runs inside the deployment. -/
theorem component_server (env : Env) (raw : String → Json) :
    (server env).Component (deployment P env raw) Deployment.world fun _ a => a.input where
  init := rfl
  step d a d' w _ hd hs _ := by
    obtain rfl := hd
    cases happens_of_step hs with
    | server hw => exact ⟨_, (Machine.runFrom_singleton _ _).trans hw, rfl⟩
    | upgrade _ hw => exact ⟨_, (Machine.runFrom_singleton _ _).trans hw, rfl⟩
    | write | drop | page => exact ⟨_, rfl, rfl⟩

/-- **What one step does to a page.** -/
theorem pages_step (hs : d.step env raw a = some d') (p : P) :
    d'.pages p = match a.hookInput env raw d p with
      | some i => (d.pages p).step i
      | none => d.pages p := by
  cases happens_of_step hs with
  | server | upgrade | drop => rfl
  | @write p' k x m ws hx hm =>
    simp only [Happening.hookInput, hx, hm, Deployment.setWire, pages_setPage, Option.bind_some,
      Option.map_some]
    by_cases hp : p' = p
    · subst hp
      simp
    · rw [if_neg (Ne.symm hp), if_neg hp]
  | @page p' i hi =>
    simp only [Happening.hookInput, pages_setPage]
    by_cases hp : p' = p
    · subst hp
      simp
    · rw [if_neg (Ne.symm hp), if_neg hp]

/-- A page's hook runs inside the deployment. -/
theorem component_hook (env : Env) (raw : String → Json) (p : P) :
    hook.Component (deployment P env raw) (fun d => d.pages p) fun d a =>
      (a.hookInput env raw d p).toList where
  init := rfl
  step d a d' b _ hd hs _ := by
    obtain rfl := hd
    have hpage := pages_step (p := p) (hs : d.step env raw a = some d')
    cases hi : a.hookInput env raw d p with
    | none =>
      rw [hi] at hpage
      exact ⟨_, rfl, hpage⟩
    | some i =>
      rw [hi] at hpage
      exact ⟨_, Machine.runFrom_singleton _ _, hpage⟩

/-! ## What has been written -/

/-- What the writer has written of the log of the client. -/
def Deployment.sofar (d : Deployment P) (x : Wire) : List Message :=
  (d.world.log x.client).take x.written

/-- **What a socket has handled**: some of the frames that were written, all of them if nothing was lost. -/
structure Deployment.Carries (env : Env) (d : Deployment P) (p : P) (k : ℕ) (x : Wire) : Prop where
  written : x.written ≤ (d.world.log x.client).length
  frames : ((d.pages p).framesOf k).Sublist ((d.sofar x).filterMap (frame env))
  intact : x.intact = true →
    (d.pages p).framesOf k = (d.sofar x).filterMap (frame env) ∧ NoClose (d.sofar x)

/-- **The wires.** -/
structure WiresOk (env : Env) (d : Deployment P) : Prop where
  unwired : ∀ p k, d.wires p k = none → (d.pages p).framesOf k = []
  wired : ∀ p k x, d.wires p k = some x → d.Carries env p k x

omit [DecidableEq P] in
/-- The log of a client has grown, and the page has handled nothing. -/
theorem Deployment.Carries.grow (h : d.Carries env p k x)
    (hlog : d.world.log x.client <+: d'.world.log x.client)
    (hframes : (d'.pages p).framesOf k = (d.pages p).framesOf k) : d'.Carries env p k x := by
  have hsofar : d'.sofar x = d.sofar x := by
    obtain ⟨l, hl⟩ := hlog
    rw [Deployment.sofar, ← hl, List.take_append_of_le_length h.written, Deployment.sofar]
  exact ⟨h.written.trans hlog.length_le, by rw [hframes, hsofar]; exact h.frames, by
    rw [hframes, hsofar]
    exact h.intact⟩

omit [DecidableEq P] in
/-- One more message is written, or lost. -/
theorem Deployment.Carries.next (h : d.Carries env p k x) {m : Message}
    (hm : (d.world.log x.client)[x.written]? = some m) {intact : Bool} {new : List Frame}
    (hworld : d'.world = d.world)
    (hframes : (d'.pages p).framesOf k = (d.pages p).framesOf k ++ new)
    (hnew : new = [] ∨ new = (frame env m).toList)
    (hintact : intact = true → x.intact = true ∧ new = (frame env m).toList ∧ ¬ m.IsClose) :
    d'.Carries env p k ⟨x.client, x.written + 1, intact⟩ := by
  have hlt := (List.getElem?_eq_some_iff.mp hm).1
  have hsofar : d'.sofar ⟨x.client, x.written + 1, intact⟩ = d.sofar x ++ [m] := by
    rw [Deployment.sofar, hworld, List.take_add_one, hm, Deployment.sofar]
    rfl
  have hfilter : (d.sofar x ++ [m]).filterMap (frame env) =
      (d.sofar x).filterMap (frame env) ++ (frame env m).toList := by
    rw [List.filterMap_append]
    cases hf : frame env m <;> simp [hf]
  refine ⟨by rw [hworld]; exact hlt, ?_, fun hi => ?_⟩
  · rw [hsofar, hframes, hfilter]
    refine h.frames.append ?_
    rcases hnew with rfl | rfl
    · exact List.nil_sublist _
    · exact List.Sublist.refl _
  · obtain ⟨hx, rfl, hclose⟩ := hintact hi
    obtain ⟨hall, hno⟩ := h.intact hx
    rw [hsofar, hframes, hfilter, hall]
    refine ⟨rfl, hno.append fun m' hm' => ?_⟩
    rw [List.mem_singleton.mp hm']
    exact hclose

/-- An input that is no frame hands none to the handlers. -/
theorem framesOf_of_not_isMessage {b : Hook} {i : HookInput} (hi : i.isMessage = false) (k : ℕ) :
    (b.step i).framesOf k = b.framesOf k := by
  rw [framesOf_step]
  cases i with
  | message => exact absurd hi.symm Bool.false_ne_true
  | _ => exact List.append_nil _

/-- What an arrival on one socket hands to the handlers of the others. -/
theorem delivered_arrival_of_ne {b : Hook} {k k' : ℕ} (hk : k' ≠ k) (m : Message) :
    b.delivered (arrival env raw k m) k' = [] := by
  rw [arrival_eq]
  cases frame env m with
  | none => rfl
  | some event => exact if_neg fun hc => hk hc.1.symm

/-- What an arrival hands to the handlers of its socket. -/
theorem delivered_arrival {b : Hook} {ws : Socket} (hws : b.sockets[k]? = some ws) (m : Message) :
    b.delivered (arrival env raw k m) k =
      if ws.readyState = .opened then (frame env m).toList else [] := by
  rw [arrival_eq]
  cases frame env m with
  | none => simp [Hook.delivered]
  | some event => simp [Hook.delivered, hws]

/-- **One step keeps the wires.** -/
theorem WiresOk.step (h : WiresOk env d) (hok : d.world.Ok env) (hs : d.step env raw a = some d') :
    WiresOk env d' := by
  have hgrow : ∀ {w : World} {ch : Choice} {i : Input}, d.world.step env (ch, i) = some w →
      ∀ c, d.world.log c <+: w.log c := fun hw c =>
        have hch := hok.change_of_step hw
        hch.log_prefix c
  cases happens_of_step hs with
  | server hw => exact ⟨h.unwired, fun p k x hx => (h.wired p k x hx).grow (hgrow hw _) rfl⟩
  | @upgrade p k ch addr user authenticated w hnew hw =>
    refine ⟨fun p' k' hx => ?_, fun p' k' x hx => ?_⟩
    · rw [wires_setWire] at hx
      split_ifs at hx
      exact h.unwired p' k' hx
    · rw [wires_setWire] at hx
      split_ifs at hx with hpk
      · obtain ⟨rfl, rfl⟩ := hpk
        cases hx
        have hnil : (d.pages p').framesOf k' = [] := h.unwired p' k' hnew
        refine ⟨Nat.zero_le _, ?_, fun _ => ⟨hnil, noClose_nil⟩⟩
        change ((d.pages p').framesOf k').Sublist _
        rw [hnil]
        exact List.nil_sublist _
      · exact (h.wired p' k' x hx).grow (hgrow hw _) rfl
  | @write p k x m ws hx hm hws =>
    have hother : ∀ p' k', ¬ (p' = p ∧ k' = k) → (((d.setPage p (arrival env raw k m)).pages p').framesOf
        k') = (d.pages p').framesOf k' := by
      intro p' k' hne
      rw [pages_setPage]
      split_ifs with hp
      · subst hp
        rw [framesOf_step, delivered_arrival_of_ne fun hk => hne ⟨rfl, hk⟩, List.append_nil]
      · rfl
    refine ⟨fun p' k' hx' => ?_, fun p' k' x' hx' => ?_⟩
    · rw [wires_setWire] at hx'
      split_ifs at hx' with hpk
      exact (hother p' k' hpk).trans (h.unwired p' k' hx')
    · rw [wires_setWire] at hx'
      split_ifs at hx' with hpk
      · obtain ⟨rfl, rfl⟩ := hpk
        cases hx'
        have hframes : ((((d.setPage p' (arrival env raw k' m)).setWire p' k' ⟨x.client, x.written + 1,
            x.intact && ws.readyState = .opened && !decide m.IsClose⟩)).pages p').framesOf k' =
            (d.pages p').framesOf k' ++ if ws.readyState = .opened then (frame env m).toList else [] := by
          simp only [Deployment.setWire, pages_setPage, if_true]
          rw [framesOf_step, delivered_arrival hws]
        refine (h.wired p' k' x hx).next hm rfl hframes ?_ fun hi => ?_
        · split_ifs
          · exact Or.inr rfl
          · exact Or.inl rfl
        · simp only [Bool.and_eq_true, decide_eq_true_eq, Bool.not_eq_true', decide_eq_false_iff_not] at hi
          exact ⟨hi.1.1, if_pos hi.1.2, hi.2⟩
      · exact (h.wired p' k' x' hx').grow List.prefix_rfl (hother p' k' hpk)
  | @drop p k x m hx hm =>
    refine ⟨fun p' k' hx' => ?_, fun p' k' x' hx' => ?_⟩
    · rw [wires_setWire] at hx'
      split_ifs at hx'
      exact h.unwired p' k' hx'
    · rw [wires_setWire] at hx'
      split_ifs at hx' with hpk
      · obtain ⟨rfl, rfl⟩ := hpk
        cases hx'
        exact (h.wired p' k' x hx).next hm rfl (List.append_nil _).symm (Or.inl rfl)
          fun hi => absurd hi Bool.false_ne_true
      · exact (h.wired p' k' x' hx').grow List.prefix_rfl rfl
  | @page p i hi =>
    have hframes : ∀ p' k', ((d.setPage p i).pages p').framesOf k' = (d.pages p').framesOf k' := by
      intro p' k'
      rw [pages_setPage]
      split_ifs with hp
      · subst hp
        exact framesOf_of_not_isMessage hi k'
      · rfl
    exact ⟨fun p' k' hx => (hframes p' k').trans (h.unwired p' k' hx),
      fun p' k' x hx => (h.wired p' k' x hx).grow List.prefix_rfl (hframes p' k')⟩

omit [DecidableEq P] in
theorem wiresOk_init : WiresOk env (Deployment.init env : Deployment P) where
  unwired _ _ _ := rfl
  wired _ _ _ hx := nomatch hx

/-- **The wires, in every run.** -/
theorem deployment_wiresOk (env : Env) (raw : String → Json) :
    (deployment P env raw).Safe fun d => d.world.Ok env ∧ WiresOk env d := by
  have hserver := (component_server (P := P) env raw).safe (server_ok env)
  exact hserver.and_of_step wiresOk_init fun d a d' hok h hs => h.step hok hs

/-! ## What a page shows -/

/-- **No other socket of the page intrudes** on its current one. -/
def Minds (env : Env) (raw : String → Json) (p : P) (d : Deployment P) (a : Happening P) : Prop :=
  ∀ i, a.hookInput env raw d p = some i → ¬ Intrudes (d.pages p) i

/-- Where no other socket intrudes, a page shows what its current socket has handled. -/
theorem deployment_derived {is : List (Happening P)} (hm : (deployment P env raw).Meets (Minds env raw p) is)
    (hd : (deployment P env raw).run is = some d) : Derived (d.pages p) := by
  refine ((component_hook env raw p).safe hook_announced).of_meets (C := Minds env raw p)
    (Q := fun d => Derived (d.pages p)) (fun cr hcr => nomatch hcr) (fun d a d' ha h hC hs => ?_) hm hd
  rw [pages_step hs]
  split
  · rename_i i hi
    exact derived_step ha h (hC i hi)
  · exact h

/-- **The page has handled everything** its client was told. -/
def Deployment.UpToDate (d : Deployment P) (x : Wire) : Prop :=
  x.intact = true ∧ x.written = (d.world.log x.client).length

omit [DecidableEq P] in
/-- The last room that was handled is the last that was sent. -/
theorem lastRoom_frames (l : List Message) : lastRoom (l.filterMap (frame env)) =
    (latest roomOf l).map (roomInfo env) := by
  rw [lastRoom, latest, List.filterMap_filterMap, ← List.getLast?_map, List.map_filterMap]
  congr 1
  refine List.filterMap_congr fun m _ => ?_
  cases m <;> rfl

/-- A client that was told of a room and not of its end is a user of a room, and what it was told is
right. -/
theorem news_of_noClose {w : World} {c : XID} {m : Outgoing.Room} (h : w.Ok env) (hl : LogOk w)
    (hn : NewsOk w) (hno : NoClose (w.log c)) (hm : latest roomOf (w.log c) = some m) :
    ∃ R r v, w.rooms.rooms.lookup R = some r ∧ r.users.lookup c = some v ∧ Lists m r v := by
  have hne : w.log c ≠ [] := by
    intro hnil
    rw [hnil] at hm
    cases hm
  have hseat : w.rooms.Seats c := by
    have hc : c ∈ w.clients := by
      by_contra hc
      exact hne (hl.stranger c hc)
    have hcon : c ∈ w.rooms.connected := by
      by_contra hcon
      obtain ⟨pre, m', hlog, hm', -⟩ := hl.gone c hc hcon
      exact hno m' (hlog ▸ by simp) hm'
    exact (h.inv.idle_or_seats hcon).resolve_left fun hidle => hne (hl.idle c hidle)
  obtain ⟨R, r, hr, hu⟩ := hseat
  obtain ⟨v, hv⟩ := Finmap.mem_iff.mp hu
  obtain ⟨m', hm', hlists⟩ := hn R r hr c v hv
  obtain rfl := Option.some.inj (hm.symm.trans hm')
  exact ⟨R, r, v, hr, hv, hlists⟩

/-- **The page presents the room** as the user `v` sees it: its users, and one entry for every visitor. -/
structure Presents (env : Env) (shown : RoomInfo) (r : Screego.Room) (v : Screego.User) : Prop where
  id : shown.id = r.id
  ids : (shown.users.map RoomUser.id).Nodup
  users : ∀ y, y ∈ shown.users ↔ ∃ c u, r.users.lookup c = some u ∧ y = roomUser env (entryFor v c u)
  visitors : Exact r v (aggregateUsers shown.users)

theorem presents_roomInfo {w : World} {R : String} {r : Screego.Room} {v : Screego.User} {c : XID}
    {m : Outgoing.Room} (h : w.Ok env) (hvis : VisitorsOk w) (hr : w.rooms.rooms.lookup R = some r)
    (hv : r.users.lookup c = some v) (hid : m.id = r.id) (hL : Roster r v m.users) :
    Presents env (roomInfo env m) r v where
  id := hid
  ids := by
    have hmap : (m.users.map (roomUser env)).map RoomUser.id =
        (m.users.map Outgoing.User.id).map env.xidString := by
      rw [List.map_map, List.map_map]
      rfl
    rw [roomInfo, hmap]
    exact hL.nodup.map env.xidString_injective
  users y := by
    rw [roomInfo, List.mem_map]
    constructor
    · rintro ⟨z, hz, rfl⟩
      obtain ⟨c, u, hu, rfl⟩ := (hL.entries z).mp hz
      exact ⟨c, u, hu, rfl⟩
    · rintro ⟨c, u, hu, rfl⟩
      exact ⟨_, (hL.entries _).mpr ⟨c, u, hu, rfl⟩, rfl⟩
  visitors := hL.exact (h.inv.room R r hr) (hvis R r hr) hv env

omit [DecidableEq P] in
/-- A frame that was handled was sent. -/
theorem Deployment.Carries.mem_log (h : d.Carries env p k x) {event : Frame}
    (he : event ∈ (d.pages p).framesOf k) : ∃ m ∈ d.world.log x.client, frame env m = some event := by
  obtain ⟨m, hm, hevent⟩ := List.mem_filterMap.mp (h.frames.subset he)
  exact ⟨m, List.mem_of_mem_take hm, hevent⟩

theorem frame_eq_room {m : Message} {payload : RoomInfo} (h : frame env m = some (.room payload)) :
    ∃ q, m = .room q ∧ payload = roomInfo env q := by
  cases m <;> simp only [frame, Option.some.injEq, reduceCtorEq, Frame.room.injEq] at h
  exact ⟨_, rfl, h.symm⟩

theorem frame_eq_clientSession {m : Message} {id peer : String}
    (h : frame env m = some (.clientSession id peer)) :
    ∃ q, m = .clientSession q ∧ id = env.xidString q.id ∧ peer = env.xidString q.peer := by
  cases m <;> simp only [frame, Option.some.injEq, reduceCtorEq, Frame.clientSession.injEq] at h
  exact ⟨_, rfl, h.1.symm, h.2.symm⟩

theorem lastRoom_mem {frames : List Frame} {payload : RoomInfo} (h : lastRoom frames = some payload) :
    .room payload ∈ frames := by
  obtain ⟨event, hevent, hroom⟩ := List.mem_filterMap.mp (List.mem_of_getLast? h)
  cases event with
  | room payload' => exact Option.some.inj hroom ▸ hevent
  | _ => cases hroom

omit [DecidableEq P] in
theorem mem_of_latest {l : List Message} {m : Outgoing.Room} (h : latest roomOf l = some m) :
    .room m ∈ l := by
  obtain ⟨y, hy, hroom⟩ := List.mem_filterMap.mp (List.mem_of_getLast? h)
  cases y with
  | room q => exact Option.some.inj hroom ▸ hy
  | _ => cases hroom

/-- **Pages show their rooms.** In a run in which no other socket of the page intrudes, what the page shows
belongs to the client of its socket. The member list is that of the client's room at a moment of the run,
and every stream is announced for a session that was there; and as soon as the page has handled everything
the client was told, the page presents the room as it is. -/
theorem pages_show_their_rooms (env : Env) (raw : String → Json) (p : P) {is : List (Happening P)}
    (hm : (deployment P env raw).Meets (Minds env raw p) is) {d : Deployment P}
    (hd : (deployment P env raw).run is = some d) {cr : ConnectedRoom}
    (hcr : (d.pages p).state = some cr) :
    ∃ x js, d.wires p cr.ws = some x ∧
      js = (deployment P env raw).labels (fun _ a => a.input) (Deployment.init env) is ∧
      (server env).run js = some d.world ∧
      (∃ m, cr.info = roomInfo env m ∧ (server env).Took (Shows env x.client m) js) ∧
      (∀ s ∈ cr.clientStreams, ∃ sid host, s.id = env.xidString sid ∧ s.peerID = env.xidString host ∧
        (server env).Took (Serves env sid ⟨host, x.client⟩) js) ∧
      (d.UpToDate x → ∃ R r v, d.world.rooms.rooms.lookup R = some r ∧
        r.users.lookup x.client = some v ∧ Presents env cr.info r v) := by
  have hrun := (component_server env raw).run hd
  have hder := deployment_derived hm hd cr hcr
  obtain ⟨hok, hwires⟩ := deployment_wiresOk env raw is d hd
  have hroom := lastRoom_mem hder.info
  cases hx : d.wires p cr.ws with
  | none =>
    rw [hwires.unwired p cr.ws hx] at hroom
    exact absurd hroom List.not_mem_nil
  | some x =>
    have hcarries := hwires.wired p cr.ws x hx
    refine ⟨x, _, rfl, rfl, hrun, ?_, fun s hs => ?_, fun hup => ?_⟩
    · obtain ⟨m, hmem, hframe⟩ := hcarries.mem_log hroom
      obtain ⟨q, rfl, hinfo⟩ := frame_eq_room hframe
      exact ⟨q, hinfo, member_lists_were_right hrun hmem⟩
    · obtain ⟨-, -, -, -, -, -, hannounced⟩ := hder.streams s hs
      obtain ⟨m, hmem, hframe⟩ := hcarries.mem_log hannounced
      obtain ⟨q, rfl, hid, hpeer⟩ := frame_eq_clientSession hframe
      exact ⟨q.id, q.peer, hid, hpeer, announcements_were_right hrun hmem⟩
    · obtain ⟨hintact, hall⟩ := hup
      obtain ⟨hframes, hno⟩ := hcarries.intact hintact
      have hlog : d.sofar x = d.world.log x.client := by rw [Deployment.sofar, hall, List.take_length]
      rw [hlog] at hframes hno
      have hlast := hder.info
      rw [hframes, lastRoom_frames] at hlast
      obtain ⟨m, hlatest, hinfo⟩ := Option.map_eq_some_iff.mp hlast
      obtain ⟨-, hl, -⟩ := (server_storyOk env).of_run hrun
      have hnews := ((server_newsOk env).of_run hrun).2
      have hvis := ((server_visitorsOk env).of_run hrun).2
      obtain ⟨R, r, v, hr, hv, hid, hnodup, hlist⟩ := news_of_noClose hok hl hnews hno hlatest
      have hsorted := sorted_of_mem_log hrun (mem_of_latest hlatest)
      exact ⟨R, r, v, hr, hv, hinfo ▸ presents_roomInfo hok hvis hr hv hid ⟨hnodup, hlist, hsorted⟩⟩

/-! ## Pages with one socket -/

/-- `conn.current` is the socket that was opened last. -/
theorem hook_conn : hook.Always fun b => UseRoom.Announced b ∧
    ∀ k, k + 1 = b.sockets.length → b.conn = some k := by
  refine hook_announced.and_of_step (fun k hk => nomatch hk) fun b i b' _ h hs _ k hk => ?_
  obtain rfl := Option.some.inj hs
  by_cases hi : i = .room
  · subst hi
    simp only [Hook.step, Hook.room] at hk ⊢
    split_ifs at hk ⊢ with hstate
    · exact h k hk
    · simp only [List.length_append, List.length_singleton, Nat.add_right_cancel_iff] at hk
      rw [hk]
  · rw [conn_step fun hroom => absurd hroom hi]
    refine h k (hk.trans ?_)
    generalize hl : (b.step i).sockets = l
    cases hl ▸ listens_step b i with
    | goOn hlength => exact hlength
    | opens hroom => exact absurd hroom hi

/-- **A page with one socket** does not intrude on itself. -/
theorem not_intrudes_of_one {b : Hook} {i : HookInput} (ha : UseRoom.Announced b)
    (hconn : ∀ k, k + 1 = b.sockets.length → b.conn = some k) (hone : b.sockets.length ≤ 1) :
    ¬ Intrudes b i := by
  have hcurrent : ∀ k ws, b.sockets[k]? = some ws → b.conn = some k := by
    intro k ws hws
    have hk := (List.getElem?_eq_some_iff.mp hws).1
    exact hconn k (by omega)
  intro h
  cases h with
  | enters k payload hne hk =>
    obtain ⟨ws, hws, -⟩ := hk
    exact hne (hcurrent k ws hws)
  | updates k payload cr hne hk =>
    obtain ⟨ws, hws, -⟩ := hk
    exact hne (hcurrent k ws hws)
  | ends k cr s hne hk =>
    obtain ⟨ws, hws, -⟩ := hk
    exact hne (hcurrent k ws hws)
  | leaves i k hi hne hends =>
    cases hends with
    | close k' ws hws =>
      obtain rfl := Option.some.inj hi
      exact hne (hcurrent _ ws hws)
    | error k' ws hws =>
      obtain rfl := Option.some.inj hi
      exact hne (hcurrent _ ws hws)
  | tracks n σ hσ hne =>
    have hframe := ha σ (List.mem_of_getElem? hσ.1)
    cases hws : b.sockets[σ.ws]? with
    | none => simp [Hook.framesOf, hws] at hframe
    | some ws => exact hne (hcurrent _ ws hws)

/-- **Pages that have opened one socket** meet the condition of `pages_show_their_rooms`. -/
theorem minds_of_one_socket {is : List (Happening P)} (hone : (deployment P env raw).Throughout
    (fun d => (d.pages p).sockets.length ≤ 1) is) : (deployment P env raw).Meets (Minds env raw p) is := by
  intro pre a post d his hd i hi
  obtain ⟨ha, hconn⟩ := (component_hook env raw p).safe hook_conn pre d hd
  exact not_intrudes_of_one ha hconn (hone pre (a :: post) d his hd)

/-- A page creates a room, and is told of it. -/
def createRoomPage : List (Happening Unit) :=
  [.page () .room rfl, .upgrade () 0 Choice.plain [] "" false, .page () (.opened 0) rfl,
    .server Choice.plain (.create ⟨0⟩ ⟨"room", connectionLocal, false, "", "a", false⟩), .write () 0]

theorem pages_show_their_rooms_createRoomPage : ∃ d cr x R r v,
    (deployment Unit openServer fun _ => .null).run createRoomPage = some d ∧
      (d.pages ()).state = some cr ∧ d.wires () cr.ws = some x ∧ d.UpToDate x ∧
      d.world.rooms.rooms.lookup R = some r ∧ r.users.lookup x.client = some v ∧
      Presents openServer cr.info r v := by
  have hone : ∀ pre ∈ createRoomPage.inits, ∀ d ∈ (deployment Unit openServer fun _ => .null).run pre,
      (d.pages ()).sockets.length ≤ 1 := by decide +kernel
  have hrun : ((deployment Unit openServer fun _ => .null).run createRoomPage).bind (fun d =>
      (d.pages ()).state.bind fun cr => (d.wires () cr.ws).map fun x =>
        decide (x.intact = true ∧ x.written = (d.world.log x.client).length)) = some true := by
    decide +kernel
  obtain ⟨d, hd, hrun⟩ := Option.bind_eq_some_iff.mp hrun
  obtain ⟨cr, hcr, hrun⟩ := Option.bind_eq_some_iff.mp hrun
  obtain ⟨x, hx, hdecide⟩ := Option.map_eq_some_iff.mp hrun
  have hup : x.intact = true ∧ x.written = (d.world.log x.client).length := of_decide_eq_true hdecide
  have hthroughout : (deployment Unit openServer fun _ => .null).Throughout
      (fun d => (d.pages ()).sockets.length ≤ 1) createRoomPage := fun pre post d his hd =>
    hone pre ((List.mem_inits _ _).mpr ⟨post, his.symm⟩) d (Option.mem_def.mpr hd)
  obtain ⟨x', js, hx', -, -, -, -, hpresents⟩ := pages_show_their_rooms openServer (fun _ => .null) ()
    (minds_of_one_socket hthroughout) hd hcr
  obtain rfl := Option.some.inj (hx.symm.trans hx')
  obtain ⟨R, r, v, hr, hv, hp⟩ := hpresents hup
  exact ⟨d, cr, x, R, r, v, hd, hcr, hx, hup, hr, hv, hp⟩

end Screego
