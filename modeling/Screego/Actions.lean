import Screego.Effect

/-!
# What the main loop does, one action after the other

The goroutines of the connections run while the main loop handles a message. What they can see of it
are its changes of `connected` and the messages it hands out, in the order of the source.

* `Action`: one change of `connected`, or one `writeTimeout`;
* `Disconnected.actions`, `Event.actions`, `Rooms.actions`: the actions of the handlers and of the
  body of the loop;
* `replay`: the clients that are connected after some actions; **`Rooms.actsOk`**: the actions of a
  message make of `connected`, and hand out, what `Rooms.handle` says;
* `Orderly`: a client is disconnected before its writer is closed, and does not come back.
-/

set_option autoImplicit false

namespace Screego

open Lib Outgoing

/-- An action of the main loop. -/
inductive Action where
  /-- `rooms.connected[c] = roomID`. -/
  | connect (c : XID) (roomID : String)
  /-- `delete(rooms.connected, c)`. -/
  | disconnect (c : XID)
  /-- `writeTimeout`. -/
  | put (x : Send)
deriving DecidableEq

/-- `connected` after the action. -/
def Action.after (m : GoMap XID String) : Action → GoMap XID String
  | connect c roomID => m.insert c roomID
  | disconnect c => m.erase c
  | put _ => m

/-- What the action hands out. -/
def Action.send : Action → Option Send
  | put x => some x
  | _ => none

/-- `connected` after the actions. -/
def replay (m : GoMap XID String) (l : List Action) : GoMap XID String := l.foldl Action.after m

/-- What the actions hand out. -/
def handedOut (l : List Action) : List Send := l.filterMap Action.send

section Handlers

variable (env : Env) (ch : Choice)

/-- The loop over the members when the owner has left. -/
def leaving (members : List (XID × Screego.User)) : List Action :=
  members.flatMap fun member => [.disconnect member.2.id,
    .put (.write member.2.write (.closeWriter closeNormalClosure closeOwnerLeft))]

/-- The actions of `Disconnected.executeNoError`. -/
def Disconnected.actions (e : Disconnected) (s : Rooms) (current : ClientInfo) : List Action :=
  let roomID := (s.connected.lookup current.id).getD ""
  let s := { s with connected := s.connected.erase current.id }
  let sent : List Send := [.write current.write (.closeWriter e.code e.reason)]
  .disconnect current.id ::
    if roomID = "" then sent.map .put
    else match s.rooms.lookup roomID with
    | none => sent.map .put
    | some room =>
    match room.users.lookup current.id with
    | none => sent.map .put
    | some user =>
      let room := { room with users := room.users.erase current.id }
      let counters := { s.counters with usersLeft := s.counters.usersLeft + 1 }
      let st := (range (ch.order .disconnected) room.sessions).foldl
        (disconnectedLoop env current.id) (⟨room, { s with counters }, sent⟩ : Live)
      st.sent.map .put ++
        if user.owner && st.room.closeOnOwnerLeave && !st.room.hasVisitor ch user.visitorID then
          leaving (range (ch.order .ownerLeft) st.room.users)
        else if GoMap.len st.room.users = 0 then []
        else (st.room.notifyInfoChanged ch).map .put

/-- `Connected`, `Create` and `Join` note where the client is before they hand out anything. -/
def entering (s : Rooms) (current : ClientInfo) (out : Outcome) : List Action :=
  match out.rooms.connected.lookup current.id with
  | none => []
  | some roomID =>
    if s.connected.lookup current.id = some roomID then [] else [.connect current.id roomID]

/-- The actions of a handler that ends with `out`. -/
def Event.actions (s : Rooms) (current : ClientInfo) (out : Outcome) : Event → List Action
  | .disconnected e => e.actions env ch s current
  | _ => entering s current out ++ out.sent.map .put

/-- **The actions of the body of the loop.** -/
def Rooms.actions (s : Rooms) (msg : ClientMessage) : List Action :=
  if !msg.skipConnectedCheck && (s.connected.lookup msg.info.id).isNone then []
  else match msg.incoming.execute env ch s msg.info with
  | none => []
  | some out =>
    msg.incoming.actions env ch s msg.info out ++
      match out.err with
      | none => []
      | some reason =>
        Disconnected.actions env ch ⟨closeNormalClosure, reason⟩ out.rooms msg.info

end Handlers

variable {env : Env} {ch : Choice} {s t : Rooms} {info : ClientInfo} {e : Event} {sent : List Send}
  {c : XID} {m : GoMap XID String} {l l' : List Action} {out : Outcome}

/-! ## The loop over the sessions -/

/-- The message closes the writer of `c`. -/
def Send.Closes (c : XID) : Send → Prop
  | .write out m => out = ⟨c⟩ ∧ m.IsClose
  | .respond _ => False

/-- What a part of a handler leaves alone: `connected`, the users of the room, and the writers. -/
structure Live.Frame (st st' : Live) : Prop where
  connected : st'.rooms.connected = st.rooms.connected
  users : st'.room.users = st.room.users
  closes : ∀ x ∈ st'.sent, ∀ c, x.Closes c → x ∈ st.sent

theorem Live.Frame.trans {st₁ st₂ st₃ : Live} (h : st₁.Frame st₂) (h' : st₂.Frame st₃) :
    st₁.Frame st₃ where
  connected := h'.connected.trans h.connected
  users := h'.users.trans h.users
  closes x hx c hc := h.closes x (h'.closes x hx c hc) c hc

theorem Live.Frame.refl (st : Live) : st.Frame st := ⟨rfl, rfl, fun _ hx _ _ => hx⟩

/-- A session ends. -/
theorem Live.frame_endShare (st : Live) (peer id : XID) :
    st.Frame ((st.endShareTo peer id).closeSession env id) := by
  cases hu : st.room.users.lookup peer with
  | none =>
    simp only [Live.endShareTo, hu]
    exact ⟨rfl, rfl, fun _ hx _ _ => hx⟩
  | some user =>
    simp only [Live.endShareTo, hu]
    refine ⟨rfl, rfl, fun x hx c hc => ?_⟩
    rcases List.mem_append.mp hx with hx | hx
    · exact hx
    · cases List.mem_singleton.mp hx
      exact hc.2.elim

theorem Live.frame_disconnectedLoop (c : XID) (L : List (XID × RoomSession)) (st : Live) :
    st.Frame (L.foldl (disconnectedLoop env c) st) := by
  induction L generalizing st with
  | nil => exact .refl st
  | cons a L ih =>
    refine Live.Frame.trans ?_ (ih _)
    unfold disconnectedLoop
    split_ifs
    · exact (st.frame_endShare _ _).trans (Live.frame_endShare _ _ _)
    · exact st.frame_endShare _ _
    · exact st.frame_endShare _ _
    · exact .refl st

/-! ## Replaying -/

theorem replay_append (m : GoMap XID String) (l l' : List Action) :
    replay m (l ++ l') = replay (replay m l) l' := List.foldl_append

@[simp] theorem replay_cons (m : GoMap XID String) (a : Action) (l : List Action) :
    replay m (a :: l) = replay (a.after m) l := rfl

@[simp] theorem replay_puts (m : GoMap XID String) (sent : List Send) :
    replay m (sent.map .put) = m := by
  induction sent with
  | nil => rfl
  | cons x sent ih => exact ih

theorem handedOut_append (l l' : List Action) :
    handedOut (l ++ l') = handedOut l ++ handedOut l' := List.filterMap_append

@[simp] theorem handedOut_puts (sent : List Send) : handedOut (sent.map .put) = sent := by
  rw [handedOut, List.filterMap_map]
  exact List.filterMap_some

theorem connected_closeRoom (s : Rooms) (R : String) :
    (s.closeRoom env ch R).connected = s.connected := by
  unfold Rooms.closeRoom
  cases s.rooms.lookup R with
  | none => rfl
  | some room => simp only [foldl_closeSession, Live.closed]

/-- Members leave one after the other. -/
theorem replay_leaving (m : GoMap XID String) (M : List (XID × Screego.User)) :
    replay m (leaving M) = M.foldl (fun m member => m.erase member.2.id) m := by
  induction M generalizing m with
  | nil => rfl
  | cons a M ih => exact ih _

theorem handedOut_leaving (M : List (XID × Screego.User)) :
    handedOut (leaving M) = ownerLeft M := by
  induction M with
  | nil => rfl
  | cons a M ih => exact congrArg _ ih

variable (env ch) in
/-- **The actions of a departure** do what `executeNoError` does. -/
theorem Disconnected.replay_actions (d : Disconnected) (s : Rooms) (info : ClientInfo) :
    replay s.connected (d.actions env ch s info) = (d.executeNoError env ch s info).1.connected ∧
      handedOut (d.actions env ch s info) = (d.executeNoError env ch s info).2 := by
  have hcons : ∀ {c : XID} {l : List Action}, handedOut (.disconnect c :: l) = handedOut l :=
    fun {c l} => rfl
  unfold Disconnected.actions Disconnected.executeNoError
  simp only [replay_cons, hcons]
  split_ifs with hroom
  · exact ⟨rfl, rfl⟩
  cases hr : s.rooms.lookup ((s.connected.lookup info.id).getD "") with
  | none => exact ⟨rfl, rfl⟩
  | some room =>
    cases hu : room.users.lookup info.id with
    | none =>
      simp only [hu]
      exact ⟨rfl, rfl⟩
    | some user =>
      simp only [hu, replay_append, handedOut_append, replay_puts, handedOut_puts]
      set st := List.foldl (disconnectedLoop env info.id) _ _ with hst
      have hcon : Action.after s.connected (.disconnect info.id) = st.rooms.connected := by
        rw [hst, (Live.frame_disconnectedLoop _ _ _).connected]
        rfl
      unfold Live.afterLeave
      rw [hcon]
      split_ifs
      · rw [replay_leaving, handedOut_leaving, connected_closeRoom]
        exact ⟨rfl, rfl⟩
      · rw [connected_closeRoom]
        exact ⟨rfl, List.append_nil _⟩
      · rw [replay_puts, handedOut_puts]
        exact ⟨rfl, rfl⟩

/-! ## The order of the actions -/

/-- The actions connect nobody. -/
def NoConnect (l : List Action) : Prop := ∀ c R, .connect c R ∉ l

/-- **The order of actions** that begin with the clients `m`: when a client is disconnected, or its
writer is closed, it does not come back; and its writer is closed when it is disconnected. -/
def Orderly : GoMap XID String → List Action → Prop
  | _, [] => True
  | m, .connect c R :: l => Orderly (m.insert c R) l
  | m, .disconnect c :: l => (∀ R, .connect c R ∉ l) ∧ Orderly (m.erase c) l
  | m, .put x :: l => (∀ c, x.Closes c → c ∉ m ∧ ∀ R, .connect c R ∉ l) ∧ Orderly m l

theorem noConnect_puts (sent : List Send) : NoConnect (sent.map .put) := by
  intro c R h
  obtain ⟨x, -, hx⟩ := List.mem_map.mp h
  cases hx

theorem NoConnect.append (h : NoConnect l) (h' : NoConnect l') : NoConnect (l ++ l') :=
  fun c R hm => (List.mem_append.mp hm).elim (h c R) (h' c R)

theorem Orderly.append (h : Orderly m l) (h' : Orderly (replay m l) l') (hno : NoConnect l') :
    Orderly m (l ++ l') := by
  have hback : ∀ {c : XID} {l : List Action}, (∀ R, .connect c R ∉ l) →
      ∀ R, .connect c R ∉ l ++ l' := fun hl R hm =>
    (List.mem_append.mp hm).elim (hl R) (hno _ R)
  induction l generalizing m with
  | nil => exact h'
  | cons a l ih =>
    cases a with
    | connect c R => exact ih h h'
    | disconnect c => exact ⟨hback h.1, ih h.2 h'⟩
    | put x => exact ⟨fun c hc => ⟨(h.1 c hc).1, hback (h.1 c hc).2⟩, ih h.2 h'⟩

/-- Messages that close only writers of clients that are gone. -/
theorem orderly_puts (h : ∀ x ∈ sent, ∀ c, x.Closes c → c ∉ m) : Orderly m (sent.map .put) := by
  induction sent with
  | nil => trivial
  | cons x sent ih =>
    refine ⟨fun c hc => ⟨h x List.mem_cons_self c hc, fun R => noConnect_puts sent c R⟩, ?_⟩
    exact ih fun y hy => h y (List.mem_cons_of_mem _ hy)

theorem noConnect_leaving (M : List (XID × Screego.User)) : NoConnect (leaving M) := by
  intro c R h
  obtain ⟨a, -, ha⟩ := List.mem_flatMap.mp h
  simp at ha

/-- Members leave before their writers are closed. -/
theorem orderly_leaving {M : List (XID × Screego.User)} (hM : ∀ a ∈ M, a.2.write = ⟨a.2.id⟩)
    (m : GoMap XID String) : Orderly m (leaving M) := by
  induction M generalizing m with
  | nil => trivial
  | cons a M ih =>
    refine ⟨fun R h => ?_, fun c hc => ⟨?_, fun R => noConnect_leaving M c R⟩, ?_⟩
    · rcases List.mem_cons.mp h with h | h
      · cases h
      · exact noConnect_leaving M _ R h
    · obtain ⟨hw, -⟩ := hc
      rw [hM a List.mem_cons_self, Chan.mk.injEq] at hw
      exact fun hmem => (Finmap.mem_erase.mp hmem).1 hw.symm
    · exact ih (fun b hb => hM b (List.mem_cons_of_mem _ hb)) _

theorem closes_notify {r : Screego.Room} {x : Send} (hx : x ∈ r.notifyInfoChanged ch)
    (c : XID) : ¬ x.Closes c := by
  obtain ⟨a, -, rfl⟩ := List.mem_map.mp hx
  exact fun h => h.2

variable (env ch) in
/-- **The shape of a departure**: the client is disconnected, its writer is closed among other
messages, and the members of a closed room follow. -/
theorem Disconnected.actions_eq (d : Disconnected) (s : Rooms) (info : ClientInfo) :
    ∃ (sent : List Send) (M : List (XID × Screego.User)),
      d.actions env ch s info = .disconnect info.id :: (sent.map .put ++ leaving M) ∧
      (∀ x ∈ sent, ∀ c, x.Closes c → x = .write info.write (.closeWriter d.code d.reason)) ∧
      ∀ a ∈ M, ∃ R r, s.rooms.lookup R = some r ∧ r.users.lookup a.1 = some a.2 := by
  have hone : ∀ x ∈ [Send.write info.write (.closeWriter d.code d.reason)], ∀ c, x.Closes c →
      x = .write info.write (.closeWriter d.code d.reason) := fun x hx _ _ => List.mem_singleton.mp hx
  have halone : ∃ (sent : List Send) (M : List (XID × Screego.User)),
      [Action.put (.write info.write (.closeWriter d.code d.reason))] =
        sent.map .put ++ leaving M ∧
      (∀ x ∈ sent, ∀ c, x.Closes c → x = .write info.write (.closeWriter d.code d.reason)) ∧
      ∀ a ∈ M, ∃ R r, s.rooms.lookup R = some r ∧ r.users.lookup a.1 = some a.2 :=
    ⟨_, [], rfl, hone, fun a ha => absurd ha List.not_mem_nil⟩
  unfold Disconnected.actions
  simp only [List.cons.injEq, true_and]
  split_ifs with hroom
  · exact halone
  cases hr : s.rooms.lookup ((s.connected.lookup info.id).getD "") with
  | none => exact halone
  | some room =>
    cases hu : room.users.lookup info.id with
    | none =>
      simp only [hu]
      exact halone
    | some user =>
      simp only [hu]
      set st := List.foldl (disconnectedLoop env info.id) _ _ with hst
      have hframe := hst ▸ Live.frame_disconnectedLoop info.id _ _
      have hcloses : ∀ x ∈ st.sent, ∀ c, x.Closes c →
          x = .write info.write (.closeWriter d.code d.reason) := fun x hx c hc =>
        hone x (hframe.closes x hx c hc) c hc
      split_ifs
      · refine ⟨st.sent, range (ch.order .ownerLeft) st.room.users, rfl, hcloses, fun a ha => ?_⟩
        have ha := (mem_range _ _).mp ha
        rw [hframe.users, GoMap.lookup_erase_ite] at ha
        split_ifs at ha
        exact ⟨_, room, hr, ha⟩
      · exact ⟨st.sent, [], rfl, hcloses, fun a ha => absurd ha List.not_mem_nil⟩
      · refine ⟨st.sent ++ st.room.notifyInfoChanged ch, [], ?_, fun x hx c hc => ?_,
          fun a ha => absurd ha List.not_mem_nil⟩
        · rw [List.map_append, leaving, List.flatMap_nil, List.append_nil]
        · rcases List.mem_append.mp hx with hx | hx
          · exact hcloses x hx c hc
          · exact absurd hc (closes_notify hx c)

/-- The users of all rooms satisfy `p`. -/
def Rooms.All (s : Rooms) (p : Screego.User → Prop) : Prop :=
  ∀ R r a u, s.rooms.lookup R = some r → r.users.lookup a = some u → p u

variable (env ch) in
/-- **A departure is orderly**: it connects nobody, and disconnects the client and users of rooms. -/
theorem Disconnected.orderly (d : Disconnected) (hw : info.write = ⟨info.id⟩)
    (hs : s.All fun u => u.write = ⟨u.id⟩) :
    (∀ m, Orderly m (d.actions env ch s info)) ∧ NoConnect (d.actions env ch s info) ∧
      (∀ c, .disconnect c ∈ d.actions env ch s info →
        c = info.id ∨ ∃ R r a u, s.rooms.lookup R = some r ∧ r.users.lookup a = some u ∧ c = u.id) ∧
      ∀ x c, .put x ∈ d.actions env ch s info → x.Closes c →
        .disconnect c ∈ d.actions env ch s info := by
  obtain ⟨sent, M, hl, hsent, hM⟩ := d.actions_eq env ch s info
  have hMw : ∀ a ∈ M, a.2.write = ⟨a.2.id⟩ := fun a ha => by
    obtain ⟨R, r, hr, hu⟩ := hM a ha
    exact hs R r a.1 a.2 hr hu
  have hclose : ∀ x ∈ sent, ∀ c, x.Closes c → c = info.id := by
    intro x hx c hc
    obtain rfl := hsent x hx c hc
    have hout := hc.1
    rw [hw, Chan.mk.injEq] at hout
    exact hout.symm
  have hno : NoConnect (sent.map .put ++ leaving M) :=
    (noConnect_puts sent).append (noConnect_leaving M)
  rw [hl]
  refine ⟨fun m => ⟨fun R => hno _ R, ?_⟩, fun c R hmem => ?_, fun c hmem => ?_,
    fun x c hmem hc => ?_⟩
  · refine (orderly_puts fun x hx c hc hmem => ?_).append (orderly_leaving hMw _)
      (noConnect_leaving M)
    exact (Finmap.mem_erase.mp hmem).1 (hclose x hx c hc)
  · rcases List.mem_cons.mp hmem with hmem | hmem
    · cases hmem
    · exact hno c R hmem
  · rcases List.mem_cons.mp hmem with hmem | hmem
    · cases hmem
      exact Or.inl rfl
    rcases List.mem_append.mp hmem with hmem | hmem
    · obtain ⟨x, -, hx⟩ := List.mem_map.mp hmem
      cases hx
    · obtain ⟨a, ha, hmem⟩ := List.mem_flatMap.mp hmem
      obtain ⟨R, r, hr, hu⟩ := hM a ha
      refine Or.inr ⟨R, r, a.1, a.2, hr, hu, ?_⟩
      simpa using hmem
  · rcases List.mem_cons.mp hmem with hmem | hmem
    · cases hmem
    rcases List.mem_append.mp hmem with hmem | hmem
    · obtain ⟨y, hy, hx⟩ := List.mem_map.mp hmem
      cases hx
      rw [hclose x hy c hc]
      exact List.mem_cons_self
    · obtain ⟨a, ha, hmem⟩ := List.mem_flatMap.mp hmem
      obtain rfl : x = .write a.2.write (.closeWriter closeNormalClosure closeOwnerLeft) := by
        simpa using hmem
      have hout := hc.1
      rw [hMw a ha, Chan.mk.injEq] at hout
      refine List.mem_cons_of_mem _ (List.mem_append.mpr (Or.inr ?_))
      exact List.mem_flatMap.mpr ⟨a, ha, by simp [hout]⟩

/-! ## The other handlers -/

theorem Inv.all_users (h : Inv env s) : s.All fun u => u.write = ⟨u.id⟩ ∧ u.id ∈ s.connected := by
  intro R r a u hr hu
  obtain ⟨hid, hw, -⟩ := (h.room R r hr).user a u hu
  have hat := (h.inRoom hr (Finmap.mem_of_lookup_eq_some hu)).at_
  exact ⟨by rw [hid, hw], hid ▸ Finmap.mem_of_lookup_eq_some hat⟩

theorem Rooms.All.store {p : Screego.User → Prop} {R : String} {r : Screego.Room} (hs : s.All p)
    (hr : ∀ a u, r.users.lookup a = some u → p u) : (s.store R r).All p := by
  intro R' r' a u hr' hu
  rcases GoMap.lookup_insert_eq_some.mp hr' with ⟨-, rfl⟩ | ⟨-, hr'⟩
  · exact hr a u hu
  · exact hs R' r' a u hr' hu

/-- **How the handler of an event other than `Disconnected` ends**: it closes no writer, at most the
client itself is noted to be somewhere else, and the users of the rooms are connected. -/
structure Calm (s : Rooms) (c : XID) (out : Outcome) : Prop where
  sent : Every (fun m => ¬ m.IsClose) out.sent
  connected : out.rooms.connected = s.connected ∨ ∃ R, s.connected.lookup c ≠ some R ∧
    out.rooms.connected = s.connected.insert c R
  users : out.rooms.All fun u => u.write = ⟨u.id⟩ ∧ u.id ∈ s.connected

theorem Change.calm (h : Inv env s) (hw : info.write = ⟨info.id⟩)
    (hch : Change env ch s info e t sent) (hc : info.id ∈ t.connected) :
    Calm s info.id ⟨t, sent, none⟩ := by
  have ht := h.change hw hch
  have husers : t.All fun u => u.write = ⟨u.id⟩ ∧ u.id ∈ s.connected := fun R r a u hr hu =>
    (ht.all_users R r a u hr hu).imp_right hch.mem_connected
  have hseat : ∀ {R : String}, s.connected.lookup info.id = some "" → R ≠ "" →
      s.connected.lookup info.id ≠ some R := fun hidle hne heq =>
    hne (Option.some.inj (hidle.symm.trans heq)).symm
  have hnotify : ∀ r : Screego.Room, Every (fun m => ¬ m.IsClose) (r.notifyInfoChanged ch) :=
    every_notify (fun _ => id) ch
  cases hch with
  | skip => exact ⟨every_nil, Or.inl rfl, husers⟩
  | name => exact ⟨hnotify _, Or.inl rfl, husers⟩
  | stale => exact ⟨every_nil, Or.inl rfl, husers⟩
  | relay k => exact ⟨every_signal (by cases k <;> exact id) _, Or.inl rfl, husers⟩
  | create hidle =>
    refine ⟨hnotify _, Or.inr ⟨_, hseat hidle ?_, rfl⟩, husers⟩
    exact ht.key_ne_empty (Finmap.lookup_insert _)
  | join hidle he hr =>
    refine ⟨(hnotify _).append ?_, Or.inr ⟨_, hseat hidle (h.key_ne_empty hr), rfl⟩, husers⟩
    exact every_announce (fun _ => id) (fun _ => id) _ _ _ _ _
  | bounce => exact absurd rfl (Finmap.mem_erase.mp hc).1
  | share =>
    exact ⟨(every_announce (fun _ => id) (fun _ => id) _ _ _ _ _).append (hnotify _), Or.inl rfl,
      husers⟩
  | unshare =>
    exact ⟨(every_endShares (fun _ => id) _ _).append (hnotify _), Or.inl rfl, husers⟩
  | depart d hd => exact absurd hc hd.notMem_connected

theorem Executed.calm (h : Inv env s) (hw : info.write = ⟨info.id⟩)
    (hc : info.id ∈ s.connected) (hout : Executed env ch s info e out)
    (he : ∀ d, e ≠ .disconnected d) : Calm s info.id out := by
  cases hout with
  | done hch hct => exact hch.calm h hw hct
  | gone d => exact absurd rfl (he d)
  | failed err => exact ⟨every_nil, Or.inl rfl, h.all_users⟩
  | @joined _ R v err r hidle hjoins hr hget =>
    refine ⟨every_notify (fun _ => id) ch _, Or.inr ⟨R, ?_, rfl⟩, ?_⟩
    · exact fun heq => h.key_ne_empty hr (Option.some.inj (hidle.symm.trans heq)).symm
    · refine Rooms.All.store (s := s.seat info.id R) h.all_users fun a u hu => ?_
      rw [lookup_put] at hu
      split_ifs at hu
      · cases hu
        exact ⟨hw, hc⟩
      · exact h.all_users R r a u hr hu
  | @shared R err r u hin hu hget =>
    refine ⟨every_nil, Or.inl rfl, Rooms.All.store h.all_users fun a u' hu' => ?_⟩
    obtain ⟨u₀, hu₀, hlike⟩ : ∃ u₀, r.users.lookup a = some u₀ ∧ u'.id = u₀.id ∧
        u'.write = u₀.write := by
      rw [lookup_put] at hu'
      split_ifs at hu' with ha
      · cases hu'
        have hid := ((h.room R r hin.room).user _ _ hu).1
        exact ⟨u, by rw [ha]; exact hid ▸ hu, rfl, rfl⟩
      · exact ⟨u', hu', rfl, rfl⟩
    rw [hlike.1, hlike.2]
    exact h.all_users R r a u₀ hin.room hu₀

/-! ## The body of the loop -/

/-- **The actions `l` of a message** of `c` that takes the main loop from `s` to `t`. -/
structure ActsOk (s t : Rooms) (sent : List Send) (c : XID) (l : List Action) : Prop where
  connected : replay s.connected l = t.connected
  handedOut : handedOut l = sent
  orderly : Orderly s.connected l
  connects : ∀ c' R, .connect c' R ∈ l → c' = c
  disconnects : ∀ c', .disconnect c' ∈ l → c' ∈ s.connected
  closes : ∀ x c', .put x ∈ l → x.Closes c' → .disconnect c' ∈ l

/-- No message at all. -/
theorem ActsOk.nil (s : Rooms) (c : XID) : ActsOk s s [] c [] where
  connected := rfl
  handedOut := rfl
  orderly := trivial
  connects _ _ h := absurd h List.not_mem_nil
  disconnects _ h := absurd h List.not_mem_nil
  closes _ _ h := absurd h List.not_mem_nil

/-- What a handler notes about its client. -/
theorem entering_eq (s : Rooms) (info : ClientInfo) (out : Outcome) :
    entering s info out = [] ∨ ∃ R, entering s info out = [.connect info.id R] := by
  unfold entering
  cases out.rooms.connected.lookup info.id with
  | none => exact Or.inl rfl
  | some R =>
    by_cases h : s.connected.lookup info.id = some R
    · exact Or.inl (if_pos h)
    · exact Or.inr ⟨R, if_neg h⟩

theorem eq_connect_of_mem_entering {a : Action} (ha : a ∈ entering s info out) :
    ∃ R, a = .connect info.id R := by
  rcases entering_eq s info out with hnil | ⟨R, hone⟩
  · rw [hnil] at ha
    exact absurd ha List.not_mem_nil
  · rw [hone] at ha
    exact ⟨R, List.mem_singleton.mp ha⟩

theorem handedOut_entering : handedOut (entering s info out) = [] := by
  refine List.filterMap_eq_nil_iff.mpr fun a ha => ?_
  obtain ⟨R, rfl⟩ := eq_connect_of_mem_entering ha
  rfl

theorem orderly_entering : Orderly m (entering s info out) := by
  rcases entering_eq s info out with hnil | ⟨R, hone⟩
  · rw [hnil]
    trivial
  · rw [hone]
    trivial

theorem Calm.replay_entering (hcalm : Calm s info.id out) (hc : info.id ∈ s.connected) :
    replay s.connected (entering s info out) = out.rooms.connected := by
  obtain ⟨R₀, hR₀⟩ := Finmap.mem_iff.mp hc
  unfold entering
  rcases hcalm.connected with heq | ⟨R, hne, heq⟩
  · rw [heq, hR₀]
    exact congrArg (replay s.connected) (if_pos rfl)
  · rw [heq, Finmap.lookup_insert]
    exact congrArg (replay s.connected) (if_neg hne)

/-- **The actions of a handler** that is not a departure. -/
theorem Calm.actsOk (hcalm : Calm s info.id out) (hc : info.id ∈ s.connected) :
    ActsOk s out.rooms out.sent info.id (entering s info out ++ out.sent.map .put) := by
  have hquiet : ∀ x ∈ out.sent, ∀ c, ¬ x.Closes c := by
    intro x hx c hclose
    cases x with
    | write o m => exact hcalm.sent o m hx hclose.2
    | respond n => exact hclose
  have hmem : ∀ {a}, a ∈ entering s info out ++ out.sent.map .put →
      (∃ R, a = .connect info.id R) ∨ ∃ x ∈ out.sent, .put x = a := fun ha =>
    (List.mem_append.mp ha).imp eq_connect_of_mem_entering List.mem_map.mp
  refine ⟨?_, ?_, ?_, fun c' R h => ?_, fun c' h => ?_, fun x c' h hclose => ?_⟩
  · rw [replay_append, replay_puts, hcalm.replay_entering hc]
  · rw [handedOut_append, handedOut_entering, handedOut_puts, List.nil_append]
  · exact orderly_entering.append
      (orderly_puts fun x hx c hclose => absurd hclose (hquiet x hx c)) (noConnect_puts _)
  · rcases hmem h with ⟨R', heq⟩ | ⟨x, -, heq⟩
    · cases heq
      rfl
    · cases heq
  · rcases hmem h with ⟨R', heq⟩ | ⟨x, -, heq⟩ <;> cases heq
  · rcases hmem h with ⟨R', heq⟩ | ⟨y, hy, heq⟩
    · cases heq
    · cases heq
      exact absurd hclose (hquiet _ hy c')

variable (env ch) in
/-- **The actions of a departure**, after those of a handler. -/
theorem ActsOk.append_departure (hacts : ActsOk s t sent info.id l) (hw : info.write = ⟨info.id⟩)
    (hc : info.id ∈ s.connected) (ht : t.All fun u => u.write = ⟨u.id⟩ ∧ u.id ∈ s.connected)
    (d : Disconnected) :
    ActsOk s (d.executeNoError env ch t info).1 (sent ++ (d.executeNoError env ch t info).2)
      info.id (l ++ d.actions env ch t info) := by
  obtain ⟨horderly, hno, hdis, hclose⟩ := d.orderly env ch hw
    fun R r a u hr hu => (ht R r a u hr hu).1
  obtain ⟨hreplay, hout⟩ := d.replay_actions env ch t info
  refine ⟨?_, ?_, hacts.orderly.append (horderly _) hno, fun c' R hmem => ?_, fun c' hmem => ?_,
    fun x c' hmem hx => ?_⟩
  · rw [replay_append, hacts.connected, hreplay]
  · rw [handedOut_append, hacts.handedOut, hout]
  · exact (List.mem_append.mp hmem).elim (hacts.connects c' R) fun hmem => absurd hmem (hno c' R)
  · rcases List.mem_append.mp hmem with hmem | hmem
    · exact hacts.disconnects c' hmem
    · rcases hdis c' hmem with rfl | ⟨R, r, a, u, hr, hu, rfl⟩
      · exact hc
      · exact (ht R r a u hr hu).2
  · rcases List.mem_append.mp hmem with hmem | hmem
    · exact List.mem_append.mpr (Or.inl (hacts.closes x c' hmem hx))
    · exact List.mem_append.mpr (Or.inr (hclose x c' hmem hx))

/-- A `Connected` notes its client. -/
theorem Rooms.actions_connected (hnew : info.id ∉ s.connected) :
    s.actions env ch ⟨info, true, .connected⟩ = [.connect info.id ""] := by
  have hnone : s.connected.lookup info.id ≠ some "" := by
    rw [Finmap.lookup_eq_none.mpr hnew]
    exact nofun
  have hentering : entering s info ⟨{ s with connected := s.connected.insert info.id "" }, [],
      none⟩ = [.connect info.id ""] := by
    unfold entering
    rw [Finmap.lookup_insert]
    exact if_neg hnone
  calc s.actions env ch ⟨info, true, .connected⟩
      = entering s info ⟨{ s with connected := s.connected.insert info.id "" }, [], none⟩ ++ [] ++
          [] := rfl
    _ = [.connect info.id ""] := by rw [hentering]; rfl

/-- A `Health` is answered. -/
theorem Rooms.actions_health (s : Rooms) (info : ClientInfo) :
    s.actions env ch ⟨info, true, .health⟩ = [.put (.respond (GoMap.len s.connected))] := by
  have hentering : ∀ sent, entering s info ⟨s, sent, none⟩ = [] := by
    intro sent
    unfold entering
    cases h : s.connected.lookup info.id with
    | none => rfl
    | some R => exact if_pos rfl
  calc s.actions env ch ⟨info, true, .health⟩
      = entering s info ⟨s, [.respond (GoMap.len s.connected)], none⟩ ++
          [.put (.respond (GoMap.len s.connected))] ++ [] := rfl
    _ = [.put (.respond (GoMap.len s.connected))] := by rw [hentering]; rfl

/-- **Every message is a sequence of actions**: of a client that is not connected, of none; a
`Disconnected` disconnects its client first. -/
theorem Rooms.actsOk (ch : Choice) (h : Inv env s) (hw : info.write = ⟨info.id⟩)
    (he : e.fromClient = true) :
    ∃ t sent, s.handle env ch ⟨info, false, e⟩ = some (t, sent) ∧
      ActsOk s t sent info.id (s.actions env ch ⟨info, false, e⟩) ∧
      (info.id ∉ s.connected → s.actions env ch ⟨info, false, e⟩ = []) ∧
      (info.id ∈ s.connected → ∀ d, e = .disconnected d →
        ∃ rest, s.actions env ch ⟨info, false, e⟩ = .disconnect info.id :: rest) := by
  by_cases hc : info.id ∈ s.connected
  · obtain ⟨out, hex, hout⟩ := execute_executed ch h hw hc he
    obtain ⟨R₀, hR₀⟩ := Finmap.mem_iff.mp hc
    have hacts : s.actions env ch ⟨info, false, e⟩ = e.actions env ch s info out ++
        match out.err with
        | none => []
        | some reason => Disconnected.actions env ch ⟨closeNormalClosure, reason⟩ out.rooms info := by
      simp only [Rooms.actions, hR₀, Option.isNone_some, Bool.and_false, Bool.false_eq_true,
        if_false, hex]
    rw [hacts]
    by_cases he' : ∃ d, e = .disconnected d
    · obtain ⟨d, rfl⟩ := he'
      obtain rfl : out = ⟨(d.executeNoError env ch s info).1, (d.executeNoError env ch s info).2,
        none⟩ := (Option.some.inj hex).symm
      have hdeparture := (ActsOk.nil s info.id).append_departure env ch hw hc
        h.all_users d
      obtain ⟨sent, M, hfirst, -⟩ := d.actions_eq env ch s info
      refine ⟨(d.executeNoError env ch s info).1, (d.executeNoError env ch s info).2,
        handle_disconnected hc d, ?_, absurd hc, fun _ d' hd' =>
        ⟨sent.map .put ++ leaving M, ?_⟩⟩
      · simpa only [Event.actions, List.append_nil, List.nil_append] using hdeparture
      · rw [List.append_nil]
        exact hfirst
    · have hne : ∀ d, e ≠ .disconnected d := fun d heq => he' ⟨d, heq⟩
      have hcalm := hout.calm h hw hc hne
      have hevent : e.actions env ch s info out = entering s info out ++ out.sent.map .put := by
        cases e with
        | disconnected d => exact absurd rfl (hne d)
        | _ => rfl
      rw [handle_eq hc, hex, hevent]
      have hok := hcalm.actsOk hc
      cases herr : out.err with
      | none =>
        simp only [herr, Option.map_some, List.append_nil]
        exact ⟨_, _, rfl, hok, absurd hc, fun _ d hd => absurd hd (hne d)⟩
      | some reason =>
        simp only [herr, Option.map_some]
        exact ⟨_, _, rfl, hok.append_departure env ch hw hc hcalm.users _, absurd hc,
          fun _ d hd => absurd hd (hne d)⟩
  · have hnone := Finmap.lookup_eq_none.mpr hc
    have hacts : s.actions env ch ⟨info, false, e⟩ = [] := by
      simp only [Rooms.actions, hnone, Option.isNone_none, Bool.not_false, Bool.and_true, if_true]
    rw [hacts]
    refine ⟨s, [], ?_, ActsOk.nil s _, fun _ => rfl, fun hmem => absurd hmem hc⟩
    simp only [Rooms.handle, hnone, Option.isNone_none, Bool.not_false, Bool.and_true, if_true]

end Screego
