import Screego.Conversation
import Screego.HookCalls

/-!
# One call for each session

What the server announces to the viewers, and what their pages make of it.

* `AnnouncedOnce`: a session is announced once, to its host and to its viewer; **`server_announcedOnce`**;
* `Outgoing.Message.viewed`: the session that a message announces to a viewer;
* `Apart`: every socket has a client of its own;
* `CallsOnce`; **`one_call_for_each_session`**.
-/

set_option autoImplicit false

namespace Screego

open Lib Outgoing UseRoom

variable {env : Env} {raw : String → Json} {ch : Choice} {w w' : World} {i : Input} {u u' sid : XID}

/-! ## Announcements -/

/-- **Every session is announced once**, to its host and to its viewer. -/
def AnnouncedOnce (w : World) : Prop := ∀ sid, w.sends.filter (Send.Announces sid) = [] ∨
  ∃ (x : RoomSession) (ice ice' : List ICEServer), w.sends.filter (Send.Announces sid) =
    [.write ⟨x.host⟩ (.hostSession ⟨sid, x.client, ice⟩),
      .write ⟨x.client⟩ (.clientSession ⟨sid, x.host, ice'⟩)]

/-- Whatever was sent last announces nothing, or something new. -/
theorem AnnouncedOnce.change (h : w.Ok env) (hs : StoryOk env w) (ho : AnnouncedOnce w)
    (hch : w.Change env ch i w') : AnnouncedOnce w' := by
  cases hch with
  | upgrade => exact ho
  | stranger => exact ho
  | count =>
    intro sid
    have hnone : [Send.respond (GoMap.len w.rooms.connected)].filter (Send.Announces sid) = [] := rfl
    rw [sends_count, List.filter_append, hnone, List.append_nil]
    exact ho sid
  | @message c info e he t sent hc hch =>
    intro sid
    obtain ⟨A, L, heff⟩ := hch.effect h.inv
    rw [sends_after, List.filter_append]
    by_cases hA : ∃ a ∈ A, a.1 = sid
    · obtain ⟨a, ha, rfl⟩ := hA
      have hold : w.sends.filter (Send.Announces a.1) = [] := by
        refine List.filter_eq_nil_iff.mpr fun y hy => ?_
        rw [decide_eq_true_eq]
        exact hs.fresh a.1 (heff.new a ha).1 y hy
      obtain ⟨R, r, v4, v6, -, -, hnew⟩ := heff.begun a ha
      rw [hold, hnew, List.nil_append]
      exact Or.inr ⟨a.2, _, _, rfl⟩
    · have hnone : sent.filter (Send.Announces sid) = [] := by
        refine List.filter_eq_nil_iff.mpr fun y hy => ?_
        rw [decide_eq_true_eq]
        exact heff.quiet sid (fun a ha hid => hA ⟨a, ha, hid⟩) y hy
      rw [hnone, List.append_nil]
      exact ho sid

/-- **Every session is announced once, in every run.** -/
theorem server_announcedOnce (env : Env) :
    (server env).Always fun w => (w.Ok env ∧ LogOk w ∧ StoryOk env w) ∧ AnnouncedOnce w :=
  server_story_always (fun _ => Or.inl rfl) fun _ _ _ _ h hs ho hch => ho.change h hs hch

namespace AnnouncedOnce

variable {q q' : P2PSession}

/-- The announcement to a viewer. -/
theorem eq_of_mem (ho : AnnouncedOnce w) (hq : .write ⟨u⟩ (.clientSession q) ∈ w.sends)
    (hq' : .write ⟨u'⟩ (.clientSession q') ∈ w.sends) (hid : q.id = q'.id) : u = u' := by
  have hmem : _ ∈ w.sends.filter (Send.Announces q.id) := List.mem_filter.mpr ⟨hq, decide_eq_true
    (show Send.Announces q.id (.write ⟨u⟩ (.clientSession q)) from rfl)⟩
  have hmem' : _ ∈ w.sends.filter (Send.Announces q.id) := List.mem_filter.mpr ⟨hq', decide_eq_true
    (show Send.Announces q.id (.write ⟨u'⟩ (.clientSession q')) from hid.symm)⟩
  rcases ho q.id with hnil | ⟨x, ice, ice', hall⟩
  · rw [hnil] at hmem
    exact absurd hmem List.not_mem_nil
  · rw [hall] at hmem hmem'
    simp only [List.mem_cons, Send.write.injEq, reduceCtorEq, and_false, List.not_mem_nil, or_false,
      false_or] at hmem hmem'
    exact congrArg Chan.owner (hmem.1.trans hmem'.1.symm)

/-- Two announcements to viewers are of two sessions. -/
theorem ne_of_sublist (ho : AnnouncedOnce w) (h : [Send.write ⟨u⟩ (.clientSession q),
    .write ⟨u'⟩ (.clientSession q')].Sublist w.sends) : q.id ≠ q'.id := by
  intro hid
  have hfilter := h.filter (Send.Announces q.id)
  rw [List.filter_eq_self.mpr (by simp [Send.Announces, Message.Announces, hid])] at hfilter
  rcases ho q.id with hnil | ⟨x, ice, ice', hall⟩
  · rw [hnil] at hfilter
    exact absurd hfilter.length_le (by simp)
  · -- the first of the two announcements goes to the host
    rw [hall] at hfilter
    have heq := hfilter.eq_of_length rfl
    simp at heq

end AnnouncedOnce

/-- The session and its host, for a viewer. -/
def Outgoing.Message.viewed (env : Env) : Message → Option (String × String)
  | .clientSession q => some (env.xidString q.id, env.xidString q.peer)
  | _ => none

theorem viewed_frame (m : Message) : (frame env m).bind Frame.viewed = m.viewed env := by
  cases m <;> rfl

theorem eq_clientSession_of_viewed {m : Message} {y : String × String} (h : m.viewed env = some y) :
    ∃ q, m = .clientSession q ∧ y = (env.xidString q.id, env.xidString q.peer) := by
  cases m with
  | clientSession q => exact ⟨q, rfl, (Option.some.inj h).symm⟩
  | _ => cases h

/-- A log is part of what was sent. -/
theorem sublist_heard (u : XID) (l : List Send) : ((heard u l).map (Send.write ⟨u⟩)).Sublist l := by
  induction l with
  | nil => exact List.Sublist.refl _
  | cons y l ih =>
    rw [heard_cons]
    cases hy : y.heardBy u with
    | none => exact ih.cons y
    | some m =>
      have hwrite : y = .write ⟨u⟩ m := by
        have hmem : m ∈ heard u [y] := by simp [heard, hy]
        exact (List.mem_singleton.mp (mem_heard.mp hmem)).symm
      rw [hwrite]
      exact ih.cons_cons _

/-- **No viewer is told of a session twice.** -/
theorem viewed_log_nodup (ho : AnnouncedOnce w) (u : XID) :
    (((w.log u).filterMap (Message.viewed env)).map Prod.fst).Nodup := by
  rw [List.Nodup, List.pairwise_map, List.pairwise_filterMap, List.pairwise_iff_forall_sublist]
  intro m m' hsub y hy y' hy' hfst
  obtain ⟨q, rfl, rfl⟩ := eq_clientSession_of_viewed hy
  obtain ⟨q', rfl, rfl⟩ := eq_clientSession_of_viewed hy'
  rw [log_eq_heard] at hsub
  exact ho.ne_of_sublist ((hsub.map (Send.write ⟨u⟩)).trans (sublist_heard u w.sends))
    (env.xidString_injective hfst)

/-! ## Sockets and clients -/

section Wires

variable {P : Type} [DecidableEq P] {d d' : Deployment P} {a : Happening P} {p p' : P} {k k' : ℕ}
  {x x' : Wire}

theorem World.Change.drawn_le (hch : w.Change env ch i w') : w.rooms.drawn ≤ w'.rooms.drawn := by
  cases hch with
  | upgrade => exact Nat.le_succ _
  | stranger | count => exact le_rfl
  | message hc hch => exact Screego.Change.drawn_le hch

/-- **Every socket has a client of its own.** -/
structure Apart (env : Env) (d : Deployment P) : Prop where
  drawn : ∀ p k x, d.wires p k = some x → env.Drawn d.world.rooms.drawn x.client
  apart : ∀ p k x p' k' x', d.wires p k = some x → d.wires p' k' = some x' → x.client = x'.client →
    p = p' ∧ k = k'

/-- **A wire after a step** was there before, or its connection has just been upgraded. -/
theorem wires_back (hok : d.world.Ok env) (hs : d.step env raw a = some d') (hx' : d'.wires p k = some x') :
    d.world.rooms.drawn ≤ d'.world.rooms.drawn ∧
      ((∃ x, d.wires p k = some x ∧ x'.client = x.client) ∨
        (∃ ch addr user authenticated, a = .upgrade p k ch addr user authenticated) ∧
          x'.client = env.xidNew d.world.rooms.drawn ∧ d'.world.rooms.drawn = d.world.rooms.drawn + 1) := by
  have hset : ∀ {d₁ : Deployment P} {p' : P} {k' : ℕ} {y y' : Wire}, d₁.wires = d.wires →
      d.wires p' k' = some y → (d₁.setWire p' k' y').wires p k = some x' → y'.client = y.client →
      ∃ x, d.wires p k = some x ∧ x'.client = x.client := by
    intro d₁ p' k' y y' hd₁ hy hx' hclient
    rw [wires_setWire] at hx'
    split_ifs at hx' with h
    · obtain ⟨rfl, rfl⟩ := h
      exact ⟨y, hy, Option.some.inj hx' ▸ hclient⟩
    · exact ⟨x', hd₁ ▸ hx', rfl⟩
  cases happens_of_step hs with
  | server hw => exact ⟨(hok.change_of_step hw).drawn_le, Or.inl ⟨x', hx', rfl⟩⟩
  | @upgrade p' k' ch addr user authenticated w hnew hw =>
    have hch := hok.change_of_step hw
    refine ⟨hch.drawn_le, ?_⟩
    rw [wires_setWire] at hx'
    split_ifs at hx' with h
    · obtain ⟨rfl, rfl⟩ := h
      obtain rfl := Option.some.inj hx'
      cases hch
      exact Or.inr ⟨⟨ch, addr, user, authenticated, rfl⟩, rfl, rfl⟩
    · exact Or.inl ⟨x', hx', rfl⟩
  | write hx => exact ⟨le_rfl, Or.inl (hset rfl hx hx' rfl)⟩
  | drop hx => exact ⟨le_rfl, Or.inl (hset rfl hx hx' rfl)⟩
  | page => exact ⟨le_rfl, Or.inl ⟨x', hx', rfl⟩⟩

omit [DecidableEq P] in
theorem Apart.init : Apart env (Deployment.init env : Deployment P) where
  drawn _ _ _ hx := nomatch hx
  apart _ _ _ _ _ _ hx _ _ := nomatch hx

theorem Apart.step (h : Apart env d) (hok : d.world.Ok env) (hs : d.step env raw a = some d') :
    Apart env d' where
  drawn p k x' hx' := by
    obtain ⟨hle, ⟨x, hx, hclient⟩ | ⟨-, hclient, hdrawn⟩⟩ := wires_back hok hs hx'
    · exact hclient ▸ (h.drawn p k x hx).mono hle
    · rw [hclient, hdrawn, Env.drawn_xidNew]
      exact Nat.lt_succ_self _
  apart p k x p' k' x' hx hx' hsame := by
    have hnew : ∀ {p k y}, d.wires p k = some y → y.client ≠ env.xidNew d.world.rooms.drawn := by
      intro p k y hy he
      exact absurd (Env.drawn_xidNew.mp (he ▸ h.drawn p k y hy)) (Nat.lt_irrefl _)
    obtain ⟨-, ⟨y, hy, hclient⟩ | ⟨⟨ch, addr, user, authenticated, ha⟩, hclient, -⟩⟩ := wires_back hok hs hx
    · obtain ⟨-, ⟨y', hy', hclient'⟩ | ⟨-, hclient', -⟩⟩ := wires_back hok hs hx'
      · exact h.apart p k y p' k' y' hy hy' (hclient.symm.trans (hsame.trans hclient'))
      · exact absurd (hclient.symm.trans (hsame.trans hclient')) (hnew hy)
    · obtain ⟨-, ⟨y', hy', hclient'⟩ | ⟨⟨ch', addr', user', authenticated', ha'⟩, -, -⟩⟩ :=
        wires_back hok hs hx'
      · exact absurd (hclient'.symm.trans (hsame.symm.trans hclient)) (hnew hy')
      · obtain ⟨rfl, rfl, -⟩ := Happening.upgrade.inj (ha.symm.trans ha')
        exact ⟨rfl, rfl⟩

/-! ## One call for each session -/

omit [DecidableEq P] in
/-- The first message that a client is told is no announcement to a viewer. -/
theorem viewed_head_log (hok : w.Ok env) (hl : LogOk w) {m : Message} {rest : List Message}
    (hlog : w.log u = m :: rest) : m.viewed env = none := by
  have hopen : ∀ {l : List Message}, Open l → ∀ rest, l = m :: rest → m.viewed env = none := by
    rintro l ⟨m', body, rfl, -⟩ rest he
    obtain ⟨rfl, -⟩ := List.cons.inj he
    rfl
  by_cases hc : u ∈ w.clients
  swap
  · exact absurd (hlog.symm.trans (hl.stranger u hc)) (List.cons_ne_nil _ _)
  by_cases hcon : u ∈ w.rooms.connected
  · rcases hok.inv.idle_or_seats hcon with hidle | hseats
    · exact absurd (hlog.symm.trans (hl.idle u hidle)) (List.cons_ne_nil _ _)
    · exact hopen (hl.user u hseats) rest hlog
  · obtain ⟨pre, m', hpre, hclose, rfl | hp⟩ := hl.gone u hc hcon
    · obtain ⟨rfl, -⟩ := List.cons.inj (hlog.symm.trans hpre)
      cases m <;> first | rfl | exact hclose.elim
    · obtain ⟨m₁, body, rfl, -⟩ := hp
      obtain ⟨rfl, -⟩ := List.cons.inj (hlog.symm.trans hpre)
      rfl

/-- **The calls of a page**, one for each session. -/
structure CallsOnce (env : Env) (d : Deployment P) (p : P) : Prop where
  /-- No session has two calls that view it, whatever their sockets. -/
  once : (((d.pages p).sessions.filterMap Session.viewed).map Prod.fst).Nodup
  /-- No two streams that the page shows have one id. -/
  streams : ∀ cr, (d.pages p).state = some cr → (cr.clientStreams.map UseRoom.ClientStream.id).Nodup
  /-- The calls of a socket are for sessions that its client was told of, in their order. -/
  told : ∀ k x, d.wires p k = some x →
    ((d.pages p).viewed k).Sublist ((d.sofar x).filterMap (Message.viewed env))
  /-- If nothing was lost, they are for all of them. -/
  all : ∀ k x, d.wires p k = some x → x.intact = true →
    (d.pages p).viewed k = (d.sofar x).filterMap (Message.viewed env)
  /-- The sessions that the client is to view have their calls, as soon as the page is up to date. -/
  live : ∀ k x, d.wires p k = some x → d.UpToDate x → ∀ sid y, d.world.rooms.Serves sid y →
    y.client = x.client → (env.xidString sid, env.xidString y.host) ∈ (d.pages p).viewed k

variable (hd : Sound env d) (ho : AnnouncedOnce d.world) (ha : Apart env d) (hv : Viewed (d.pages p))
  (hsrc : ShowsSourced (d.pages p))

include hd hv

omit [DecidableEq P] in
theorem viewed_sublist (hx : d.wires p k = some x) :
    ((d.pages p).viewed k).Sublist ((d.sofar x).filterMap (Message.viewed env)) := by
  have hcarries := hd.wires.wired p k x hx
  have hviewed : (fun m => (frame env m).bind Frame.viewed) = Message.viewed env := by
    funext m
    exact viewed_frame m
  rw [hv.viewed k, ← hviewed, ← List.filterMap_filterMap]
  exact ((List.tail_sublist _).trans hcarries.frames).filterMap _

omit [DecidableEq P] in
theorem viewed_of_intact (hx : d.wires p k = some x) (hintact : x.intact = true) :
    (d.pages p).viewed k = (d.sofar x).filterMap (Message.viewed env) := by
  obtain ⟨hframes, hno⟩ := (hd.wires.wired p k x hx).intact hintact
  have hviewed : (fun m => (frame env m).bind Frame.viewed) = Message.viewed env := by
    funext m
    exact viewed_frame m
  rw [hv.viewed k, hframes, ← hviewed, ← List.filterMap_filterMap]
  cases hsofar : d.sofar x with
  | nil => rfl
  | cons m rest =>
    have hhead : m.viewed env = none := by
      have hlog : d.world.log x.client = m :: (rest ++ (d.world.log x.client).drop x.written) := by
        rw [← List.cons_append, ← hsofar, Deployment.sofar, List.take_append_drop]
      exact viewed_head_log hd.ok hd.log hlog
    cases hm : frame env m with
    | none => exact absurd ((frame_eq_none env).mp hm) (hno m (hsofar ▸ List.mem_cons_self))
    | some event =>
      have hevent : event.viewed = none := by
        rw [← hhead, ← viewed_frame, hm]
        rfl
      rw [List.filterMap_cons, hm, List.tail_cons, List.filterMap_cons, hevent]

include ho

omit [DecidableEq P] in
theorem viewed_nodup (hx : d.wires p k = some x) : (((d.pages p).viewed k).map Prod.fst).Nodup := by
  have hlog : ((d.pages p).viewed k).Sublist ((d.world.log x.client).filterMap (Message.viewed env)) :=
    (viewed_sublist hd hv hx).trans ((List.take_sublist _ _).filterMap _)
  exact (viewed_log_nodup ho x.client).sublist (hlog.map Prod.fst)

include ha

omit [DecidableEq P] in
/-- Two calls for one session are of one socket, and a socket has no two. -/
theorem calls_nodup : (((d.pages p).sessions.filterMap Session.viewed).map Prod.fst).Nodup := by
  have hannounced : ∀ {σ : Session} {y : String × String}, σ ∈ (d.pages p).sessions → σ.viewed = some y →
      ∃ x q, d.wires p σ.ws = some x ∧ y.1 = env.xidString q.id ∧
        .write ⟨x.client⟩ (.clientSession q) ∈ d.world.sends := by
    intro σ y hσ hy
    obtain ⟨x, id, hx, hsid, m, hm, hinvites⟩ := told_of_session hd.wires (hd.announced p) hσ
    unfold Session.viewed at hy
    cases hside : σ.side with
    | host =>
      rw [hside] at hy
      cases hy
    | client =>
      rw [hside] at hy hinvites
      obtain rfl := Option.some.inj hy
      cases m with
      | clientSession q => exact ⟨x, q, hx, hinvites.2 ▸ hsid, mem_log.mp hm⟩
      | hostSession q => cases hinvites.1
      | _ => exact hinvites.elim
  rw [List.Nodup, List.pairwise_map, List.pairwise_filterMap, List.pairwise_iff_forall_sublist]
  intro σ σ' hsub y hy y' hy' hfst
  obtain ⟨x, q, hx, hyq, hq⟩ := hannounced (hsub.subset List.mem_cons_self) hy
  obtain ⟨x', q', hx', hyq', hq'⟩ :=
    hannounced (hsub.subset (List.mem_cons_of_mem _ List.mem_cons_self)) hy'
  have hid : q.id = q'.id := env.xidString_injective (hyq.symm.trans (hfst.trans hyq'))
  have hws : σ'.ws = σ.ws := (ha.apart p _ x p _ x' hx hx' (ho.eq_of_mem hq hq' hid)).2.symm
  have hpair := (hsub.filterMap (Session.viewedOn σ.ws)).map Prod.fst
  have hcalls : [σ, σ'].filterMap (Session.viewedOn σ.ws) = [y, y'] := by
    simp [Session.viewedOn, hws, hy, hy']
  rw [hcalls] at hpair
  have hnodup := (viewed_nodup hd ho hv hx).sublist hpair
  simp [hfst] at hnodup

include hsrc

omit [DecidableEq P] in
/-- Streams of one id would be of two calls. -/
theorem streams_nodup {cr : ConnectedRoom} (hcr : (d.pages p).state = some cr) :
    (cr.clientStreams.map UseRoom.ClientStream.id).Nodup := by
  have hsourced := hsrc cr hcr
  have hcalls := calls_nodup hd ho ha hv
  rw [List.Nodup, List.pairwise_map, List.pairwise_filterMap] at hcalls
  have hindex : ∀ s ∈ cr.clientStreams, ∀ s' ∈ cr.clientStreams, s.id = s'.id →
      ¬ s.session < s'.session := by
    intro s hs s' hs' hid hlt
    obtain ⟨σ, hσ, hviewed, -⟩ := hsourced.brought s hs
    obtain ⟨σ', hσ', hviewed', -⟩ := hsourced.brought s' hs'
    obtain ⟨hn, rfl⟩ := List.getElem?_eq_some_iff.mp hσ
    obtain ⟨hn', rfl⟩ := List.getElem?_eq_some_iff.mp hσ'
    exact List.pairwise_iff_getElem.mp hcalls _ _ hn hn' hlt _ hviewed _ hviewed' hid
  have hapart := hsourced.apart
  rw [List.Nodup, List.pairwise_map, List.pairwise_iff_forall_sublist] at hapart ⊢
  intro s s' hsub hid
  have hs := hsub.subset List.mem_cons_self
  have hs' := hsub.subset (List.mem_cons_of_mem _ List.mem_cons_self)
  exact hapart hsub (Nat.le_antisymm (Nat.not_lt.mp (hindex s' hs' s hs hid.symm))
    (Nat.not_lt.mp (hindex s hs s' hs' hid)))

end Wires

section Page

variable {P : Type} [DecidableEq P]

/-- **What is known of the calls of a page.** -/
structure CallsOk (env : Env) (d : Deployment P) (p : P) : Prop where
  sound : Sound env d
  once : AnnouncedOnce d.world
  apart : Apart env d
  viewed : Viewed (d.pages p)
  sourced : ShowsSourced (d.pages p)

theorem deployment_callsOk (env : Env) (raw : String → Json) (p : P) :
    (deployment P env raw).Safe fun d => CallsOk env d p := by
  have hapart : (deployment P env raw).Safe fun d => Sound env d ∧ Apart env d :=
    (deployment_sound env raw).and_of_step .init fun d a d' hd ha hs => ha.step hd.ok hs
  intro is d hrun
  exact ⟨(hapart is d hrun).1,
    ((component_server env raw).safe (server_announcedOnce env) is d hrun).2, (hapart is d hrun).2,
    (component_hook env raw p).safe hook_viewed is d hrun,
    (component_hook env raw p).safe hook_showsSourced is d hrun⟩

/-- **One call for each session.** In every run of the server, the sockets and the pages: no page views a
session by two calls or shows two streams of one id; the calls of a socket are for sessions that its client
was told of, for all of them if nothing was lost; and as soon as the page has handled everything that its
client was told, every session that the client is to view has its call. -/
theorem one_call_for_each_session (env : Env) (raw : String → Json) (p : P) :
    (deployment P env raw).Safe fun d => CallsOnce env d p := by
  intro is d hrun
  obtain ⟨hd, ho, ha, hv, hsrc⟩ := deployment_callsOk env raw p is d hrun
  refine ⟨calls_nodup hd ho ha hv, fun cr hcr => streams_nodup hd ho ha hv hsrc hcr,
    fun k x hx => viewed_sublist hd hv hx, fun k x hx => viewed_of_intact hd hv hx,
    fun k x hx hup sid y hy hclient => ?_⟩
  rw [viewed_of_intact hd hv hx hup.1, Deployment.sofar, hup.2, List.take_length, List.mem_filterMap]
  obtain ⟨ice, hm⟩ := hd.story.mem_client hy
  exact ⟨_, hclient ▸ hm, rfl⟩

end Page

/-- Somebody shares in a room, and a page joins it. -/
def watchingPage : List (Happening Unit) :=
  [.server Choice.plain (.upgrade [] "" false),
    .server Choice.plain (.create ⟨0⟩ ⟨"room", connectionLocal, false, "", "a", false⟩),
    .server Choice.plain (.receive ⟨0⟩ .startShare (@rfl _ true)), .page () .room (@rfl _ false),
    .upgrade () 0 Choice.plain [] "" false, .page () (.opened 0) (@rfl _ false),
    .server Choice.plain (.receive ⟨1⟩ (.join ⟨"room", "", "b"⟩) (@rfl _ true)), .write () 0, .write () 0]

example : ((deployment Unit openServer fun _ => .null).run watchingPage).map
    (fun d => (d.pages ()).viewed 0) = some [("00000000000000000010", "00000000000000000000")] := by
  decide +kernel

end Screego
