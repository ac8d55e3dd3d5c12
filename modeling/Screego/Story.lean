import Screego.Log

/-!
# What the clients know of the sessions

The announcements and the `EndShare` messages of a run, against the sessions of the rooms.

* `Viewing`, `Hosting`: the sessions a client takes to be live, as viewer and as host;
* **`StoryOk`**: a session is announced once to each side and not ended while it lives; a user takes
  no other session to be live; only announced sessions are ended, and only once;
* `StoryOk.message`, `server_storyOk`; `server_story_always`: the induction rule on top of it.
-/

set_option autoImplicit false

namespace Screego

open Lib Outgoing

variable {env : Env} {ch : Choice} {s t : Rooms} {info : ClientInfo} {e : Event} {sent : List Send}
  {w w' : World} {i : Input} {u c sid : XID} {x : RoomSession}

/-! ## Sends, logs and views -/

theorem log_eq_heard (w : World) (u : XID) : w.log u = heard u w.sends := by
  rw [World.log, heard, World.sends, List.filterMap_filterMap]
  refine List.filterMap_congr fun y _ => ?_
  cases y <;> rfl

theorem mem_log {m : Message} : m ∈ w.log u ↔ .write ⟨u⟩ m ∈ w.sends := by
  rw [log_eq_heard, mem_heard]

theorem mem_view {m : Message} : .heard m ∈ w.view u ↔ m ∈ w.log u := by
  simp only [World.view, World.log, List.mem_filterMap]
  refine exists_congr fun y => and_congr_right fun _ => ?_
  cases y with
  | got c e =>
    simp only [Item.seenBy, Item.heardBy, reduceCtorEq, iff_false]
    split_ifs <;> simp
  | sent y => simp [Item.seenBy, Item.heardBy]

/-! ## The sessions a client knows -/

/-- `u` was told to view the session `sid`, and not told of its end. -/
def Viewing (sid : XID) : List Message → Prop :=
  Since (fun m => m = .endShare sid) fun m => ∃ p, m = .clientSession p ∧ p.id = sid

/-- `u` was told to host the session `sid`, was not told of its end and has not stopped to share. -/
def Hosting (sid : XID) : List Seen → Prop :=
  Since (fun y => y = .heard (.endShare sid) ∨ y = .said .stopShare)
    fun y => ∃ p, y = .heard (.hostSession p) ∧ p.id = sid

/-- An `EndShare` is for a session announced before and not ended before. -/
def EndGuard (pre : List Message) (m : Message) : Prop :=
  ∀ sid, m = .endShare sid → (∃ m' ∈ pre, m'.Announces sid) ∧ .endShare sid ∉ pre

/-- **The story of the sessions.** -/
structure StoryOk (env : Env) (w : World) : Prop where
  fresh : ∀ sid, ¬ env.Drawn w.rooms.drawn sid → ∀ y ∈ w.sends, ¬ y.Announces sid
  announced : ∀ sid x, w.rooms.Serves sid x → ∃ ice ice',
    w.sends.filter (Send.Announces sid) = [.write ⟨x.host⟩ (.hostSession ⟨sid, x.client, ice⟩),
      .write ⟨x.client⟩ (.clientSession ⟨sid, x.host, ice'⟩)]
  going : ∀ sid x, w.rooms.Serves sid x → ∀ u, .endShare sid ∉ w.log u
  hosting : ∀ sid x, w.rooms.Serves sid x → Hosting sid (w.view x.host)
  viewers : ∀ u sid, w.rooms.Seats u → Viewing sid (w.log u) →
    ∃ x, w.rooms.Serves sid x ∧ x.client = u
  hosts : ∀ u sid, w.rooms.Seats u → Hosting sid (w.view u) → ∃ x, w.rooms.Serves sid x ∧ x.host = u
  ends : ∀ u, Guarded EndGuard (w.log u)

namespace StoryOk

variable (hs : StoryOk env w)

include hs

theorem mem_host (hx : w.rooms.Serves sid x) :
    ∃ ice, .hostSession ⟨sid, x.client, ice⟩ ∈ w.log x.host := by
  obtain ⟨ice, ice', hf⟩ := hs.announced sid x hx
  refine ⟨ice, mem_log.mpr (List.mem_of_mem_filter (p := Send.Announces sid) ?_)⟩
  rw [hf]
  exact List.mem_cons_self

theorem mem_client (hx : w.rooms.Serves sid x) :
    ∃ ice, .clientSession ⟨sid, x.host, ice⟩ ∈ w.log x.client := by
  obtain ⟨ice, ice', hf⟩ := hs.announced sid x hx
  refine ⟨ice', mem_log.mpr (List.mem_of_mem_filter (p := Send.Announces sid) ?_)⟩
  rw [hf]
  exact List.mem_cons_of_mem _ List.mem_cons_self

/-- The client of a session takes it to be live. -/
theorem viewing (hx : w.rooms.Serves sid x) : Viewing sid (w.log x.client) := by
  obtain ⟨ice, hm⟩ := hs.mem_client hx
  refine since_of_forall_not (fun m hm' he => ?_) ⟨_, hm, _, rfl, rfl⟩
  exact hs.going sid x hx _ (he ▸ hm')

/-- Nothing was said of a session that has not begun. -/
theorem endShare_notMem (hd : ¬ env.Drawn w.rooms.drawn sid) : .endShare sid ∉ w.log u := by
  intro hm
  obtain ⟨pre, post, hlog⟩ := List.append_of_mem hm
  obtain ⟨⟨m, hm, hann⟩, -⟩ := hs.ends u pre _ post hlog sid rfl
  have hm' : m ∈ w.log u := hlog ▸ List.mem_append_left _ hm
  exact hs.fresh sid hd _ (mem_log.mp hm') hann

end StoryOk

/-! ## One message -/

section Message

variable {A L : List (XID × RoomSession)} (heff : Effect env ch s c e t sent A L)

include heff

/-- An announcement belongs to a new session and goes to one of its sides. -/
theorem Effect.mem_announced {y : Send} (hy : y ∈ sent) (hann : y.Announces sid) :
    ∃ a ∈ A, a.1 = sid ∧ ((∃ ice, y = .write ⟨a.2.host⟩ (.hostSession ⟨sid, a.2.client, ice⟩)) ∨
      ∃ ice, y = .write ⟨a.2.client⟩ (.clientSession ⟨sid, a.2.host, ice⟩)) := by
  have hA : ∃ a ∈ A, a.1 = sid := by
    by_contra hno
    exact heff.quiet sid (fun a ha he => hno ⟨a, ha, he⟩) y hy hann
  obtain ⟨a, ha, rfl⟩ := hA
  obtain ⟨R, r, v4, v6, -, -, hf⟩ := heff.begun a ha
  have hmem : y ∈ sent.filter (Send.Announces a.1) :=
    List.mem_filter.mpr ⟨hy, decide_eq_true hann⟩
  rw [hf] at hmem
  refine ⟨a, ha, rfl, ?_⟩
  rcases List.mem_cons.mp hmem with rfl | hmem
  · exact Or.inl ⟨_, rfl⟩
  · exact Or.inr ⟨_, List.mem_singleton.mp hmem⟩

/-- The host of a new session hears of it. -/
theorem Effect.mem_begun {a : XID × RoomSession} (ha : a ∈ A) :
    ∃ ice, .hostSession ⟨a.1, a.2.client, ice⟩ ∈ heard a.2.host sent := by
  obtain ⟨R, r, v4, v6, -, -, hf⟩ := heff.begun a ha
  have hsub : ∀ y ∈ announce env ch v4 v6 r.mode s.turnServer a, y ∈ sent := fun y hy =>
    List.mem_of_mem_filter (hf ▸ hy)
  exact ⟨_, mem_heard.mpr (hsub _ List.mem_cons_self)⟩

/-- No message ends a session that is live afterwards. -/
theorem Effect.endShare_notMem (h : Inv env s) (hx : t.Serves sid x) (u : XID) :
    .endShare sid ∉ heard u sent := by
  intro hm
  obtain ⟨x', hL, -⟩ := heff.told u sid (List.mem_filterMap.mpr ⟨_, hm, rfl⟩)
  have hold := heff.ended _ hL
  rcases (heff.serves sid x).mp hx with ⟨hx, hnot⟩ | hA
  · exact hnot (h.serves_unique hx hold ▸ hL)
  · exact (heff.new _ hA).1 (h.serves_drawn hold)

/-- A session that was live and is announced no more. -/
theorem Effect.filter_eq_nil (h : Inv env s) (hx : s.Serves sid x) :
    sent.filter (Send.Announces sid) = [] := by
  refine List.filter_eq_nil_iff.mpr fun y hy => ?_
  rw [decide_eq_true_eq]
  refine heff.quiet sid (fun a ha he => (heff.new a ha).1 ?_) y hy
  rw [he]
  exact h.serves_drawn hx

/-- Where a live session has ended, the sides that stay have heard of it or asked for it. -/
theorem Effect.reported_of_ended (hold : s.Serves sid x) (hnew : ¬ t.Serves sid x)
    (hu : u = x.host ∨ u = x.client) (ht : u ∈ t.connected) :
    .endShare sid ∈ heard u sent ∨ (u = x.host ∧ u = c ∧ e = .stopShare) := by
  have hL : (sid, x) ∈ L := by
    by_contra hno
    exact hnew ((heff.serves sid x).mpr (Or.inl ⟨hold, hno⟩))
  refine (heff.reported _ hL u hu ht).imp_left fun hm => ?_
  obtain ⟨m, hm, hend⟩ := List.mem_filterMap.mp hm
  cases m with
  | endShare id =>
    cases hend
    exact hm
  | _ => cases hend

end Message

/-- A user after the message was one before, or had heard nothing. -/
theorem seats_or_log_eq_nil (h : w.Ok env) (hl : LogOk w) (hw : info.write = ⟨info.id⟩)
    (hch : Screego.Change env ch w.rooms info e t sent) (hu : t.Seats u) :
    w.rooms.Seats u ∨ w.log u = [] := by
  have ht := h.inv.change hw hch
  refine (h.inv.idle_or_seats (hch.mem_connected (ht.seats_connected hu))).symm.imp_right ?_
  exact hl.idle u

section After

variable {A L : List (XID × RoomSession)} (h : w.Ok env) (hl : LogOk w) (hs : StoryOk env w)
  (hw : info.write = ⟨info.id⟩) (hch : Screego.Change env ch w.rooms info e t sent)
  (heff : Effect env ch w.rooms info.id e t sent A L)

include h hs heff

theorem StoryOk.announced_after (hx : t.Serves sid x) : ∃ ice ice',
    (w.sends ++ sent).filter (Send.Announces sid) =
      [.write ⟨x.host⟩ (.hostSession ⟨sid, x.client, ice⟩),
        .write ⟨x.client⟩ (.clientSession ⟨sid, x.host, ice'⟩)] := by
  rw [List.filter_append]
  rcases (heff.serves sid x).mp hx with ⟨hx, -⟩ | hA
  · rw [heff.filter_eq_nil h.inv hx, List.append_nil]
    exact hs.announced sid x hx
  · obtain ⟨R, r, v4, v6, -, -, hf⟩ := heff.begun _ hA
    have hold : w.sends.filter (Send.Announces sid) = [] :=
      List.filter_eq_nil_iff.mpr fun y hy => by
        rw [decide_eq_true_eq]
        exact hs.fresh sid (heff.new _ hA).1 y hy
    rw [hold, hf, List.nil_append]
    exact ⟨_, _, rfl⟩

theorem StoryOk.going_after (hx : t.Serves sid x) (u : XID) :
    .endShare sid ∉ w.log u ++ heard u sent := by
  intro hm
  rcases List.mem_append.mp hm with hm | hm
  · rcases (heff.serves sid x).mp hx with ⟨hx, -⟩ | hA
    · exact hs.going sid x hx u hm
    · exact hs.endShare_notMem (heff.new _ hA).1 hm
  · exact heff.endShare_notMem h.inv hx u hm

/-- The host of a session that is live afterwards has not stopped it. -/
theorem StoryOk.hosting_after (hx : t.Serves sid x) :
    Hosting sid (w.view x.host ++ (spoken x.host info.id e ++ (heard x.host sent).map .heard)) := by
  have hnone : ∀ m ∈ heard x.host sent, Seen.heard m ≠ .heard (.endShare sid) := by
    rintro m hm he
    cases he
    exact heff.endShare_notMem h.inv hx _ hm
  rcases (heff.serves sid x).mp hx with ⟨hold, -⟩ | hA
  · refine since_append.mpr (Or.inr ⟨hs.hosting sid x hold, fun y hy => ?_⟩)
    rcases List.mem_append.mp hy with hy | hy
    · unfold spoken at hy
      split_ifs at hy with hc
      · rw [List.mem_singleton.mp hy]
        rintro (hr | hr)
        · cases hr
        · cases hr
          exact heff.stop rfl sid x hx hc.symm
      · exact absurd hy List.not_mem_nil
    · obtain ⟨m, hm, rfl⟩ := List.mem_map.mp hy
      rintro (hr | hr)
      · exact hnone m hm hr
      · cases hr
  · obtain ⟨ice, hm⟩ := heff.mem_begun hA
    refine since_append.mpr (Or.inl (since_append.mpr (Or.inl ?_)))
    refine since_of_forall_not (fun y hy => ?_) ⟨_, List.mem_map_of_mem hm, _, rfl, rfl⟩
    obtain ⟨m, hm, rfl⟩ := List.mem_map.mp hy
    rintro (hr | hr)
    · exact hnone m hm hr
    · cases hr

include hl hw hch

theorem StoryOk.viewers_after (hu : t.Seats u) (hv : Viewing sid (w.log u ++ heard u sent)) :
    ∃ x, t.Serves sid x ∧ x.client = u := by
  rcases since_append.mp hv with hnew | ⟨hold, hnone⟩
  · obtain ⟨m, hm, p, rfl, hp⟩ := hnew.exists_mem
    obtain ⟨a, ha, rfl, ⟨ice, hy⟩ | ⟨ice, hy⟩⟩ := heff.mem_announced (mem_heard.mp hm) hp
    · cases hy
    · cases hy
      exact ⟨a.2, (heff.serves _ _).mpr (Or.inr ha), rfl⟩
  · have hseat : w.rooms.Seats u := by
      refine (seats_or_log_eq_nil h hl hw hch hu).resolve_right fun hlog => ?_
      rw [hlog] at hold
      exact not_since_nil hold
    obtain ⟨x, hx, rfl⟩ := hs.viewers u sid hseat hold
    refine ⟨x, ?_, rfl⟩
    by_contra hend
    have ht := h.inv.change hw hch
    rcases heff.reported_of_ended hx hend (Or.inr rfl) (ht.seats_connected hu) with hm | ⟨he, -⟩
    · exact hnone _ hm rfl
    · exact h.inv.serves_ne hx he.symm

theorem StoryOk.hosts_after (hu : t.Seats u)
    (hv : Hosting sid (w.view u ++ (spoken u info.id e ++ (heard u sent).map .heard))) :
    ∃ x, t.Serves sid x ∧ x.host = u := by
  rcases since_append.mp hv with hnew | ⟨hold, hnone⟩
  · obtain ⟨y, hy, p, rfl, hp⟩ := hnew.exists_mem
    have hm : .hostSession p ∈ heard u sent := by
      rcases List.mem_append.mp hy with hy | hy
      · unfold spoken at hy
        split_ifs at hy
        · cases List.mem_singleton.mp hy
        · exact absurd hy List.not_mem_nil
      · obtain ⟨m, hm, he⟩ := List.mem_map.mp hy
        cases he
        exact hm
    obtain ⟨a, ha, rfl, ⟨ice, hy⟩ | ⟨ice, hy⟩⟩ := heff.mem_announced (mem_heard.mp hm) hp
    · cases hy
      exact ⟨a.2, (heff.serves _ _).mpr (Or.inr ha), rfl⟩
    · cases hy
  · have hseat : w.rooms.Seats u := by
      refine (seats_or_log_eq_nil h hl hw hch hu).resolve_right fun hlog => ?_
      obtain ⟨y, hy, p, rfl, -⟩ := hold.exists_mem
      have := mem_view.mp hy
      rw [hlog] at this
      exact absurd this List.not_mem_nil
    obtain ⟨x, hx, rfl⟩ := hs.hosts u sid hseat hold
    refine ⟨x, ?_, rfl⟩
    by_contra hend
    have ht := h.inv.change hw hch
    rcases heff.reported_of_ended hx hend (Or.inl rfl) (ht.seats_connected hu) with hm | ⟨-, hc, he⟩
    · exact hnone _ (List.mem_append_right _ (List.mem_map_of_mem hm)) (Or.inl rfl)
    · refine hnone (.said e) (List.mem_append_left _ ?_) (Or.inr (by rw [he]))
      rw [spoken, if_pos hc.symm]
      exact List.mem_singleton_self _

omit h hl hw hch

theorem StoryOk.ends_after (u : XID) : Guarded EndGuard (w.log u ++ heard u sent) := by
  refine guarded_append (hs.ends u) fun pre m post hheard => ?_
  rintro sid rfl
  have hm : sid ∈ (heard u sent).filterMap endOf := by
    rw [hheard]
    exact List.mem_filterMap.mpr ⟨.endShare sid, by simp, rfl⟩
  obtain ⟨x, hL, hu⟩ := heff.told u sid hm
  have hx := heff.ended _ hL
  refine ⟨?_, fun hend => ?_⟩
  · rcases hu with rfl | rfl
    · obtain ⟨ice, hm⟩ := hs.mem_host hx
      exact ⟨_, List.mem_append_left _ hm, rfl⟩
    · obtain ⟨ice, hm⟩ := hs.mem_client hx
      exact ⟨_, List.mem_append_left _ hm, rfl⟩
  · rcases List.mem_append.mp hend with hend | hend
    · exact hs.going sid x hx u hend
    · have hnd := heff.once u
      rw [hheard, List.filterMap_append] at hnd
      exact List.disjoint_of_nodup_append hnd (List.mem_filterMap.mpr ⟨_, hend, rfl⟩)
        (List.mem_filterMap.mpr ⟨_, List.mem_cons_self, rfl⟩)

end After

/-- **One message keeps the story.** -/
theorem StoryOk.message (h : w.Ok env) (hl : LogOk w) (hs : StoryOk env w)
    (hc : w.clients.lookup c = some info) (hch : Screego.Change env ch w.rooms info e t sent) :
    StoryOk env (w.after [.got c e] (t, sent)) := by
  obtain ⟨rfl, hw⟩ := h.info c info hc
  obtain ⟨A, L, heff⟩ := hch.effect h.inv
  refine ⟨?_, ?_, ?_, ?_, ?_, ?_, ?_⟩
  · intro sid hd y hy
    rw [sends_after] at hy
    rcases List.mem_append.mp hy with hy | hy
    · exact hs.fresh sid (fun hd' => hd (hd'.mono hch.drawn_le)) y hy
    · intro hann
      obtain ⟨a, ha, rfl, -⟩ := heff.mem_announced hy hann
      exact hd (heff.new a ha).2
  · intro sid x hx
    rw [sends_after]
    exact hs.announced_after h heff hx
  · intro sid x hx u
    rw [log_after]
    exact hs.going_after h heff hx u
  · intro sid x hx
    rw [view_after]
    exact hs.hosting_after h heff hx
  · intro u sid hu hv
    rw [log_after] at hv
    exact hs.viewers_after h hl hw hch heff hu hv
  · intro u sid hu hv
    rw [view_after] at hv
    exact hs.hosts_after h hl hw hch heff hu hv
  · intro u
    rw [log_after]
    exact hs.ends_after heff u

theorem not_serves_init : ¬ (World.init env).rooms.Serves sid x := by
  rintro ⟨R, r, hr, -⟩
  simp [World.init, newRooms] at hr

theorem not_seats_init : ¬ (World.init env).rooms.Seats u := by
  rintro ⟨R, r, hr, -⟩
  simp [World.init, newRooms] at hr

theorem StoryOk.init : StoryOk env (World.init env) where
  fresh _ _ _ hy := absurd hy List.not_mem_nil
  announced _ _ hx := absurd hx not_serves_init
  going _ _ hx := absurd hx not_serves_init
  hosting _ _ hx := absurd hx not_serves_init
  viewers _ _ hu := absurd hu not_seats_init
  hosts _ _ hu := absurd hu not_seats_init
  ends _ := guarded_nil

theorem StoryOk.change (h : w.Ok env) (hl : LogOk w) (hs : StoryOk env w)
    (hch : w.Change env ch i w') : StoryOk env w' := by
  cases hch with
  | upgrade addr user authenticated =>
    refine ⟨?_, hs.announced, hs.going, hs.hosting, hs.viewers, hs.hosts, hs.ends⟩
    exact fun sid hd => hs.fresh sid fun hd' => hd (hd'.mono (Nat.le_succ _))
  | stranger hc => exact hs
  | message hc hch => exact hs.message h hl hc hch
  | count =>
    have hann : ∀ sid, [Send.respond (GoMap.len w.rooms.connected)].filter (Send.Announces sid) = [] :=
      fun sid => List.filter_eq_nil_iff.mpr fun y hy => by
        cases List.mem_singleton.mp hy
        rw [decide_eq_true_eq]
        exact id
    refine ⟨?_, ?_, ?_, ?_, ?_, ?_, ?_⟩
    · intro sid hd y hy
      rw [sends_count] at hy
      rcases List.mem_append.mp hy with hy | hy
      · exact hs.fresh sid hd y hy
      · cases List.mem_singleton.mp hy
        exact id
    · intro sid x hx
      rw [sends_count, List.filter_append, hann, List.append_nil]
      exact hs.announced sid x hx
    · intro sid x hx u
      rw [log_count]
      exact hs.going sid x hx u
    · intro sid x hx
      rw [view_count]
      exact hs.hosting sid x hx
    · intro u sid hu hv
      rw [log_count] at hv
      exact hs.viewers u sid hu hv
    · intro u sid hu hv
      rw [view_count] at hv
      exact hs.hosts u sid hu hv
    · intro u
      rw [log_count]
      exact hs.ends u

/-- **Logs and sessions agree in every run.** -/
theorem server_storyOk (env : Env) :
    (server env).Always fun w => w.Ok env ∧ LogOk w ∧ StoryOk env w :=
  server_always ⟨LogOk.init, StoryOk.init⟩ fun _ _ _ _ h hw hch _ =>
    ⟨hw.1.change h hch, hw.2.change h hw.1 hch⟩

/-- **Invariants of the logs** are those kept by `World.Change` where the story holds. -/
theorem server_story_always {P : World → Prop} (h0 : P (World.init env))
    (hstep : ∀ ch w i w', w.Ok env → StoryOk env w → P w → w.Change env ch i w' → P w') :
    (server env).Always fun w => (w.Ok env ∧ LogOk w ∧ StoryOk env w) ∧ P w :=
  (server_storyOk env).and_of_step h0 fun w i w' h hP hst _ => by
    exact hstep i.1 w i.2 _ h.1 h.2.2 hP (h.1.change_of_step hst)

end Screego
