import Screego.Log

/-!
# The exact effect of a departure

What the room of a leaving user is afterwards, and what its members were handed.

* `Room.EndsWith`: the room closes when the user leaves, as a fact about its users;
* `Ended`, `GoesOn`: the room and its members after it was closed, and when it goes on;
* **`departure_has_exact_effect`**: in every state of a run, for every user of every room.
-/

set_option autoImplicit false

namespace Screego

open Lib Outgoing

variable {env : Env} {ch : Choice} {s t : Rooms} {sent : List Send} {c : XID} {R : String}
  {r : Screego.Room} {u : Screego.User} {d : Disconnected}

/-! ## The end of a room -/

/-- **The room ends with the user `u`, stored under `c`**: it closes with its owner and `u` is the
last connection of that owner, or `u` is the only user. -/
def Room.EndsWith (r : Screego.Room) (c : XID) (u : Screego.User) : Prop :=
  (u.owner = true ∧ r.closeOnOwnerLeave = true ∧
    ∀ c' u', r.users.lookup c' = some u' → c' ≠ c → u'.visitorID ≠ u.visitorID) ∨
  ∀ c' ∈ r.users, c' = c

variable (ch) in
/-- The branches of `executeNoError` are those of `EndsWith`. -/
theorem RoomOk.closesWith_iff (h : RoomOk R r) (hu : r.users.lookup c = some u) :
    r.closesWith ch c u ↔ r.EndsWith c u := by
  have hne : u.visitorID ≠ "" := (h.user c u hu).2.2
  have hvisitor : (r.without c).hasVisitor ch u.visitorID = false ↔
      ∀ c' u', r.users.lookup c' = some u' → c' ≠ c → u'.visitorID ≠ u.visitorID := by
    rw [Bool.eq_false_iff, ne_eq, Room.hasVisitor_iff, not_and]
    constructor
    · intro hnone c' u' hu' hc' hv
      refine hnone hne ⟨c', u', ?_, hv⟩
      rw [lookup_without, if_neg hc', hu']
    · rintro hall - ⟨c', u', hu', hv⟩
      rw [lookup_without] at hu'
      split_ifs at hu' with hc'
      exact hall c' u' hu' hc' hv
  have hlast : GoMap.len (r.without c).users = 0 ↔ ∀ c' ∈ r.users, c' = c := by
    rw [GoMap.len_eq_zero]
    refine forall_congr' fun c' => ?_
    rw [mem_without]
    tauto
  rw [Room.closesWith, Room.EndsWith, hlast, ← hvisitor]
  simp only [Bool.and_eq_true, Bool.not_eq_true', and_assoc]

/-! ## What the members hear -/

/-- The messages among those handed out that close the writer of `u`. -/
def closings (u : XID) (sent : List Send) : List Message :=
  (heard u sent).filter fun m => decide m.IsClose

theorem NoClose.filter {l : List Message} (h : NoClose l) :
    l.filter (fun m => decide m.IsClose) = [] :=
  List.filter_eq_nil_iff.mpr fun m hm => by simpa using h m hm

/-- The messages of a departure from a room: the close of the writer, the ends of the sessions, and
what the members are told last. -/
theorem Departs.heard_eq {v : XID} (hv : v ≠ c) (post : List Send) :
    heard v (d.close c :: endShares (RoomSession.other c) (r.ending ch c) ++ post) =
      heard v (endShares (RoomSession.other c) (r.ending ch c)) ++ heard v post := by
  rw [heard_append, heard_close, if_neg (Ne.symm hv), List.nil_append]

/-- **The ends of sessions**: every session of the leaving user ends once for its other side. -/
theorem count_endShares (sid : XID) (v : XID) :
    (heard v (endShares (RoomSession.other c) (r.ending ch c))).count (.endShare sid) =
      if ∃ x, r.sessions.lookup sid = some x ∧ x.involves c = true ∧ x.other c = v then 1 else 0 := by
  set L := (r.ending ch c).filter fun a => RoomSession.other c a.2 = v with hL
  have hinj : Function.Injective Message.endShare := fun _ _ => Message.endShare.inj
  have hcount : (heard v (endShares (RoomSession.other c) (r.ending ch c))).count (.endShare sid) =
      (L.map Prod.fst).count sid := by
    rw [heard_endShares, ← List.count_map_of_injective _ _ hinj, List.map_map]
    rfl
  have hnodup : (L.map Prod.fst).Nodup :=
    (nodup_range_keys (ch.order .disconnected) r.sessions).sublist
      ((List.filter_sublist.trans List.filter_sublist).map _)
  have hmem : sid ∈ L.map Prod.fst ↔
      ∃ x, r.sessions.lookup sid = some x ∧ x.involves c = true ∧ x.other c = v := by
    simp only [hL, Room.ending, List.mem_map, List.mem_filter, mem_range, decide_eq_true_eq]
    constructor
    · rintro ⟨⟨_, x⟩, ⟨⟨hx, hinv⟩, ho⟩, rfl⟩
      exact ⟨x, hx, hinv, ho⟩
    · rintro ⟨x, hx, hinv, ho⟩
      exact ⟨(sid, x), ⟨⟨hx, hinv⟩, ho⟩, rfl⟩
  rw [hcount, List.Nodup.count hnodup]
  exact if_congr hmem rfl rfl

/-! ## The two outcomes -/

/-- **The room `r` of `c` was closed**, and the members were told. -/
structure Ended (env : Env) (s t : Rooms) (c : XID) (R : String) (r : Screego.Room)
    (sent : List Send) : Prop where
  room : R ∉ t.rooms
  members : ∀ v ∈ r.users, v ∉ t.connected
  sessions : ∀ sid ∈ r.sessions, ∀ x, ¬ t.Serves sid x
  turn : ∀ sid ∈ r.sessions, ∀ name, UsernameOf env sid name →
    t.turnServer.authenticate name = none
  told : ∀ v ∈ r.users, v ≠ c →
    closings v sent = [.closeWriter closeNormalClosure closeOwnerLeft]

/-- **The room `r` goes on without `c`**: the other users are as before and were not sent away, the
sessions between them too, and the other side of every other session was told of its end. -/
structure GoesOn (t : Rooms) (c : XID) (R : String) (r : Screego.Room) (sent : List Send) :
    Prop where
  room : ∃ r', t.rooms.lookup R = some r' ∧ r'.Like r ∧
    (∀ v a, r'.users.lookup v = some a ↔ v ≠ c ∧ r.users.lookup v = some a) ∧
    ∀ sid x, r'.sessions.lookup sid = some x ↔
      r.sessions.lookup sid = some x ∧ x.host ≠ c ∧ x.client ≠ c
  connected : ∀ v ∈ r.users, v ≠ c → t.connected.lookup v = some R
  ended : ∀ v ≠ c, ∀ sid, (heard v sent).count (.endShare sid) =
    if ∃ x, r.sessions.lookup sid = some x ∧ x.involves c = true ∧ x.other c = v then 1 else 0
  told : ∀ v ∈ r.users, v ≠ c → closings v sent = []

/-- The TURN server of the process admits the users of sessions only. An external one keeps no table. -/
theorem Inv.admits_of_authenticate (h : Inv env s) {name : String}
    (hname : (s.turnServer.authenticate name).isSome = true) : s.Admits env name := by
  cases hext : env.config.turnExternal with
  | false => exact (h.granted hext name).mp hname
  | true =>
    have hinternal := h.internal
    rw [hext] at hinternal
    cases hs : s.turnServer with
    | internal lookup =>
      rw [hs] at hinternal
      cases hinternal
    | external =>
      rw [hs] at hname
      exact absurd hname Bool.false_ne_true

/-- **A departure that closes the room.** -/
theorem Departs.ended (h : Inv env s) (hin : s.InRoom c R r) (hu : r.users.lookup c = some u)
    (hd : Departs env ch s c d t sent) (hcl : r.closesWith ch c u) : Ended env s t c R r sent := by
  have ht := h.departs hd
  cases hd with
  | idle hc => exact absurd (Option.some.inj (hin.at_.symm.trans hc)) hin.ne
  | stays hin' hu' hno =>
    obtain ⟨rfl, rfl⟩ := hin.unique hin'
    obtain rfl := Option.some.inj (hu.symm.trans hu')
    exact absurd hcl hno
  | closes hin' hu' =>
    obtain ⟨rfl, rfl⟩ := hin.unique hin'
    have hserves : ∀ sid ∈ r.sessions, ∀ x, ¬ (s.finished env ch c R r).Serves sid x := by
      intro sid hsid x hx
      obtain ⟨⟨R', q, hq, hx'⟩, hnot⟩ := (serves_finished h hin.room (ch.order .closeRoom) sid x).mp hx
      obtain rfl := h.apart R' R q r sid hq hin.room (Finmap.mem_of_lookup_eq_some hx') hsid
      obtain rfl := Option.some.inj (hq.symm.trans hin.room)
      exact hnot ((mem_range _ _).mpr hx')
    refine ⟨fun hmem => (Finmap.mem_erase.mp hmem).1 rfl, fun v hv => ?_, hserves, ?_, ?_⟩
    · rw [← Finmap.lookup_eq_none, h.lookup_finished hin, if_pos hv]
    · intro sid hsid name hn
      by_contra hsome
      have hadmits := ht.admits_of_authenticate (Option.ne_none_iff_isSome.mp hsome)
      obtain ⟨R', q, hq, -, sid', hsid', hn'⟩ := hadmits
      obtain rfl := hn.unique hn'
      obtain ⟨x, hx⟩ := Finmap.mem_iff.mp hsid'
      exact hserves sid hsid x ⟨R', q, hq, hx⟩
    · intro v hv hne
      rw [closings, Departs.heard_eq hne, List.filter_append, (noClose_endShares _ _ _).filter,
        heard_ownerLeft (h.room R r hin.room).keyed, if_pos ((mem_without r c v).mpr ⟨hne, hv⟩)]
      rfl

/-- **A departure after which the room goes on.** -/
theorem Departs.goesOn (h : Inv env s) (hin : s.InRoom c R r) (hu : r.users.lookup c = some u)
    (hd : Departs env ch s c d t sent) (hcl : ¬ r.closesWith ch c u) : GoesOn t c R r sent := by
  cases hd with
  | idle hc => exact absurd (Option.some.inj (hin.at_.symm.trans hc)) hin.ne
  | closes hin' hu' hyes =>
    obtain ⟨rfl, rfl⟩ := hin.unique hin'
    obtain rfl := Option.some.inj (hu.symm.trans hu')
    exact absurd hyes hcl
  | stays hin' hu' =>
    obtain ⟨rfl, rfl⟩ := hin.unique hin'
    have hkeyed := ((h.room R r hin.room).keyed.without c)
    refine ⟨⟨_, Finmap.lookup_insert _, ⟨rfl, rfl, rfl⟩, fun v a => ?_, fun sid x => ?_⟩, ?_, ?_, ?_⟩
    · rw [lookup_without]
      split_ifs with hv <;> simp [hv]
    · have hinv : x.involves c = false ↔ x.host ≠ c ∧ x.client ≠ c := by
        simp [RoomSession.involves, and_comm]
      rw [← hinv]
      exact lookup_ending sid x
    · intro v hv hne
      exact (Finmap.lookup_erase_ne hne).trans (h.inRoom hin.room hv).at_
    · intro v hne sid
      have hnews : (Room.news ch (r.without c) v).count (.endShare sid) = 0 := by
        refine List.count_eq_zero.mpr fun hmem => ?_
        obtain ⟨a, -, ha⟩ := Option.map_eq_some_iff.mp (Option.mem_toList.mp hmem)
        cases ha
      rw [Departs.heard_eq hne, heard_notifyInfoChanged hkeyed, List.count_append, hnews,
        Nat.add_zero, count_endShares]
    · intro v hv hne
      rw [closings, Departs.heard_eq hne, heard_notifyInfoChanged hkeyed, List.filter_append,
        (noClose_endShares _ _ _).filter, (noClose_news _ _ _).filter]
      rfl

/-- The user that leaves is handed one close. -/
theorem Departs.closings_self (h : Inv env s) (hin : s.InRoom c R r)
    (hd : Departs env ch s c d t sent) : closings c sent = [.closeWriter d.code d.reason] := by
  have hR := (h.room R r hin.room).keyed
  have hgone : c ∉ (r.without c).users := fun hmem => ((mem_without r c c).mp hmem).1 rfl
  cases hd with
  | idle hc => exact absurd (Option.some.inj (hin.at_.symm.trans hc)) hin.ne
  | stays hin' =>
    obtain ⟨rfl, rfl⟩ := hin.unique hin'
    have hpost : heard c ((r.without c).notifyInfoChanged ch) = [] := by
      rw [heard_notifyInfoChanged (hR.without _)]
      exact Room.news_of_notMem hgone
    rw [closings, heard_departure h hin d hpost]
    rfl
  | closes hin' =>
    obtain ⟨rfl, rfl⟩ := hin.unique hin'
    have hpost : heard c (ownerLeft (r.members ch c)) = [] := by
      rw [heard_ownerLeft hR]
      exact if_neg hgone
    rw [closings, heard_departure h hin d hpost]
    rfl

/-- **A departure has its exact effect.** The user that leaves is disconnected and handed one close.
If the room ends with it, the room, its members and its sessions are gone and the other members were
told that the owner left; if not, the room goes on with exactly the other users and the sessions
between them. The room goes on, in particular, after the departure of a user that does not own it or
whose visitor has another connection in it, unless the user was the only one. -/
theorem departure_has_exact_effect (env : Env) : (server env).Always fun w =>
    ∀ R r c u, w.rooms.rooms.lookup R = some r → r.users.lookup c = some u →
      ∃ info, w.clients.lookup c = some info ∧ ∀ ch d, ∃ t sent,
        w.rooms.handle env ch ⟨info, false, .disconnected d⟩ = some (t, sent) ∧
        c ∉ t.connected ∧ closings c sent = [.closeWriter d.code d.reason] ∧
        (r.EndsWith c u → Ended env w.rooms t c R r sent) ∧
        (¬ r.EndsWith c u → GoesOn t c R r sent) ∧
        ((u.owner = false ∨ ∃ c' u', c' ≠ c ∧ r.users.lookup c' = some u' ∧
            u'.visitorID = u.visitorID) → (∃ c' ∈ r.users, c' ≠ c) → GoesOn t c R r sent) := by
  refine (server_ok env).mono fun w h R r c u hr hu => ?_
  have hin := h.inv.inRoom hr (Finmap.mem_of_lookup_eq_some hu)
  have hc := Finmap.mem_of_lookup_eq_some hin.at_
  obtain ⟨info, hinfo⟩ := Finmap.mem_iff.mp (h.known c hc)
  refine ⟨info, hinfo, fun ch d => ?_⟩
  obtain ⟨rfl, hw⟩ := h.info c info hinfo
  have hd := executeNoError_departs ch d h.inv hw hc
  have hiff := (h.inv.room R r hr).closesWith_iff ch hu
  refine ⟨_, _, handle_disconnected hc d, hd.notMem_connected, hd.closings_self h.inv hin,
    fun he => hd.ended h.inv hin hu (hiff.mpr he),
    fun he => hd.goesOn h.inv hin hu (mt hiff.mp he), fun hother hrest => ?_⟩
  refine hd.goesOn h.inv hin hu fun hcl => ?_
  rcases hiff.mp hcl with ⟨howner, -, hvisitor⟩ | hlast
  · rcases hother with hno | ⟨c', u', hne, hu', hv⟩
    · exact Bool.false_ne_true (hno.symm.trans howner)
    · exact hvisitor c' u' hu' hne hv
  · obtain ⟨c', hc', hne⟩ := hrest
    exact hne (hlast c' hc')

end Screego
