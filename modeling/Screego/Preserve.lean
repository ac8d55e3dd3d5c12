import Screego.RoomOk

/-!
# The invariant is kept

* `Inv.store`: one room is new or changed; `Inv.opened`, `Inv.closed`: its sessions with it;
* `Inv.departs`: a client leaves;
* **`Inv.change`**, `Inv.connect`: every effect of `Change`, and every new connection.
-/

set_option autoImplicit false

namespace Screego

open Lib Outgoing

/-! ## The server -/

section Server

variable {env : Env} {ch : Choice} {s t : Rooms} {R : String} {r r' : Room} {c : XID}

/-- The rooms other than `R`. -/
def Rooms.AdmitsElsewhere (env : Env) (s : Rooms) (R name : String) : Prop :=
  ∃ R' r, R' ≠ R ∧ s.rooms.lookup R' = some r ∧ r.Admits env name

theorem admits_iff (R name : String) : s.Admits env name ↔
    (∃ r, s.rooms.lookup R = some r ∧ r.Admits env name) ∨ s.AdmitsElsewhere env R name := by
  constructor
  · rintro ⟨R', r, hr, hn⟩
    by_cases hR : R' = R
    · exact Or.inl ⟨r, hR ▸ hr, hn⟩
    · exact Or.inr ⟨R', r, hR, hr, hn⟩
  · rintro (⟨r, hr, hn⟩ | ⟨R', r, -, hr, hn⟩)
    · exact ⟨R, r, hr, hn⟩
    · exact ⟨R', r, hr, hn⟩

/-- A session of one room is admitted in no other. -/
theorem Inv.not_admitsElsewhere (h : Inv env s) (hr : s.rooms.lookup R = some r) {id : XID}
    {name : String} (hid : id ∈ r.sessions) (hn : UsernameOf env id name) :
    ¬ s.AdmitsElsewhere env R name := by
  rintro ⟨R', q, hne, hq, -, sid, hsid, hn'⟩
  rw [hn'.unique hn] at hsid
  exact hne (h.apart R' R q r id hq hr hsid hid)

/-- What new sessions let in. -/
theorem Room.admits_insertAll (r : Room) (l : List (XID × RoomSession)) (name : String) :
    ({ r with sessions := GoMap.insertAll r.sessions l } : Room).Admits env name ↔
      r.Admits env name ∨ ∃ a ∈ l, r.mode = connectionTURN ∧ UsernameOf env a.1 name := by
  simp only [Room.Admits, GoMap.mem_insertAll]
  constructor
  · rintro ⟨hm, sid, hold | ⟨a, ha, rfl⟩, hn⟩
    · exact Or.inl ⟨hm, sid, hold, hn⟩
    · exact Or.inr ⟨a, ha, hm, hn⟩
  · rintro (⟨hm, sid, hold, hn⟩ | ⟨a, ha, hm, hn⟩)
    · exact ⟨hm, sid, Or.inl hold, hn⟩
    · exact ⟨hm, a.1, Or.inr ⟨a, ha, rfl⟩, hn⟩

/-- **One room is new or changed.** -/
theorem Inv.store (h : Inv env s) (hrooms : t.rooms = s.rooms.insert R r') (hok : RoomOk R r')
    (hdrawn : s.drawn ≤ t.drawn)
    (hmember : ∀ c R', R' ≠ "" → (t.connected.lookup c = some R' ↔
      if R' = R then c ∈ r'.users else s.connected.lookup c = some R'))
    (hclient : ∀ c, c ∈ t.connected → c ∈ s.connected)
    (hsession : ∀ sid, sid ∈ r'.sessions → (∃ r, s.rooms.lookup R = some r ∧ sid ∈ r.sessions) ∨
      (env.Drawn t.drawn sid ∧ ¬ env.Drawn s.drawn sid))
    (hint : t.turnServer.isInternal = s.turnServer.isInternal)
    (hgranted : env.config.turnExternal = false → ∀ name,
      (t.turnServer.authenticate name).isSome = true ↔
        r'.Admits env name ∨ s.AdmitsElsewhere env R name) : Inv env t := by
  have hlook : ∀ R', t.rooms.lookup R' = if R' = R then some r' else s.rooms.lookup R' := fun R' => by
    rw [hrooms, GoMap.lookup_insert_ite]
  have hother : ∀ R' q sid, R' ≠ R → t.rooms.lookup R' = some q → sid ∈ q.sessions →
      sid ∉ r'.sessions := by
    intro R' q sid hne hq hsid hsid'
    rw [hlook, if_neg hne] at hq
    rcases hsession sid hsid' with ⟨r, hr, hold⟩ | ⟨-, hnew⟩
    · exact hne (h.apart R' R q r sid hq hr hsid hold)
    · exact hnew (h.session R' q sid hq hsid)
  refine ⟨?_, ?_, ?_, ?_, ?_, ?_, ?_⟩
  · intro R' q hq
    rw [hlook] at hq
    split_ifs at hq with hR
    · cases hq
      exact hR ▸ hok
    · exact h.room R' q hq
  · intro c R' hne
    rw [hmember c R' hne, hlook]
    split_ifs with hR
    · simp
    · exact h.member c R' hne
  · exact fun c hc => (h.client c (hclient c hc)).mono hdrawn
  · intro R' q sid hq hsid
    rw [hlook] at hq
    split_ifs at hq with hR
    · cases hq
      rcases hsession sid hsid with ⟨r, hr, hold⟩ | ⟨hd, -⟩
      · exact (h.session R r sid hr hold).mono hdrawn
      · exact hd
    · exact (h.session R' q sid hq hsid).mono hdrawn
  · intro R₁ R₂ q₁ q₂ sid hq₁ hq₂ h₁ h₂
    by_cases hR₁ : R₁ = R
    · by_cases hR₂ : R₂ = R
      · rw [hR₁, hR₂]
      · rw [hlook, if_pos hR₁] at hq₁
        cases hq₁
        exact absurd h₁ (hother R₂ q₂ sid hR₂ hq₂ h₂)
    · by_cases hR₂ : R₂ = R
      · rw [hlook, if_pos hR₂] at hq₂
        cases hq₂
        exact absurd h₂ (hother R₁ q₁ sid hR₁ hq₁ h₁)
      · rw [hlook, if_neg hR₁] at hq₁
        rw [hlook, if_neg hR₂] at hq₂
        exact h.apart R₁ R₂ q₁ q₂ sid hq₁ hq₂ h₁ h₂
  · rw [hint, h.internal]
  · intro hext name
    rw [hgranted hext name, admits_iff R]
    refine or_congr ?_ ?_
    · simp [hlook]
    · refine exists_congr fun R' => exists_congr fun q => and_congr_right fun hne => ?_
      rw [hlook, if_neg hne]

/-- What `connected` says when `c` has been seated in `R`. -/
theorem Inv.member_seat (h : Inv env s)
    (hc : s.connected.lookup c = some "" ∨ s.connected.lookup c = some R) {R' : String}
    (hne : R' ≠ "") (c' : XID) :
    Finmap.lookup c' (s.connected.insert c R) = some R' ↔
      if R' = R then c' = c ∨ ∃ r, s.rooms.lookup R = some r ∧ c' ∈ r.users
      else s.connected.lookup c' = some R' := by
  rw [GoMap.lookup_insert_ite]
  by_cases hR : R' = R
  · subst hR
    by_cases hcc : c' = c
    · simp [hcc]
    · simp [hcc, h.member c' R' hne]
  · rw [if_neg hR]
    split_ifs with hcc
    · rw [hcc]
      rcases hc with hc | hc <;> simp [hc, Ne.symm hR, Ne.symm hne]
    · rfl

/-- **New sessions in a room.** -/
theorem Inv.opened (h : Inv env s) (s₁ : Rooms) (r : Room) (hrooms : s₁.rooms = s.rooms)
    (hconnected : s₁.connected = s.connected.insert c R) (hturn : s₁.turnServer = s.turnServer)
    (hdrawn : s₁.drawn = s.drawn)
    (hc : s.connected.lookup c = some "" ∨ s.connected.lookup c = some R)
    (husers : ∀ c', c' ∈ r.users ↔ c' = c ∨ ∃ q, s.rooms.lookup R = some q ∧ c' ∈ q.users)
    (hsessions : ∀ sid, sid ∈ r.sessions ↔ ∃ q, s.rooms.lookup R = some q ∧ sid ∈ q.sessions)
    (hmode : ∀ q, s.rooms.lookup R = some q → q.mode = r.mode) (ps : List RoomSession)
    (hok : RoomOk R { r with
      sessions := GoMap.insertAll r.sessions (newEntries env s.drawn ps) }) :
    Inv env (s₁.opened env ch R r (newEntries env s.drawn ps)) := by
  refine h.store (R := R) (by rw [Rooms.opened, hrooms]) hok ?_ ?_ ?_ ?_ ?_ ?_
  · simp only [Rooms.opened, hdrawn]
    omega
  · intro c' R' hne'
    simp only [Rooms.opened, hconnected, h.member_seat hc hne', husers]
  · intro c' hc'
    simp only [Rooms.opened, hconnected, Finmap.mem_insert] at hc'
    rcases hc' with rfl | hc'
    · exact hc.elim Finmap.mem_of_lookup_eq_some Finmap.mem_of_lookup_eq_some
    · exact hc'
  · intro sid hsid
    rcases GoMap.mem_insertAll.mp hsid with hold | ⟨a, ha, rfl⟩
    · exact Or.inl ((hsessions sid).mp hold)
    · refine Or.inr ⟨?_, not_drawn_of_mem_newEntries ha⟩
      simp only [Rooms.opened, hdrawn]
      exact drawn_of_mem_newEntries ha
  · simp only [Rooms.opened, hturn]
    exact isInternal_foldl (fun _ _ => isInternal_grantSession _ _ _ _) _ _
  · intro hext name
    have hi : s.turnServer.isInternal = true := by rw [h.internal, hext]; rfl
    have hR : (∃ q, s.rooms.lookup R = some q ∧ q.Admits env name) ↔ r.Admits env name := by
      constructor
      · rintro ⟨q, hq, hm, sid, hsid, hn⟩
        exact ⟨hmode q hq ▸ hm, sid, (hsessions sid).mpr ⟨q, hq, hsid⟩, hn⟩
      · rintro ⟨hm, sid, hsid, hn⟩
        obtain ⟨q, hq, hold⟩ := (hsessions sid).mp hsid
        exact ⟨q, hq, (hmode q hq).trans hm, sid, hold, hn⟩
    simp only [Rooms.opened, hturn]
    rw [authenticate_grants _ _ _ hi, r.admits_insertAll]
    split_ifs with hA
    · simp [hA]
    · rw [h.granted hext name, admits_iff R, hR]
      simp [hA]

/-- **Sessions of a room end.** -/
theorem Inv.closed (h : Inv env s) (s₁ : Rooms) (r : Room) {q : Room} (hq : s.rooms.lookup R = some q)
    (hrooms : s₁.rooms = s.rooms) (hturn : s₁.turnServer = s.turnServer)
    (hdrawn : s₁.drawn = s.drawn) (hsessions : r.sessions = q.sessions) (hmode : r.mode = q.mode)
    (hmember : ∀ c R', R' ≠ "" → (s₁.connected.lookup c = some R' ↔
      if R' = R then c ∈ r.users else s.connected.lookup c = some R'))
    (hclient : ∀ c, c ∈ s₁.connected → c ∈ s.connected) {ids : List XID}
    (hids : ∀ id ∈ ids, id ∈ q.sessions)
    (hok : RoomOk R { r with sessions := GoMap.eraseAll r.sessions ids }) :
    Inv env (s₁.closed env R r ids) := by
  refine h.store (R := R) (by rw [Rooms.closed, hrooms]) hok hdrawn.ge hmember hclient ?_ ?_ ?_
  · intro sid hsid
    exact Or.inl ⟨q, hq, hsessions ▸ (GoMap.mem_eraseAll.mp hsid).1⟩
  · simp only [Rooms.closed, hturn]
    exact isInternal_foldl (fun _ _ => isInternal_revokeSession _ _ _) _ _
  · intro hext name
    have hR : (∃ q, s.rooms.lookup R = some q ∧ q.Admits env name) ↔ q.Admits env name := by
      simp [hq]
    simp only [Rooms.closed, hturn]
    rw [authenticate_revokes]
    split_ifs with hA
    · obtain ⟨id, hid, hm, hn⟩ := hA
      simp only [Option.isSome_none, Bool.false_eq_true, false_iff, not_or]
      constructor
      · rintro ⟨-, sid, hsid, hn'⟩
        rw [GoMap.mem_eraseAll, hn'.unique hn] at hsid
        exact hsid.2 hid
      · exact h.not_admitsElsewhere hq (hids id hid) hn
    · rw [h.granted hext name, admits_iff R, hR]
      refine or_congr_left ?_
      simp only [Room.Admits, hmode, hsessions, GoMap.mem_eraseAll]
      refine and_congr_right fun hm => exists_congr fun sid => ?_
      constructor
      · rintro ⟨hsid, hn⟩
        exact ⟨⟨hsid, fun hid => hA ⟨sid, hid, hmode.trans hm, hn⟩⟩, hn⟩
      · rintro ⟨⟨hsid, -⟩, hn⟩
        exact ⟨hsid, hn⟩

/-- The members removed with the room are the users that are left. -/
theorem RoomOk.mem_members (h : RoomOk R r) {c' : XID} :
    c' ∈ (r.members ch c).map (fun m => m.2.id) ↔ c' ≠ c ∧ c' ∈ r.users := by
  rw [← mem_without, List.mem_map]
  constructor
  · rintro ⟨⟨k, u⟩, hm, rfl⟩
    have hu := (mem_range _ _).mp hm
    rw [lookup_without] at hu
    split_ifs at hu with hk
    have hid : u.id = k := (h.user k u hu).1
    rw [mem_without, hid]
    exact ⟨hk, Finmap.mem_of_lookup_eq_some hu⟩
  · intro hc'
    obtain ⟨u, hu⟩ := Finmap.mem_iff.mp hc'
    refine ⟨(c', u), (mem_range _ _).mpr hu, ?_⟩
    rw [lookup_without] at hu
    split_ifs at hu
    exact (h.user c' u hu).1

/-- The sessions closed with the room are those that do not end before. -/
theorem mem_remaining {sid : XID} :
    sid ∈ (r.ending ch c).map Prod.fst ∨ sid ∈ (r.remaining ch c).map Prod.fst ↔
      sid ∈ r.sessions := by
  rw [Room.remaining, range_map_fst, RangeOrder.mem_keys, Finmap.mem_keys, GoMap.mem_eraseAll]
  constructor
  · rintro (hsid | ⟨hsid, -⟩)
    · obtain ⟨a, ha, rfl⟩ := List.mem_map.mp hsid
      exact Finmap.mem_of_lookup_eq_some ((mem_range _ _).mp (List.mem_of_mem_filter ha))
    · exact hsid
  · intro hsid
    by_cases he : sid ∈ (r.ending ch c).map Prod.fst
    · exact Or.inl he
    · exact Or.inr ⟨hsid, he⟩

/-- Who is connected after a room has been closed. -/
theorem Inv.lookup_finished (h : Inv env s) (hin : s.InRoom c R r) (c' : XID) :
    (s.finished env ch c R r).connected.lookup c' =
      if c' ∈ r.users then none else s.connected.lookup c' := by
  have hmem : c' ∈ (r.members ch c).map (fun m => m.2.id) ↔ c' ≠ c ∧ c' ∈ r.users :=
    (h.room R r hin.room).mem_members
  simp only [Rooms.finished]
  rw [GoMap.lookup_eraseAll, GoMap.lookup_erase_ite]
  by_cases hcc : c' = c
  · rw [if_pos hcc, ite_self, if_pos (hcc ▸ h.mem_users hin)]
  · rw [if_neg hcc]
    exact if_congr (hmem.trans (and_iff_right hcc)) rfl rfl

/-- **A room is closed.** -/
theorem Inv.finished (h : Inv env s) (hin : s.InRoom c R r) : Inv env (s.finished env ch c R r) := by
  have hlook : ∀ R', (s.finished env ch c R r).rooms.lookup R' =
      if R' = R then none else s.rooms.lookup R' := GoMap.lookup_erase_ite _ _
  have hold : ∀ R' q, (s.finished env ch c R r).rooms.lookup R' = some q →
      R' ≠ R ∧ s.rooms.lookup R' = some q := by
    intro R' q hq
    rw [hlook] at hq
    split_ifs at hq with hR
    exact ⟨hR, hq⟩
  refine ⟨fun R' q hq => h.room R' q (hold R' q hq).2, ?_, ?_,
    fun R' q sid hq => h.session R' q sid (hold R' q hq).2,
    fun R₁ R₂ q₁ q₂ sid hq₁ hq₂ => h.apart R₁ R₂ q₁ q₂ sid (hold R₁ q₁ hq₁).2 (hold R₂ q₂ hq₂).2,
    ?_, ?_⟩
  · intro c' R' hne
    rw [h.lookup_finished hin, hlook]
    split_ifs with hc' hR hR
    · simp
    · have hmember := (h.inRoom hin.room hc').at_
      rw [← h.member c' R' hne, hmember]
      simp [Ne.symm hR]
    · have hmember := h.member c' R' hne
      rw [hR, hin.room] at hmember
      rw [hR, hmember]
      simp [hc']
    · exact h.member c' R' hne
  · intro c' hc'
    obtain ⟨R', hR'⟩ := Finmap.mem_iff.mp hc'
    rw [h.lookup_finished hin] at hR'
    split_ifs at hR'
    exact h.client c' (Finmap.mem_of_lookup_eq_some hR')
  · rw [← h.internal]
    simp only [Rooms.finished]
    rw [isInternal_foldl fun _ _ => isInternal_revokeSession _ _ _,
      isInternal_foldl fun _ _ => isInternal_revokeSession _ _ _]
  · intro hext name
    have hadmits : (s.finished env ch c R r).Admits env name ↔ s.AdmitsElsewhere env R name := by
      constructor
      · rintro ⟨R', q, hq, hn⟩
        exact ⟨R', q, (hold R' q hq).1, (hold R' q hq).2, hn⟩
      · rintro ⟨R', q, hR, hq, hn⟩
        exact ⟨R', q, by rw [hlook, if_neg hR, hq], hn⟩
    have hR : (∃ q, s.rooms.lookup R = some q ∧ q.Admits env name) ↔ r.Admits env name := by
      simp [hin.room]
    have hended : (s.finished env ch c R r).turnServer.authenticate name =
        if ∃ id ∈ (r.ending ch c).map Prod.fst ++ (r.remaining ch c).map Prod.fst,
          r.mode = connectionTURN ∧ UsernameOf env id name then none
        else s.turnServer.authenticate name := by
      rw [← authenticate_revokes, List.foldl_append]
      rfl
    have hall : ∀ id, id ∈ (r.ending ch c).map Prod.fst ++ (r.remaining ch c).map Prod.fst ↔
        id ∈ r.sessions := fun id => List.mem_append.trans mem_remaining
    rw [hadmits, hended]
    split_ifs with hA
    · obtain ⟨id, hid, hm, hn⟩ := hA
      simp only [Option.isSome_none, Bool.false_eq_true, false_iff]
      exact h.not_admitsElsewhere hin.room ((hall id).mp hid) hn
    · rw [h.granted hext name, admits_iff R, hR]
      refine or_iff_right ?_
      rintro ⟨hm, sid, hsid, hn⟩
      exact hA ⟨sid, (hall sid).mpr hsid, hm, hn⟩

/-- A client in no room is gone. -/
theorem Inv.drop (h : Inv env s) (hc : s.connected.lookup c = some "")
    (hrooms : t.rooms = s.rooms) (hconnected : t.connected = s.connected.erase c)
    (hturn : t.turnServer = s.turnServer) (hdrawn : t.drawn = s.drawn) : Inv env t := by
  have hadmits : ∀ name, t.Admits env name ↔ s.Admits env name := fun name => by
    simp only [Rooms.Admits, hrooms]
  refine ⟨?_, ?_, ?_, ?_, ?_, ?_, ?_⟩
  · rw [hrooms]
    exact h.room
  · intro c' R' hne
    rw [hconnected, GoMap.lookup_erase_ite, hrooms, ← h.member c' R' hne]
    split_ifs with hcc
    · rw [hcc, hc]
      simp [Ne.symm hne]
    · rfl
  · intro c' hc'
    rw [hconnected, Finmap.mem_erase] at hc'
    rw [hdrawn]
    exact h.client c' hc'.2
  · rw [hrooms, hdrawn]
    exact h.session
  · rw [hrooms]
    exact h.apart
  · rw [hturn, h.internal]
  · intro hext name
    rw [hturn, hadmits]
    exact h.granted hext name

/-- **Departures keep the invariant.** -/
theorem Inv.departs (h : Inv env s) {e : Disconnected} {sent : List Send}
    (hd : Departs env ch s c e t sent) : Inv env t := by
  cases hd with
  | idle hc => exact h.drop hc rfl rfl rfl rfl
  | closes hin hu hcl => exact h.finished hin
  | @stays R r u hin hu hcl =>
    have hR := h.room R r hin.room
    have hrest : ∃ c', c' ∈ (r.without c).users := by
      by_contra hno
      exact hcl (Or.inr (GoMap.len_eq_zero.mpr fun k hk => hno ⟨k, hk⟩))
    refine h.closed (s.unseat c) (r.without c) hin.room rfl rfl rfl rfl rfl ?_ ?_ ?_ (hR.left hrest)
    · intro c' R' hne
      simp only [Rooms.unseat, Rooms.drop, GoMap.lookup_erase_ite, mem_without]
      split_ifs with hcc hR' hR'
      · simp [hcc]
      · rw [hcc, hin.at_]
        simp [Ne.symm hR']
      · rw [hR', h.member c' R hin.ne, hin.room]
        simp [hcc]
      · rfl
    · intro c' hc'
      exact (Finmap.mem_erase.mp hc').2
    · intro id hid
      exact mem_remaining.mp (Or.inl hid)

/-- Nobody's room changes when a user of the room is put back. -/
theorem Inv.member_put (h : Inv env s) (hin : s.InRoom c R r) {u : User} (hu : u.id = c) (c' : XID) :
    c' ∈ (r.put u).users ↔ c' ∈ r.users :=
  GoMap.mem_insert_of_mem (hu ▸ h.mem_users hin) _ _

/-- The room after a client has joined it. -/
theorem Inv.room_joined (h : Inv env s) {info : ClientInfo} (hw : info.write = ⟨info.id⟩)
    (hc : s.connected.lookup info.id = some "") {v : String} (hr : s.rooms.lookup R = some r) :
    RoomOk R { r.put (joinUser env ch info r v) with
      sessions := GoMap.insertAll r.sessions (newEntries env s.drawn
        (joinPairs ch info.id (r.put (joinUser env ch info r v)).users)) } := by
  have hok := h.room R r hr
  have hid : ∀ c u, (r.put (joinUser env ch info r v)).users.lookup c = some u → u.id = c :=
    fun c u hu => (hok.put_user hw hu).1
  refine hok.opened hw (joinUser_visitorID_trimmed env ch info r v).2 (fun _ => h.notMem_of_idle hc hr)
    (nodup_newEntries _ _) ?_ ?_ ?_
  · exact fun a ha hold => not_drawn_of_mem_newEntries ha (h.session R r a.1 hr hold)
  · intro a ha
    obtain ⟨hcl, hne, hu⟩ := (mem_joinPairs hid).mp (exists_newEntries.mp ⟨a, ha, rfl⟩)
    exact ⟨hcl ▸ hne, (mem_put r _ _).mpr (Or.inl hcl), hu⟩
  · intro g c' u hu hs hc' hne hor
    have hg : g ≠ info.id := by
      rintro rfl
      rw [lookup_put, if_pos (show info.id = (joinUser env ch info r v).id from rfl)] at hu
      cases hu
      exact absurd hs Bool.false_ne_true
    have hc'id : c' = info.id := hor.resolve_left hg
    exact Or.inr (exists_newEntries.mpr ((mem_joinPairs hid).mpr ⟨hc'id, hg, u, hu, hs⟩))

/-- The room after a client has begun to share. -/
theorem Inv.room_shared (h : Inv env s) (hin : s.InRoom c R r) {u : User}
    (hu : r.users.lookup c = some u) :
    RoomOk R { r.put { u with streaming := true } with
      sessions := GoMap.insertAll r.sessions (newEntries env s.drawn
        (sharePairs ch c (r.put { u with streaming := true }).users)) } := by
  have hok := h.room R r hin.room
  obtain ⟨rfl, huw, huv⟩ := hok.user c u hu
  have hid : ∀ c v, (r.put { u with streaming := true }).users.lookup c = some v → v.id = c :=
    fun c v hv => (hok.put_user (u := { u with streaming := true }) huw hv).1
  refine hok.opened (u := { u with streaming := true }) huw huv
    (fun hf => absurd hf.symm Bool.false_ne_true)
    (nodup_newEntries _ _) ?_ ?_ ?_
  · exact fun a ha hold => not_drawn_of_mem_newEntries ha (h.session R r a.1 hin.room hold)
  · intro a ha
    obtain ⟨hh, hne, hc⟩ := (mem_sharePairs hid).mp (exists_newEntries.mp ⟨a, ha, rfl⟩)
    exact ⟨hh ▸ hne.symm, hc, { u with streaming := true }, by rw [lookup_put, if_pos hh], rfl⟩
  · intro g c' v hv hs hc' hne hor
    by_cases hg : g = u.id
    · exact Or.inr (exists_newEntries.mpr ((mem_sharePairs hid).mpr ⟨hg, hg ▸ hne, hc'⟩))
    · rw [lookup_put, if_neg hg] at hv
      exact Or.inl (hok.complete g c' v hv hs
        ((h.member_put (u := { u with streaming := true }) hin rfl c').mp hc') hne)

/-- **Every message keeps the invariant.** -/
theorem Inv.change (h : Inv env s) {info : ClientInfo} (hw : info.write = ⟨info.id⟩) {e : Event}
    {sent : List Send} (hch : Change env ch s info e t sent) : Inv env t := by
  cases hch with
  | skip hc => exact h
  | name n hc => exact h
  | stale k m hc hx => exact h
  | relay k m hc hx hs => exact h
  | @create R e hc hR hr ha =>
    have hnone : s.rooms.lookup R = none := Finmap.lookup_eq_none.mpr hr
    refine h.opened (s.seat info.id R).founded (createRoom env info R e) rfl rfl rfl rfl
      (Or.inl hc) ?_ ?_ ?_ [] (RoomOk.create hw hR)
    · simp [hnone, createRoom, Finmap.notMem_empty]
    · simp [hnone, createRoom, Finmap.notMem_empty]
    · simp [hnone]
  | @join e R v r r' v4 v6 A hc he hr hget hr' hA =>
    subst hr' hA
    refine h.opened (s.seat info.id R) _ rfl rfl rfl rfl (Or.inl hc) ?_ ?_ ?_ _
      (h.room_joined hw hc hr)
    · simp [hr, mem_put, joinUser]
    · simp [hr, Room.put]
    · simp [hr, Room.put]
  | bounce hc he hr hget =>
    refine h.drop hc rfl ?_ rfl rfl
    exact GoMap.erase_insert_self _ _ _
  | @share R r r' u v4 v6 A hc hu hget hr' hA =>
    subst hr' hA
    have hid := ((h.room R r hc.room).user _ _ hu).1
    refine h.opened s _ rfl (GoMap.insert_self hc.at_).symm rfl rfl (Or.inr hc.at_) ?_ ?_ ?_ _
      (h.room_shared hc hu)
    · simp [hc.room, mem_put, hid]
    · simp [hc.room, Room.put]
    · simp [hc.room, Room.put]
  | @unshare R r r' u hc hu hr' =>
    subst hr'
    have hok := h.room R r hc.room
    refine h.closed s (r.put { u with streaming := false }) hc.room rfl rfl rfl rfl rfl ?_
      (fun _ hc' => hc') ?_ (hok.unshared hu)
    · intro c' R' hne
      rw [h.member_put hc (u := { u with streaming := false }) (hok.user _ _ hu).1]
      split_ifs with hR
      · simp [hR, h.member c' R hc.ne, hc.room]
      · rfl
    · intro id hid
      obtain ⟨a, ha, rfl⟩ := List.mem_map.mp hid
      exact Finmap.mem_of_lookup_eq_some ((mem_range _ _).mp (List.mem_of_mem_filter ha))
  | depart d hd => exact h.departs hd

/-- The server after the `Connected` message of the next client. -/
def Rooms.connect (env : Env) (s : Rooms) : Rooms :=
  { s with connected := s.connected.insert (env.xidNew s.drawn) "", drawn := s.drawn + 1 }

/-- The id of the next client has not been seen. -/
theorem Inv.notMem_next (h : Inv env s) : env.xidNew s.drawn ∉ s.connected := fun hmem => by
  have := Env.drawn_xidNew.mp (h.client _ hmem)
  omega

/-- An id is drawn. -/
theorem Inv.draw (h : Inv env s) : Inv env { s with drawn := s.drawn + 1 } where
  room := h.room
  member := h.member
  client c hc := (h.client c hc).mono (Nat.le_succ _)
  session R q sid hq hsid := (h.session R q sid hq hsid).mono (Nat.le_succ _)
  apart := h.apart
  internal := h.internal
  granted := h.granted

/-- A client that is not connected is, in no room. -/
theorem Inv.welcome (h : Inv env s) {c : XID} (hc : env.Drawn s.drawn c) (hnew : c ∉ s.connected) :
    Inv env { s with connected := s.connected.insert c "" } where
  room := h.room
  member c' R' hne := by
    refine Iff.trans ?_ (h.member c' R' hne)
    simp only [GoMap.lookup_insert_ite]
    split_ifs with heq
    · have hnone : s.connected.lookup c' = none := Finmap.lookup_eq_none.mpr (heq ▸ hnew)
      simp [hnone, Ne.symm hne]
    · rfl
  client c' hc' := by
    rcases Finmap.mem_insert.mp hc' with rfl | hc'
    · exact hc
    · exact h.client c' hc'
  session := h.session
  apart := h.apart
  internal := h.internal
  granted := h.granted

/-- **A new connection keeps the invariant.** -/
theorem Inv.connect (h : Inv env s) : Inv env (s.connect env) :=
  h.draw.welcome (Env.drawn_xidNew.mpr (Nat.lt_succ_self _)) h.notMem_next

theorem Inv.init : Inv env (newRooms env) := by
  have hlook : ∀ R, (newRooms env).rooms.lookup R = none := fun R => Finmap.lookup_empty R
  have hturn : (newRooms env).turnServer.isInternal = !env.config.turnExternal := by
    simp only [newRooms, Turn.start]
    split_ifs with hext <;> simp [hext, Turn.Server.isInternal]
  refine ⟨?_, ?_, ?_, ?_, ?_, hturn, ?_⟩
  · intro R r hr
    simp [hlook] at hr
  · intro c R hne
    simp [newRooms]
  · intro c hc
    exact absurd hc Finmap.notMem_empty
  · intro R r sid hr
    simp [hlook] at hr
  · intro R R' r r' sid hr
    simp [hlook] at hr
  · intro hext name
    simp [newRooms, Turn.start, hext, Turn.Server.authenticate, Rooms.Admits]

end Server

end Screego
