import Screego.Change

/-!
# Rooms and TURN users, updated

* what `authenticate` answers after sessions have begun (`authenticate_grants`) or ended
  (`authenticate_revokes`);
* the pairs of users that get a session when somebody joins or shares;
* `RoomOk` for a new room, for a changed user with new sessions, and after sessions have ended.
-/

set_option autoImplicit false

namespace Screego

open Lib Outgoing

/-! ## TURN users -/

section Turn

variable {env : Env} {ch : Choice}

/-- The user names of the two sides differ. -/
theorem hostUsername_ne_clientUsername (env : Env) (id id' : XID) :
    hostUsername env id ≠ clientUsername env id' := by
  intro e
  have := congrArg (fun s => s.toList.reverse) e
  simp [hostUsername, clientUsername] at this

/-- The user names of two sessions differ. -/
theorem UsernameOf.unique {sid sid' : XID} {name : String} (h : UsernameOf env sid name)
    (h' : UsernameOf env sid' name) : sid = sid' := by
  have hright : ∀ a b c : String, a ++ c = b ++ c → a = b := by
    intro a b c e
    have := congrArg String.toList e
    rw [String.toList_append, String.toList_append] at this
    exact String.toList_inj.mp (List.append_cancel_right this)
  rcases h with h | h <;> rcases h' with h' | h' <;> rw [h] at h'
  · exact env.xidString_injective (hright _ _ _ h')
  · exact absurd h' (hostUsername_ne_clientUsername env _ _)
  · exact absurd h'.symm (hostUsername_ne_clientUsername env _ _)
  · exact env.xidString_injective (hright _ _ _ h')

@[simp] theorem isInternal_grantSession (mode : ConnectionMode) (users : GoMap XID User)
    (turn : Turn.Server) (a : XID × RoomSession) :
    (grantSession env ch mode users turn a).isInternal = turn.isInternal := by
  unfold grantSession
  split_ifs <;> simp

@[simp] theorem isInternal_revokeSession (mode : ConnectionMode) (turn : Turn.Server) (id : XID) :
    (revokeSession env mode turn id).isInternal = turn.isInternal := by
  unfold revokeSession
  split_ifs <;> simp

theorem isInternal_foldl {α : Type} {f : Turn.Server → α → Turn.Server}
    (hf : ∀ turn a, (f turn a).isInternal = turn.isInternal) (l : List α) (turn : Turn.Server) :
    (l.foldl f turn).isInternal = turn.isInternal := by
  induction l generalizing turn with
  | nil => rfl
  | cons a l ih => rw [List.foldl_cons, ih, hf]

/-- The key of the TURN user `name`, for the password drawn while the message was handled. -/
def keyOf (env : Env) (ch : Choice) (name : String) : List UInt8 :=
  env.generateAuthKey name Turn.realm (Turn.randString (ch.draw name) 20)

/-- A loop that overwrites a value at some elements. -/
theorem foldl_overwrite {α β σ : Type} {I : σ → Prop} {f : σ → α → σ} {get : σ → β} {p : α → Prop}
    [DecidablePred p] {v : β} (hI : ∀ s a, I s → I (f s a))
    (hf : ∀ s a, I s → get (f s a) = if p a then v else get s) (l : List α) {s : σ} (hs : I s) :
    get (l.foldl f s) = if ∃ a ∈ l, p a then v else get s := by
  induction l generalizing s with
  | nil => simp
  | cons a l ih =>
    rw [List.foldl_cons, ih (hI s a hs), hf s a hs]
    simp only [List.exists_mem_cons_iff]
    by_cases hl : ∃ b ∈ l, p b
    · rw [if_pos hl, if_pos (Or.inr hl)]
    · rw [if_neg hl]
      by_cases ha : p a
      · rw [if_pos ha, if_pos (Or.inl ha)]
      · rw [if_neg ha, if_neg (not_or.mpr ⟨ha, hl⟩)]

/-- **Beginning sessions** admits their users, in a TURN room. -/
theorem authenticate_grants (mode : ConnectionMode) (users : GoMap XID User)
    (A : List (XID × RoomSession)) {turn : Turn.Server} (hi : turn.isInternal = true)
    (name : String) :
    (A.foldl (grantSession env ch mode users) turn).authenticate name =
      if ∃ a ∈ A, mode = connectionTURN ∧ UsernameOf env a.1 name then some (keyOf env ch name)
      else turn.authenticate name := by
  refine foldl_overwrite (I := fun t => t.isInternal = true) (fun t a ht => ?_) (fun t a ht => ?_)
    A hi
  · rw [isInternal_grantSession, ht]
  by_cases hm : mode = connectionTURN
  · rw [grantSession, if_pos hm, Turn.Server.authenticate_grant _ _ _ _ (by simp [ht]),
      Turn.Server.authenticate_grant _ _ _ _ ht]
    by_cases hc : name = clientUsername env a.1
    · rw [if_pos hc, if_pos ⟨hm, Or.inr hc⟩, hc]
      rfl
    rw [if_neg hc]
    by_cases hh : name = hostUsername env a.1
    · rw [if_pos hh, if_pos ⟨hm, Or.inl hh⟩, hh]
      rfl
    · rw [if_neg hh, if_neg fun h => (h.2.elim hh hc)]
  · rw [grantSession, if_neg hm, if_neg fun h => hm h.1]

/-- **Ending sessions** revokes their users, in a TURN room. -/
theorem authenticate_revokes (mode : ConnectionMode) (ids : List XID) (turn : Turn.Server)
    (name : String) :
    (ids.foldl (revokeSession env mode) turn).authenticate name =
      if ∃ id ∈ ids, mode = connectionTURN ∧ UsernameOf env id name then none
      else turn.authenticate name := by
  refine foldl_overwrite (I := fun _ => True) (fun _ _ _ => trivial) (fun t id _ => ?_) ids trivial
  by_cases hm : mode = connectionTURN
  · rw [revokeSession, if_pos hm, Turn.Server.authenticate_disallow,
      Turn.Server.authenticate_disallow]
    by_cases hc : name = clientUsername env id
    · rw [if_pos hc, if_pos ⟨hm, Or.inr hc⟩]
    rw [if_neg hc]
    by_cases hh : name = hostUsername env id
    · rw [if_pos hh, if_pos ⟨hm, Or.inl hh⟩]
    · rw [if_neg hh, if_neg fun h => (h.2.elim hh hc)]
  · rw [revokeSession, if_neg hm, if_neg fun h => hm h.1]

end Turn

/-! ## Rooms -/

section Pairs

variable {ch : Choice} {c : XID} {users : GoMap XID User} {x : RoomSession}

theorem mem_joinPairs (hid : ∀ c u, users.lookup c = some u → u.id = c) :
    x ∈ joinPairs ch c users ↔
      x.client = c ∧ x.host ≠ c ∧ ∃ u, users.lookup x.host = some u ∧ u.streaming = true := by
  simp only [joinPairs, List.mem_map, List.mem_filter, mem_range, Bool.not_or, Bool.not_not,
    Bool.and_eq_true, Bool.not_eq_true', decide_eq_false_iff_not]
  constructor
  · rintro ⟨⟨h, u⟩, ⟨hu, hne, hs⟩, rfl⟩
    have := hid h u hu
    subst this
    exact ⟨rfl, fun e => hne e.symm, u, hu, hs⟩
  · rintro ⟨rfl, hne, u, hu, hs⟩
    have := hid _ u hu
    exact ⟨(x.host, u), ⟨hu, fun e => hne (this ▸ e.symm), hs⟩, by rw [this]⟩

theorem mem_sharePairs (hid : ∀ c u, users.lookup c = some u → u.id = c) :
    x ∈ sharePairs ch c users ↔ x.host = c ∧ x.client ≠ c ∧ x.client ∈ users := by
  simp only [sharePairs, List.mem_map, List.mem_filter, mem_range, Bool.not_eq_true',
    decide_eq_false_iff_not]
  constructor
  · rintro ⟨⟨v, u⟩, ⟨hu, hne⟩, rfl⟩
    have := hid v u hu
    subst this
    exact ⟨rfl, fun e => hne e.symm, Finmap.mem_of_lookup_eq_some hu⟩
  · rintro ⟨rfl, hne, hmem⟩
    obtain ⟨u, hu⟩ := Finmap.mem_iff.mp hmem
    have := hid _ u hu
    exact ⟨(x.client, u), ⟨hu, fun e => hne (this ▸ e.symm)⟩, by rw [this]⟩

end Pairs

/-- Ids print without spaces. -/
theorem trimmed_xidString (env : Env) (id : XID) : Trimmed (env.xidString id) := by
  have hall : xidAlphabet.all (!isSpace ·) = true := by decide
  have halphabet : ∀ c ∈ xidAlphabet, isSpace c = false := fun c hc => by
    simpa using List.all_eq_true.mp hall c hc
  exact ⟨trimSpace_eq_self fun c hc => halphabet c (env.xidString_alphabet id c hc),
    env.xidString_ne_empty id⟩

theorem normalizeVisitorID_trimmed (env : Env) (v : String) (c : XID) :
    Trimmed (normalizeVisitorID env v c) := by
  simp only [normalizeVisitorID]
  split_ifs with h
  · exact trimmed_xidString env c
  · exact ⟨trimSpace_idem v, h⟩

/-- A trimmed visitor ID is taken as it is. -/
theorem normalizeVisitorID_of_trimmed (env : Env) {v : String} (hv : Trimmed v) (c : XID) :
    normalizeVisitorID env v c = v := by
  simp only [normalizeVisitorID, hv.1, if_neg hv.2]

theorem createUser_visitorID_trimmed (env : Env) (info : ClientInfo) (e : Create) :
    Trimmed (createUser env info e).visitorID := by
  simp only [createUser]
  exact normalizeVisitorID_trimmed _ _ _

theorem joinUser_visitorID_trimmed (env : Env) (ch : Choice) (info : ClientInfo) (r : Room)
    (v : String) : Trimmed (joinUser env ch info r v).visitorID := by
  simp only [joinUser]
  exact normalizeVisitorID_trimmed _ _ _

section Rooms

variable {R : String} {r : Room} {u : User} {c : XID}

theorem lookup_put (r : Room) (u : User) (c : XID) :
    (r.put u).users.lookup c = if c = u.id then some u else r.users.lookup c :=
  GoMap.lookup_insert_ite _ _ _ _

theorem mem_put (r : Room) (u : User) (c : XID) :
    c ∈ (r.put u).users ↔ c = u.id ∨ c ∈ r.users := Finmap.mem_insert

theorem lookup_without (r : Room) (c c' : XID) :
    (r.without c).users.lookup c' = if c' = c then none else r.users.lookup c' :=
  GoMap.lookup_erase_ite _ _ _

theorem mem_without (r : Room) (c c' : XID) :
    c' ∈ (r.without c).users ↔ c' ≠ c ∧ c' ∈ r.users := Finmap.mem_erase

/-- The client that creates a room is its only user. -/
theorem lookup_createRoom {env : Env} {info : ClientInfo} {e : Create} {c : XID} {u : User}
    (hu : (createRoom env info R e).users.lookup c = some u) :
    c = info.id ∧ createUser env info e = u := by
  refine (GoMap.lookup_insert_eq_some.mp hu).resolve_right fun hother => ?_
  exact absurd hother.2 (by simp)

theorem RoomOk.create {env : Env} {info : ClientInfo} {e : Create} (hw : info.write = ⟨info.id⟩)
    (hR : normalizeRoomID e.id = .ok R) : RoomOk R (createRoom env info R e) where
  id_eq := rfl
  trimmed := (normalizeRoomID_eq_ok.mp (normalizeRoomID_idem hR)).1
  long := (normalizeRoomID_eq_ok.mp hR).2
  inhabited := ⟨info.id, Finmap.mem_insert.mpr (Or.inl rfl)⟩
  user c u hu := by
    obtain ⟨rfl, rfl⟩ := lookup_createRoom hu
    exact ⟨rfl, hw, (createUser_visitorID_trimmed env info e).2⟩
  sound sid x hx := by simp [createRoom] at hx
  complete h c u hu hs := by
    obtain ⟨-, rfl⟩ := lookup_createRoom hu
    exact absurd hs Bool.false_ne_true

/-- **A user enters or begins to share, with new sessions.** -/
theorem RoomOk.opened (h : RoomOk R r) (hw : u.write = ⟨u.id⟩) (hv : u.visitorID ≠ "")
    (hnew : u.streaming = false → u.id ∉ r.users) {A : List (XID × RoomSession)}
    (hkeys : (A.map Prod.fst).Nodup) (hA : ∀ a ∈ A, a.1 ∉ r.sessions)
    (hsound : ∀ a ∈ A, a.2.host ≠ a.2.client ∧ a.2.client ∈ (r.put u).users ∧
      ∃ v, (r.put u).users.lookup a.2.host = some v ∧ v.streaming = true)
    (hcomplete : ∀ g c v, (r.put u).users.lookup g = some v → v.streaming = true →
      c ∈ (r.put u).users → c ≠ g → g = u.id ∨ c = u.id →
      (∃ sid, r.sessions.lookup sid = some ⟨g, c⟩) ∨ ∃ a ∈ A, a.2 = ⟨g, c⟩) :
    RoomOk R { r.put u with sessions := GoMap.insertAll r.sessions A } where
  id_eq := h.id_eq
  trimmed := h.trimmed
  long := h.long
  inhabited := ⟨u.id, (mem_put r u u.id).mpr (Or.inl rfl)⟩
  user c v hv' := by
    rw [lookup_put] at hv'
    split_ifs at hv' with hc
    · cases hv'
      exact ⟨hc.symm, hc ▸ hw, hv⟩
    · exact h.user c v hv'
  sound sid x hx := by
    rcases (GoMap.lookup_insertAll _ hkeys hA sid x).mp hx with hx | hx
    · obtain ⟨hne, hc, v, hv', hs⟩ := h.sound sid x hx
      refine ⟨hne, (mem_put r u _).mpr (Or.inr hc), ?_⟩
      by_cases hhost : x.host = u.id
      · refine ⟨u, by rw [lookup_put, if_pos hhost], ?_⟩
        by_contra hf
        exact hnew (by simpa using hf) (hhost ▸ h.host_mem hx)
      · exact ⟨v, by rw [lookup_put, if_neg hhost, hv'], hs⟩
    · exact hsound _ hx
  complete g c v hg hs hc hne := by
    have key : (∃ sid, r.sessions.lookup sid = some ⟨g, c⟩) ∨ ∃ a ∈ A, a.2 = ⟨g, c⟩ := by
      by_cases hu : g = u.id ∨ c = u.id
      · exact hcomplete g c v hg hs hc hne hu
      · obtain ⟨hgu, hcu⟩ := not_or.mp hu
        rw [lookup_put, if_neg hgu] at hg
        exact Or.inl (h.complete g c v hg hs (((mem_put r u c).mp hc).resolve_left hcu) hne)
    rcases key with ⟨sid, hx⟩ | ⟨a, ha, e⟩
    · exact ⟨sid, (GoMap.lookup_insertAll _ hkeys hA sid _).mpr (Or.inl hx)⟩
    · exact ⟨a.1, (GoMap.lookup_insertAll _ hkeys hA a.1 _).mpr (Or.inr (e ▸ ha))⟩

/-- **A user stops to share.** -/
theorem RoomOk.unshared {ch : Choice} (h : RoomOk R r) (hu : r.users.lookup c = some u) :
    RoomOk R { r.put { u with streaming := false } with
      sessions := GoMap.eraseAll r.sessions ((r.hosted ch c).map Prod.fst) } := by
  obtain ⟨hid, hw, hv⟩ := h.user c u hu
  have hsess : ∀ sid x, (GoMap.eraseAll r.sessions ((r.hosted ch c).map Prod.fst)).lookup sid = some x ↔
      r.sessions.lookup sid = some x ∧ x.host ≠ c := by
    intro sid x
    rw [Room.hosted, lookup_eraseAll_filter, decide_eq_false_iff_not]
  have hmem : ∀ c', c' ∈ (r.put { u with streaming := false }).users ↔ c' ∈ r.users := fun c' =>
    GoMap.mem_insert_of_mem (hid ▸ Finmap.mem_of_lookup_eq_some hu) _ _
  have hlook : ∀ c', c' ≠ c → (r.put { u with streaming := false }).users.lookup c' =
      r.users.lookup c' := fun c' hne => by
    rw [lookup_put, if_neg (by rw [hid]; exact hne)]
  refine ⟨h.id_eq, h.trimmed, h.long, ⟨c, (hmem c).mpr (Finmap.mem_of_lookup_eq_some hu)⟩, ?_, ?_, ?_⟩
  · intro c' v hv'
    rw [lookup_put] at hv'
    split_ifs at hv' with hc
    · cases hv'
      exact ⟨hc.symm, by rw [hc, hid, hw], hv⟩
    · exact h.user c' v hv'
  · intro sid x hx
    obtain ⟨hx, hhost⟩ := (hsess sid x).mp hx
    obtain ⟨hne, hc, v, hv', hs⟩ := h.sound sid x hx
    exact ⟨hne, (hmem _).mpr hc, v, by rw [hlook _ hhost, hv'], hs⟩
  · intro g c' v hg hs hc' hne
    have hgc : g ≠ c := by
      rintro rfl
      rw [lookup_put, if_pos hid.symm] at hg
      cases hg
      exact absurd hs Bool.false_ne_true
    rw [hlook g hgc] at hg
    obtain ⟨sid, hx⟩ := h.complete g c' v hg hs ((hmem c').mp hc') hne
    exact ⟨sid, (hsess sid _).mpr ⟨hx, hgc⟩⟩

/-- The sessions of the room when `c` has left. -/
theorem lookup_ending {ch : Choice} (sid : XID) (x : RoomSession) :
    (GoMap.eraseAll r.sessions ((r.ending ch c).map Prod.fst)).lookup sid = some x ↔
      r.sessions.lookup sid = some x ∧ x.involves c = false := by
  rw [Room.ending, lookup_eraseAll_filter]

/-- **A user leaves.** -/
theorem RoomOk.left {ch : Choice} (h : RoomOk R r) (hrest : ∃ c', c' ∈ (r.without c).users) :
    RoomOk R { r.without c with
      sessions := GoMap.eraseAll r.sessions ((r.ending ch c).map Prod.fst) } := by
  refine ⟨h.id_eq, h.trimmed, h.long, hrest, ?_, ?_, ?_⟩
  · intro c' v hv
    rw [lookup_without] at hv
    split_ifs at hv
    exact h.user c' v hv
  · intro sid x hx
    obtain ⟨hx, hinv⟩ := (lookup_ending sid x).mp hx
    obtain ⟨hclient, hhost⟩ : x.client ≠ c ∧ x.host ≠ c := by simpa [RoomSession.involves] using hinv
    obtain ⟨hne, hc, v, hv, hs⟩ := h.sound sid x hx
    exact ⟨hne, (mem_without r c _).mpr ⟨hclient, hc⟩, v, by rw [lookup_without, if_neg hhost, hv], hs⟩
  · intro g c' v hg hs hc' hne
    rw [lookup_without] at hg
    split_ifs at hg with hgc
    obtain ⟨hc'c, hc'⟩ := (mem_without r c c').mp hc'
    obtain ⟨sid, hx⟩ := h.complete g c' v hg hs hc' hne
    exact ⟨sid, (lookup_ending sid _).mpr ⟨hx, by simp [RoomSession.involves, hgc, hc'c]⟩⟩

end Rooms

end Screego
