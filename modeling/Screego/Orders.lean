import Mathlib.Data.Multiset.AddSub
import Screego.Isolation
import Screego.Leaving
import Screego.Roster

/-!
# The order of the loops

Go walks a map in any order, and `sort.Slice` leaves ties in any order. A message handled with two
choices of all these orders leaves the same server and tells everybody the same, but for the ids of the
sessions that begin.

* `Renaming`: a permutation of the session ids drawn while a message is handled; **`exists_renaming`**;
* `Message.Renamed`, `Rooms.Renamed`: messages and servers that differ in these ids, in the passwords
  drawn for them and in the order of entries that tie;
* `Room.nextGuestName_eq`: the name of a new user;
* `Alike`, **`Asks.alike`**: what two choices make of one event;
* **`order_makes_no_difference`**: in every state of a run, for every input.
-/

set_option autoImplicit false

namespace Screego

open Lib Outgoing

/-! ## Renamings -/

/-- **A renaming of the session ids** of the calls of `xid.New` from the `n`-th up to the `m`-th. -/
structure Renaming (env : Env) (n m : ℕ) where
  perm : Equiv.Perm XID
  fresh : ∀ id, perm id ≠ id → ∃ i, n ≤ i ∧ i < m ∧ env.xidNew i = id

namespace Renaming

variable {env : Env} {n m : ℕ} {id : XID}

instance : CoeFun (Renaming env n m) fun _ => XID → XID := ⟨fun σ => σ.perm⟩

/-- No id is renamed. -/
def refl (env : Env) (n m : ℕ) : Renaming env n m := ⟨Equiv.refl _, fun _ h => absurd rfl h⟩

/-- One renaming after the other. -/
def comp (σ τ : Renaming env n m) : Renaming env n m where
  perm := σ.perm.trans τ.perm
  fresh id h := by
    by_cases hσ : σ.perm id = id
    · exact τ.fresh id fun hτ => h (by rw [Equiv.trans_apply, hσ, hτ])
    · exact σ.fresh id hσ

/-- The ids of two calls are exchanged. -/
def swap (env : Env) (h : n + 2 ≤ m) : Renaming env n m where
  perm := Equiv.swap (env.xidNew n) (env.xidNew (n + 1))
  fresh id hid := by
    obtain ⟨-, rfl | rfl⟩ := Equiv.swap_apply_ne_self_iff.mp hid
    · exact ⟨n, by omega, by omega, rfl⟩
    · exact ⟨n + 1, by omega, by omega, rfl⟩

/-- A renaming of the ids of later calls. -/
def later (σ : Renaming env (n + 1) m) : Renaming env n m where
  perm := σ.perm
  fresh id hid := by
    obtain ⟨i, hi, him, e⟩ := σ.fresh id hid
    exact ⟨i, by omega, him, e⟩

variable (σ : Renaming env n m)

theorem apply_of_drawn (h : env.Drawn n id) : σ id = id := by
  by_contra hid
  obtain ⟨i, hi, -, rfl⟩ := σ.fresh id hid
  exact absurd (Env.drawn_xidNew.mp h) (by omega)

theorem drawn_iff : env.Drawn n (σ id) ↔ env.Drawn n id := by
  constructor
  · intro h
    rwa [σ.perm.injective (σ.apply_of_drawn h)] at h
  · intro h
    rwa [σ.apply_of_drawn h]

end Renaming

/-- **Sessions begun in another order**: the entries are the same up to a renaming of their ids. -/
theorem exists_renaming (env : Env) {ps ps' : List RoomSession} (h : ps.Perm ps') (n m : ℕ)
    (hm : n + ps.length ≤ m) : ∃ σ : Renaming env n m,
      (newEntries env n ps').Perm ((newEntries env n ps).map fun a => (σ a.1, a.2)) := by
  induction h generalizing n with
  | nil => exact ⟨.refl env n m, .refl _⟩
  | cons x _ ih =>
    rw [List.length_cons] at hm
    obtain ⟨σ, hσ⟩ := ih (n + 1) (by omega)
    have hhead : σ (env.xidNew n) = env.xidNew n :=
      σ.apply_of_drawn (Env.drawn_xidNew.mpr (Nat.lt_succ_self n))
    refine ⟨σ.later, ?_⟩
    change (_ :: _).Perm ((σ (env.xidNew n), x) :: _)
    rw [hhead]
    exact hσ.cons _
  | swap x y l =>
    rw [List.length_cons, List.length_cons] at hm
    refine ⟨.swap env (by omega), ?_⟩
    have hrest : (newEntries env (n + 1 + 1) l).map
        (fun a => (Equiv.swap (env.xidNew n) (env.xidNew (n + 1)) a.1, a.2)) =
          newEntries env (n + 1 + 1) l := by
      refine (List.map_congr_left fun a ha => ?_).trans (List.map_id _)
      obtain ⟨i, hi, -, e⟩ := exists_of_mem_newEntries ha
      refine Prod.ext (Equiv.swap_apply_of_ne_of_ne ?_ ?_) rfl
      · exact fun ha => absurd (env.xidNew_injective (e.trans ha)) (by omega)
      · exact fun ha => absurd (env.xidNew_injective (e.trans ha)) (by omega)
    change (_ :: _ :: _).Perm ((Equiv.swap _ _ (env.xidNew n), y) ::
      (Equiv.swap _ _ (env.xidNew (n + 1)), x) :: (newEntries env (n + 1 + 1) l).map
        fun a => (Equiv.swap (env.xidNew n) (env.xidNew (n + 1)) a.1, a.2))
    rw [Equiv.swap_apply_left, Equiv.swap_apply_right, hrest]
    exact List.Perm.swap _ _ _
  | trans h _ ih ih' =>
    obtain ⟨σ, hσ⟩ := ih n hm
    obtain ⟨τ, hτ⟩ := ih' n (by rwa [← h.length_eq])
    refine ⟨σ.comp τ, hτ.trans ?_⟩
    have hmap := hσ.map fun a => (τ a.1, a.2)
    rwa [List.map_map] at hmap

/-! ## Messages and servers -/

section Renamed

variable (env : Env) (ch ch' : Choice) (turn : Turn.Server)

/-- The lists differ in the order of entries that tie. -/
def Tied (L L' : List Outgoing.User) : Prop :=
  L.Perm L' ∧ L.map Outgoing.User.rank = L'.map Outgoing.User.rank

/-- **A server for one side of a session**, whose user name is `name` in one run and `name'` in the
other: the same addresses, and no credentials or those that each run has issued for its user name. -/
structure Outgoing.ICEServer.Renamed (name name' : String) (x x' : ICEServer) : Prop where
  urls : x'.urls = x.urls
  credentials :
    (x.username, x.credential) = ("", "") ∧ (x'.username, x'.credential) = ("", "") ∨
    (x.username, x.credential) = turn.issued env (ch.draw name) ch.now name ∧
      (x'.username, x'.credential) = turn.issued env (ch'.draw name') ch'.now name'

/-- **The second message is the first one**, but for the renaming of session ids, the passwords drawn
for them and the order of entries that tie. -/
inductive Outgoing.Message.Renamed (σ : XID → XID) : Message → Message → Prop
  | room {m m' : Outgoing.Room} (hid : m'.id = m.id) (hmode : m'.mode = m.mode)
      (husers : Tied m.users m'.users) : Renamed σ (.room m) (.room m')
  | hostSession {m m' : P2PSession} (hid : m'.id = σ m.id) (hpeer : m'.peer = m.peer)
      (hice : List.Forall₂ (ICEServer.Renamed env ch ch' turn (hostUsername env m.id)
        (hostUsername env m'.id)) m.iceServers m'.iceServers) :
      Renamed σ (.hostSession m) (.hostSession m')
  | clientSession {m m' : P2PSession} (hid : m'.id = σ m.id) (hpeer : m'.peer = m.peer)
      (hice : List.Forall₂ (ICEServer.Renamed env ch ch' turn (clientUsername env m.id)
        (clientUsername env m'.id)) m.iceServers m'.iceServers) :
      Renamed σ (.clientSession m) (.clientSession m')
  | hostICE (m : P2PMessage) : Renamed σ (.hostICE m) (.hostICE ⟨σ m.sid, m.value⟩)
  | clientICE (m : P2PMessage) : Renamed σ (.clientICE m) (.clientICE ⟨σ m.sid, m.value⟩)
  | clientAnswer (m : P2PMessage) : Renamed σ (.clientAnswer m) (.clientAnswer ⟨σ m.sid, m.value⟩)
  | hostOffer (m : P2PMessage) : Renamed σ (.hostOffer m) (.hostOffer ⟨σ m.sid, m.value⟩)
  | endShare (id : XID) : Renamed σ (.endShare id) (.endShare (σ id))
  | closeWriter (code : ℕ) (reason : String) :
      Renamed σ (.closeWriter code reason) (.closeWriter code reason)

/-- The rooms differ in the ids of their sessions. -/
structure Room.Renamed (σ : XID → XID) (r r' : Screego.Room) : Prop where
  id : r'.id = r.id
  closeOnOwnerLeave : r'.closeOnOwnerLeave = r.closeOnOwnerLeave
  mode : r'.mode = r.mode
  users : r'.users = r.users
  sessions : ∀ sid, r'.sessions.lookup (σ sid) = r.sessions.lookup sid

/-- Two entries of the TURN table with the passwords drawn for their user names. -/
structure Turn.Entry.Redrawn (name name' : String) (a a' : Turn.Entry) : Prop where
  addr : a'.addr = a.addr
  password : a.password = keyOf env ch name
  password' : a'.password = keyOf env ch' name'

/-- **The TURN tables differ in the user names** of the sessions after the `n`-th call of `xid.New`. -/
structure Turn.Server.Renamed (n : ℕ) (σ : XID → XID) (t t' : Turn.Server) : Prop where
  internal : t'.isInternal = t.isInternal
  old : ∀ name, (∀ id, UsernameOf env id name → env.Drawn n id) → t'.entry name = t.entry name
  host : ∀ id, ¬ env.Drawn n id → Option.Rel
    (Turn.Entry.Redrawn env ch ch' (hostUsername env id) (hostUsername env (σ id)))
      (t.entry (hostUsername env id)) (t'.entry (hostUsername env (σ id)))
  client : ∀ id, ¬ env.Drawn n id → Option.Rel
    (Turn.Entry.Redrawn env ch ch' (clientUsername env id) (clientUsername env (σ id)))
      (t.entry (clientUsername env id)) (t'.entry (clientUsername env (σ id)))

/-- **The servers differ in the ids of new sessions** and in the passwords drawn for them. -/
structure Rooms.Renamed (n : ℕ) (σ : XID → XID) (t t' : Rooms) : Prop where
  rooms : ∀ R, Option.Rel (Room.Renamed σ) (t.rooms.lookup R) (t'.rooms.lookup R)
  connected : t'.connected = t.connected
  turnServer : Turn.Server.Renamed env ch ch' n σ t.turnServer t'.turnServer
  counters : t'.counters = t.counters
  drawn : t'.drawn = t.drawn

/-- **Everybody is told the same**, up to the order and the renaming. -/
def Told (σ : XID → XID) (l l' : List Message) : Prop :=
  Multiset.Rel (Message.Renamed env ch ch' turn σ) (l : Multiset Message) (l' : Multiset Message)

/-- **The results of handling one message in two ways are alike.** -/
def Alike (s : Rooms) (out out' : Rooms × List Send) : Prop :=
  ∃ σ : Renaming env s.drawn out.1.drawn,
    Rooms.Renamed env ch ch' s.drawn σ out.1 out'.1 ∧
    ∀ u, Told env ch ch' s.turnServer σ (heard u out.2) (heard u out'.2)

end Renamed

/-! ## The name of a new user -/

/-- Only the set of the names in use matters to the loop. -/
theorem guestLoop_congr {used used' : List String} (h : ∀ x, x ∈ used ↔ x ∈ used')
    (rounds index : ℕ) : guestLoop used rounds index = guestLoop used' rounds index := by
  induction rounds generalizing index with
  | zero => rfl
  | succ rounds ih => simp only [guestLoop, h, ih]

variable {env : Env} {ch ch' : Choice} {s t t' : Rooms} {info : ClientInfo} {e : Event}
  {sent sent' : List Send} {c u : XID} {R v : String} {r : Screego.Room} {n m : ℕ}
  {turn : Turn.Server}

/-- **The name of a new user does not depend on the order**: the connections of a visitor have one name,
and the first free name is free in any order. -/
theorem Room.nextGuestName_eq (ch ch' : Choice) (hr : r.Visitors) (hv : v ≠ "") :
    r.nextGuestName ch v = r.nextGuestName ch' v := by
  have hperm := (perm_range (ch.order .nextGuestName) r.users (ch'.order .nextGuestName)).map Prod.snd
  have hmem : ∀ o : RangeOrder XID, ∀ a ∈ (range o r.users).map Prod.snd,
      ∃ c, r.users.lookup c = some a := by
    intro o a ha
    obtain ⟨⟨c, a⟩, hca, rfl⟩ := List.mem_map.mp ha
    exact ⟨c, (mem_range _ _).mp hca⟩
  unfold Room.nextGuestName
  rcases lookup_knownNames hv ((range (ch.order .nextGuestName) r.users).map Prod.snd) ∅ with
    ⟨a, ha, hav, hname⟩ | ⟨hnone, hlook⟩
  · rcases lookup_knownNames hv ((range (ch'.order .nextGuestName) r.users).map Prod.snd) ∅ with
      ⟨a', ha', hav', hname'⟩ | ⟨hnone', -⟩
    · obtain ⟨c, hc⟩ := hmem _ a ha
      obtain ⟨c', hc'⟩ := hmem _ a' ha'
      have heq : a.name = a'.name := (hr.fits c c' a a' hc hc').name.mpr (hav.trans hav'.symm)
      have hne : a'.name ≠ "" := hr.name_ne hc'
      rw [knownNames] at hname hname'
      simp only [hname, hname', Option.getD_some, heq, if_pos hne]
    · exact absurd hav (hnone' a (hperm.mem_iff.mp ha))
  · rcases lookup_knownNames hv ((range (ch'.order .nextGuestName) r.users).map Prod.snd) ∅ with
      ⟨a', ha', hav', -⟩ | ⟨-, hlook'⟩
    · exact absurd hav' (hnone a' (hperm.mem_iff.mpr ha'))
    · have hused := hperm.map Screego.User.name
      rw [knownNames, Finmap.lookup_empty] at hlook hlook'
      simp only [hlook, hlook', Option.getD_none, ne_eq, not_true_eq_false, if_false,
        hused.length_eq]
      exact guestLoop_congr (fun x => hused.mem_iff) _ _

/-- A joining user is the same, whatever the orders. -/
theorem joinUser_eq (ch ch' : Choice) (hr : r.Visitors) (env : Env) (info : ClientInfo) (v : String) :
    joinUser env ch info r v = joinUser env ch' info r v := by
  have hne := (normalizeVisitorID_trimmed env v info.id).2
  have howner : r.visitorOwner ch (normalizeVisitorID env v info.id) =
      r.visitorOwner ch' (normalizeVisitorID env v info.id) := by
    rw [Bool.eq_iff_iff, Room.visitorOwner_iff, Room.visitorOwner_iff]
  rw [joinUser, joinUser, Room.nextGuestName_eq ch ch' hr hne, howner]

/-! ## What everybody is told -/

section Pieces

variable {σ : XID → XID} {l l' l₁ l₁' : List Message}

theorem told_of_forall₂ (h : List.Forall₂ (Message.Renamed env ch ch' turn σ) l l') :
    Told env ch ch' turn σ l l' := by
  induction h with
  | nil => exact Multiset.Rel.zero
  | cons hm _ ih => exact Multiset.Rel.cons hm ih

theorem told_nil : Told env ch ch' turn σ [] [] := told_of_forall₂ .nil

theorem Told.append (h : Told env ch ch' turn σ l l') (h₁ : Told env ch ch' turn σ l₁ l₁') :
    Told env ch ch' turn σ (l ++ l₁) (l' ++ l₁') := by
  rw [Told, ← Multiset.coe_add, ← Multiset.coe_add]
  exact Multiset.Rel.add h h₁

theorem Told.perm (h : Told env ch ch' turn σ l l') (hl : l'.Perm l₁) :
    Told env ch ch' turn σ l l₁ := by
  rwa [Told, ← Multiset.coe_eq_coe.mpr hl]

/-- One message is handed out. -/
theorem told_write {m m' : Message} (h : Message.Renamed env ch ch' turn σ m m') (o : Chan) :
    Told env ch ch' turn σ (heard u [.write o m]) (heard u [.write o m']) := by
  by_cases ho : o = ⟨u⟩
  · simpa [heard, Send.heardBy, ho] using told_of_forall₂ (.cons h .nil)
  · simpa [heard, Send.heardBy, ho] using told_nil

/-- Two lists made for one member differ in the order of ties. -/
theorem tied_infoFor (r : Screego.Room) (current : XID × Screego.User) :
    Tied (r.infoFor ch current).users (r.infoFor ch' current).users := by
  have hperm : (r.infoFor ch current).users.Perm (r.infoFor ch' current).users :=
    (perm_sortSlice _ _ _).trans
      (((perm_range _ _ _).map _).trans (perm_sortSlice _ _ _).symm)
  have hsorted : ∀ ch : Choice,
      ((r.infoFor ch current).users.map Outgoing.User.rank).Pairwise (· ≤ ·) := fun ch =>
    List.pairwise_map.mpr (pairwise_sortSlice _ _ lessUser_iff)
  exact ⟨hperm, (hperm.map Outgoing.User.rank).eq_of_pairwise (fun _ _ _ _ => le_antisymm)
    (hsorted ch) (hsorted ch')⟩

/-- **The member lists.** -/
theorem told_notifyInfoChanged (h : r.Keyed) (u : XID) : Told env ch ch' turn σ
    (heard u (r.notifyInfoChanged ch)) (heard u (r.notifyInfoChanged ch')) := by
  rw [heard_notifyInfoChanged h, heard_notifyInfoChanged h]
  cases hu : r.users.lookup u with
  | none =>
    rw [Room.news, Room.news, hu]
    exact told_nil
  | some v =>
    rw [Room.news_of_lookup hu, Room.news_of_lookup hu]
    exact told_of_forall₂ (.cons (.room rfl rfl (tied_infoFor r _)) .nil)

/-- The ends of sessions that keep their ids. -/
theorem told_endShares (peer : RoomSession → XID) {L L' : List (XID × RoomSession)} (h : L.Perm L')
    (hσ : ∀ id, σ id = id) (u : XID) : Told env ch ch' turn σ
      (heard u (endShares peer L)) (heard u (endShares peer L')) := by
  have hperm : (heard u (endShares peer L)).Perm (heard u (endShares peer L')) := h.map _ |>.filterMap _
  refine Told.perm (told_of_forall₂ ?_) hperm
  refine List.forall₂_same.mpr fun m hm => ?_
  rw [heard_endShares] at hm
  obtain ⟨a, -, rfl⟩ := List.mem_map.mp hm
  have hend : Message.Renamed env ch ch' turn σ (.endShare a.1) (.endShare (σ a.1)) := .endShare a.1
  rwa [hσ] at hend

/-- The owner's departure. -/
theorem told_ownerLeft (h : r.Keyed) (c u : XID) : Told env ch ch' turn σ
    (heard u (ownerLeft (r.members ch c))) (heard u (ownerLeft (r.members ch' c))) := by
  rw [heard_ownerLeft h, heard_ownerLeft h]
  split_ifs
  · exact told_of_forall₂ (.cons (.closeWriter _ _) .nil)
  · exact told_nil

/-- The servers for a side of a session. -/
theorem renamed_iceFor (v4 v6 : Option IP) (mode : ConnectionMode) (name name' : String) :
    List.Forall₂ (ICEServer.Renamed env ch ch' turn name name')
      (iceFor env ch v4 v6 mode turn name) (iceFor env ch' v4 v6 mode turn name') := by
  unfold iceFor
  split_ifs
  · exact .nil
  · exact .cons ⟨rfl, Or.inl ⟨rfl, rfl⟩⟩ .nil
  · exact .cons ⟨rfl, Or.inr ⟨rfl, rfl⟩⟩ .nil
  · exact .nil

/-- The announcements of a session, under its two ids. -/
theorem told_announce (v4 v6 : Option IP) (mode : ConnectionMode) (u id : XID) (x : RoomSession) :
    Told env ch ch' turn σ (heard u (announce env ch v4 v6 mode turn (id, x)))
      (heard u (announce env ch' v4 v6 mode turn (σ id, x))) := by
  have hhost : Message.Renamed env ch ch' turn σ
      (.hostSession ⟨id, x.client, iceFor env ch v4 v6 mode turn (hostUsername env id)⟩)
      (.hostSession ⟨σ id, x.client, iceFor env ch' v4 v6 mode turn (hostUsername env (σ id))⟩) :=
    .hostSession rfl rfl (renamed_iceFor v4 v6 mode _ _)
  have hclient : Message.Renamed env ch ch' turn σ
      (.clientSession ⟨id, x.host, iceFor env ch v4 v6 mode turn (clientUsername env id)⟩)
      (.clientSession ⟨σ id, x.host, iceFor env ch' v4 v6 mode turn (clientUsername env (σ id))⟩) :=
    .clientSession rfl rfl (renamed_iceFor v4 v6 mode _ _)
  have happ := (told_write (u := u) hhost ⟨x.host⟩).append (told_write (u := u) hclient ⟨x.client⟩)
  rwa [← heard_append, ← heard_append] at happ

/-- **The announcements of new sessions**, begun in two orders. -/
theorem told_announcements (v4 v6 : Option IP) (mode : ConnectionMode) (u : XID)
    {A A' : List (XID × RoomSession)} (h : A'.Perm (A.map fun a => (σ a.1, a.2))) :
    Told env ch ch' turn σ (heard u (A.flatMap (announce env ch v4 v6 mode turn)))
      (heard u (A'.flatMap (announce env ch' v4 v6 mode turn))) := by
  have hperm : (heard u ((A.map fun a => (σ a.1, a.2)).flatMap (announce env ch' v4 v6 mode turn))).Perm
      (heard u (A'.flatMap (announce env ch' v4 v6 mode turn))) :=
    (h.symm.flatMap_right _).filterMap _
  refine Told.perm ?_ hperm
  clear h hperm
  induction A with
  | nil => exact told_nil
  | cons a A ih =>
    rw [List.map_cons, List.flatMap_cons, List.flatMap_cons, heard_append, heard_append]
    exact (told_announce v4 v6 mode u a.1 a.2).append ih

end Pieces

/-! ## The server afterwards -/

/-- Only sessions have TURN users. -/
theorem Inv.entry_fresh (h : Inv env s) {id : XID} {name : String} (hid : ¬ env.Drawn s.drawn id)
    (hn : UsernameOf env id name) : s.turnServer.entry name = none := by
  have hauth : s.turnServer.authenticate name = (s.turnServer.entry name).map Turn.Entry.password := by
    cases s.turnServer <;> rfl
  by_contra hsome
  have hname : (s.turnServer.authenticate name).isSome = true := by
    rw [hauth, Option.isSome_map]
    exact Option.isSome_iff_ne_none.mpr hsome
  obtain ⟨R, r, hr, -, sid, hsid, hn'⟩ := h.admits_of_authenticate hname
  exact hid (hn.unique hn' ▸ h.session R r sid hr hsid)

section Table

variable {mode : ConnectionMode} {users : GoMap XID Screego.User} {A A' : List (XID × RoomSession)}

theorem entry_grant_self (draw : ℕ → ℕ) (id : String) (addr : IP) {turn : Turn.Server}
    (ht : turn.isInternal = true) : (turn.grant env draw id addr).entry id =
      some ⟨addr, env.generateAuthKey id Turn.realm (Turn.randString draw 20)⟩ := by
  cases turn with
  | internal lookup => exact Finmap.lookup_insert _
  | external => exact absurd ht Bool.false_ne_true

/-- Outside TURN rooms, and with an external server, nothing is entered. -/
theorem entry_grants_of_not (h : ¬ (mode = connectionTURN ∧ turn.isInternal = true))
    (A : List (XID × RoomSession)) (name : String) :
    (A.foldl (grantSession env ch mode users) turn).entry name = turn.entry name := by
  have hsame : ∀ a, grantSession env ch mode users turn a = turn := by
    intro a
    unfold grantSession
    split_ifs with hm
    · cases turn with
      | internal lookup => exact absurd ⟨hm, rfl⟩ h
      | external => rfl
    · rfl
  induction A with
  | nil => rfl
  | cons a A ih => rw [List.foldl_cons, hsame, ih]

/-- **The entries of a new session.** -/
theorem entry_grants_of_mem (hm : mode = connectionTURN) (ht : turn.isInternal = true)
    (hA : (A.map Prod.fst).Nodup) {a : XID × RoomSession} (ha : a ∈ A) :
    (A.foldl (grantSession env ch mode users) turn).entry (hostUsername env a.1) =
        some ⟨addrOf users a.2.host, keyOf env ch (hostUsername env a.1)⟩ ∧
      (A.foldl (grantSession env ch mode users) turn).entry (clientUsername env a.1) =
        some ⟨addrOf users a.2.client, keyOf env ch (clientUsername env a.1)⟩ := by
  have hhost : UsernameOf env a.1 (hostUsername env a.1) := Or.inl rfl
  have hclient : UsernameOf env a.1 (clientUsername env a.1) := Or.inr rfl
  induction A generalizing turn with
  | nil => exact absurd ha List.not_mem_nil
  | cons b A ih =>
    rw [List.map_cons, List.nodup_cons] at hA
    rcases List.mem_cons.mp ha with rfl | ha
    · have hother : ∀ name, UsernameOf env a.1 name → ∀ b ∈ A, ¬ UsernameOf env b.1 name :=
        fun name hn b hb hb' => hA.1 (List.mem_map.mpr ⟨b, hb, hb'.unique hn⟩)
      rw [List.foldl_cons, entry_grants _ _ _ _ (hother _ hhost), entry_grants _ _ _ _ (hother _ hclient),
        grantSession, if_pos hm]
      refine ⟨?_, entry_grant_self _ _ _ (by rw [Turn.Server.isInternal_grant, ht])⟩
      have hne : hostUsername env a.1 ≠ clientUsername env a.1 := hostUsername_ne_clientUsername env _ _
      rw [entry_grant _ _ _ hne]
      exact entry_grant_self _ _ _ ht
    · rw [List.foldl_cons]
      exact ih (by rw [isInternal_grantSession, ht]) hA.2 ha

end Table


/-- A TURN table without the user names of new sessions. -/
def Fits (env : Env) (n : ℕ) (turn : Turn.Server) : Prop :=
  ∀ id name, ¬ env.Drawn n id → UsernameOf env id name → turn.entry name = none

section Same

variable (σ : Renaming env n m)

/-- The table is the same. -/
theorem Turn.Server.Renamed.refl (h : Fits env n turn) :
    Turn.Server.Renamed env ch ch' n σ turn turn where
  internal := rfl
  old _ _ := rfl
  host id hid := by
    rw [h id _ hid (Or.inl rfl), h (σ id) _ (mt σ.drawn_iff.mp hid) (Or.inl rfl)]
    exact .none
  client id hid := by
    rw [h id _ hid (Or.inr rfl), h (σ id) _ (mt σ.drawn_iff.mp hid) (Or.inr rfl)]
    exact .none

/-- The sessions of the room have been there before. -/
def Room.Old (env : Env) (n : ℕ) (r : Screego.Room) : Prop := ∀ sid ∈ r.sessions, env.Drawn n sid

/-- Old sessions keep their ids. -/
theorem Room.Old.lookup_eq (h : r.Old env n) (sid : XID) :
    r.sessions.lookup (σ sid) = r.sessions.lookup sid := by
  by_cases hsid : env.Drawn n sid
  · rw [σ.apply_of_drawn hsid]
  · rw [Finmap.lookup_eq_none.mpr fun hmem => hsid (h sid hmem),
      Finmap.lookup_eq_none.mpr fun hmem => hsid (σ.drawn_iff.mp (h _ hmem))]

theorem Room.Old.renamed (h : r.Old env n) : Room.Renamed σ r r where
  id := rfl
  closeOnOwnerLeave := rfl
  mode := rfl
  users := rfl
  sessions := h.lookup_eq σ

/-- **The server is the same.** -/
theorem Rooms.Renamed.refl (h : Fits env n t.turnServer)
    (hold : ∀ R r, t.rooms.lookup R = some r → r.Old env n) : Rooms.Renamed env ch ch' n σ t t where
  rooms R := by
    cases hr : t.rooms.lookup R with
    | none => exact .none
    | some r => exact .some ((hold R r hr).renamed σ)
  connected := rfl
  turnServer := .refl σ h
  counters := rfl
  drawn := rfl

end Same

/-! ## New sessions -/

/-- **The entries of new sessions**, begun in another order. -/
structure Reordered (σ : Renaming env n m) (A A' : List (XID × RoomSession)) : Prop where
  perm : A'.Perm (A.map fun a => (σ a.1, a.2))
  nodup : (A.map Prod.fst).Nodup
  fresh : ∀ a ∈ A, ¬ env.Drawn n a.1

theorem exists_reordered (env : Env) {ps ps' : List RoomSession} (h : ps.Perm ps')
    (hm : n + ps.length ≤ m) :
    ∃ σ : Renaming env n m, Reordered σ (newEntries env n ps) (newEntries env n ps') := by
  obtain ⟨σ, hσ⟩ := exists_renaming env h n m hm
  exact ⟨σ, hσ, nodup_newEntries n ps, fun _ => not_drawn_of_mem_newEntries⟩

namespace Reordered

variable {σ : Renaming env n m} {A A' : List (XID × RoomSession)} (h : Reordered σ A A')

include h

theorem mem_iff (id : XID) (x : RoomSession) : (σ id, x) ∈ A' ↔ (id, x) ∈ A := by
  rw [h.perm.mem_iff, List.mem_map]
  constructor
  · rintro ⟨⟨id', x'⟩, ha, he⟩
    obtain ⟨hid, rfl⟩ := Prod.mk.inj he
    exact σ.perm.injective hid ▸ ha
  · exact fun ha => ⟨(id, x), ha, rfl⟩

theorem nodup_right : (A'.map Prod.fst).Nodup := by
  have hmap := h.perm.map Prod.fst
  have hcomp := h.nodup.map σ.perm.injective
  rw [List.map_map] at hmap hcomp
  exact hmap.nodup_iff.mpr hcomp

theorem fresh_right {a : XID × RoomSession} (ha : a ∈ A') : ¬ env.Drawn n a.1 := by
  obtain ⟨b, hb, rfl⟩ := List.mem_map.mp (h.perm.mem_iff.mp ha)
  exact mt σ.drawn_iff.mp (h.fresh b hb)

theorem length_eq : A'.length = A.length := by
  rw [h.perm.length_eq, List.length_map]

/-- **The sessions of a room** after new ones. -/
theorem room (hold : r.Old env n) : Room.Renamed σ { r with sessions := GoMap.insertAll r.sessions A }
    { r with sessions := GoMap.insertAll r.sessions A' } where
  id := rfl
  closeOnOwnerLeave := rfl
  mode := rfl
  users := rfl
  sessions sid := by
    refine Option.ext fun x => ?_
    rw [GoMap.lookup_insertAll _ h.nodup_right fun a ha hmem => h.fresh_right ha (hold _ hmem),
      GoMap.lookup_insertAll _ h.nodup fun a ha hmem => h.fresh a ha (hold _ hmem),
      hold.lookup_eq σ sid, h.mem_iff]

/-- The entries of one side, where a new session has the entry `f` says. -/
theorem entry {name : XID → String} (hname : ∀ id, UsernameOf env id (name id))
    {rel : XID → Turn.Entry → Turn.Entry → Prop} (hfits : Fits env n turn)
    (mode : ConnectionMode) (users : GoMap XID Screego.User)
    (hmem : ∀ id x, (id, x) ∈ A → Option.Rel (rel id)
      ((A.foldl (grantSession env ch mode users) turn).entry (name id))
      ((A'.foldl (grantSession env ch' mode users) turn).entry (name (σ id))))
    (id : XID) (hid : ¬ env.Drawn n id) : Option.Rel (rel id)
      ((A.foldl (grantSession env ch mode users) turn).entry (name id))
      ((A'.foldl (grantSession env ch' mode users) turn).entry (name (σ id))) := by
  by_cases hex : ∃ x, (id, x) ∈ A
  · obtain ⟨x, hx⟩ := hex
    exact hmem id x hx
  · rw [not_exists] at hex
    rw [entry_grants _ _ _ _ fun a ha hn => hex a.2 (hn.unique (hname id) ▸ ha),
      entry_grants _ _ _ _ fun a ha hn => hex a.2 ((h.mem_iff id a.2).mp (hn.unique (hname (σ id)) ▸ ha)),
      hfits id _ hid (hname id), hfits _ _ (mt σ.drawn_iff.mp hid) (hname _)]
    exact .none

/-- **The TURN table** after new sessions. -/
theorem table (hfits : Fits env n turn) (mode : ConnectionMode) (users : GoMap XID Screego.User) :
    Turn.Server.Renamed env ch ch' n σ (A.foldl (grantSession env ch mode users) turn)
      (A'.foldl (grantSession env ch' mode users) turn) := by
  by_cases hturn : mode = connectionTURN ∧ turn.isInternal = true
  · refine ⟨?_, fun name hold => ?_, h.entry (fun _ => Or.inl rfl) hfits mode users fun id x hx => ?_,
      h.entry (fun _ => Or.inr rfl) hfits mode users fun id x hx => ?_⟩
    · rw [isInternal_foldl (isInternal_grantSession _ _), isInternal_foldl (isInternal_grantSession _ _)]
    · rw [entry_grants _ _ _ _ fun a ha hn => h.fresh a ha (hold _ hn),
        entry_grants _ _ _ _ fun a ha hn => h.fresh_right ha (hold _ hn)]
    · rw [(entry_grants_of_mem hturn.1 hturn.2 h.nodup hx).1,
        (entry_grants_of_mem hturn.1 hturn.2 h.nodup_right ((h.mem_iff id x).mpr hx)).1]
      exact .some ⟨rfl, rfl, rfl⟩
    · rw [(entry_grants_of_mem hturn.1 hturn.2 h.nodup hx).2,
        (entry_grants_of_mem hturn.1 hturn.2 h.nodup_right ((h.mem_iff id x).mpr hx)).2]
      exact .some ⟨rfl, rfl, rfl⟩
  · have hsame : Turn.Server.Renamed env ch ch' n σ turn turn := .refl σ hfits
    refine ⟨?_, fun name _ => ?_, fun id hid => ?_, fun id hid => ?_⟩
    · rw [isInternal_foldl (isInternal_grantSession _ _), isInternal_foldl (isInternal_grantSession _ _)]
    · rw [entry_grants_of_not hturn, entry_grants_of_not hturn]
    · rw [entry_grants_of_not hturn, entry_grants_of_not hturn]
      exact hsame.host id hid
    · rw [entry_grants_of_not hturn, entry_grants_of_not hturn]
      exact hsame.client id hid

/-- **The server** after new sessions in a room. -/
theorem opened (hfits : Fits env n t.turnServer)
    (hold : ∀ R r, t.rooms.lookup R = some r → r.Old env n) (hr : r.Old env n) (R : String) :
    Rooms.Renamed env ch ch' n σ (t.opened env ch R r A) (t.opened env ch' R r A') where
  rooms R' := by
    simp only [Rooms.opened, GoMap.lookup_insert_ite]
    split_ifs
    · exact .some (h.room hr)
    · cases hr' : t.rooms.lookup R' with
      | none => exact .none
      | some r' => exact .some ((hold R' r' hr').renamed σ)
  connected := rfl
  turnServer := h.table hfits r.mode r.users
  counters := by simp only [Rooms.opened, h.length_eq]
  drawn := by simp only [Rooms.opened, h.length_eq]

end Reordered

/-! ## One message -/

theorem Inv.fits (h : Inv env s) : Fits env s.drawn s.turnServer := fun _ _ => h.entry_fresh

theorem Inv.old (h : Inv env s) : ∀ R r, s.rooms.lookup R = some r → r.Old env s.drawn :=
  fun R r hr sid hsid => h.session R r sid hr hsid

/-- **One server**, and messages that are the same but for their order and ties. -/
theorem alike_of_told (hfits : Fits env s.drawn t.turnServer)
    (hold : ∀ R r, t.rooms.lookup R = some r → r.Old env s.drawn)
    (htold : ∀ u, Told env ch ch' s.turnServer (Renaming.refl env s.drawn t.drawn) (heard u sent)
      (heard u sent')) : Alike env ch ch' s (t, sent) (t, sent') :=
  ⟨.refl env _ _, .refl _ hfits hold, htold⟩

/-- **What everybody is told of a departure.** -/
theorem Departs.told {σ : XID → XID} (hσ : ∀ id, σ id = id) (h : Inv env s) {d : Disconnected}
    (hd : Departs env ch s c d t sent) (hd' : Departs env ch' s c d t' sent') (u : XID) :
    Told env ch ch' turn σ (heard u sent) (heard u sent') := by
  have hidle : ∀ {R r}, s.connected.lookup c = some "" → ¬ s.InRoom c R r := fun hc hin =>
    hin.ne (Option.some.inj (hin.at_.symm.trans hc))
  have hclose : Told env ch ch' turn σ (heard u [d.close c]) (heard u [d.close c]) :=
    told_write (.closeWriter _ _) _
  have hends : ∀ r : Screego.Room, Told env ch ch' turn σ
      (heard u (d.close c :: endShares (RoomSession.other c) (r.ending ch c)))
      (heard u (d.close c :: endShares (RoomSession.other c) (r.ending ch' c))) := by
    intro r
    have happ := hclose.append (told_endShares (RoomSession.other c) (perm_ending ch ch' r c) hσ u)
    rwa [← heard_append, ← heard_append] at happ
  cases hd with
  | idle hc =>
    cases hd' with
    | idle => exact hclose
    | stays hin | closes hin => exact absurd hin (hidle hc)
  | @stays R r a hin ha hcl =>
    have hkeyed := (h.room R r hin.room).keyed.without c
    cases hd' with
    | idle hc => exact absurd hin (hidle hc)
    | stays hin' =>
      obtain ⟨rfl, rfl⟩ := hin.unique hin'
      rw [heard_append, heard_append]
      exact (hends r).append (told_notifyInfoChanged hkeyed u)
    | closes hin' ha' hcl' =>
      obtain ⟨rfl, rfl⟩ := hin.unique hin'
      obtain rfl := Option.some.inj (ha.symm.trans ha')
      exact absurd ((closesWith_iff ch ch' r c a).mpr hcl') hcl
  | @closes R r a hin ha hcl =>
    have hkeyed := (h.room R r hin.room).keyed
    cases hd' with
    | idle hc => exact absurd hin (hidle hc)
    | stays hin' ha' hcl' =>
      obtain ⟨rfl, rfl⟩ := hin.unique hin'
      obtain rfl := Option.some.inj (ha.symm.trans ha')
      exact absurd ((closesWith_iff ch ch' r c a).mp hcl) hcl'
    | closes hin' =>
      obtain ⟨rfl, rfl⟩ := hin.unique hin'
      rw [heard_append, heard_append]
      exact (hends r).append (told_ownerLeft hkeyed c u)

/-- **A departure.** -/
theorem Departs.alike (h : Inv env s) {d : Disconnected} (hd : Departs env ch s c d t sent)
    (hd' : Departs env ch' s c d t' sent') : Alike env ch ch' s (t, sent) (t', sent') := by
  have htold : ∀ u, Told env ch ch' s.turnServer (Renaming.refl env s.drawn t.drawn) (heard u sent)
      (heard u sent') := fun u => hd.told (fun _ => rfl) h hd' u
  obtain rfl := hd.state_eq hd'
  have ht := h.departs hd
  have hdrawn : t.drawn = s.drawn := by cases hd <;> rfl
  have hfits := ht.fits
  have hold := ht.old
  rw [hdrawn] at hfits hold
  exact alike_of_told hfits hold htold

variable (ch ch') in
/-- The client whose event has failed is removed. -/
theorem alike_executeNoError (h : Inv env s) (hw : info.write = ⟨info.id⟩)
    (hc : info.id ∈ s.connected) (d : Disconnected) : Alike env ch ch' s
      (d.executeNoError env ch s info) (d.executeNoError env ch' s info) :=
  (executeNoError_departs ch d h hw hc).alike h (executeNoError_departs ch' d h hw hc)

/-- **New sessions in a room.** -/
theorem alike_opened (h : Inv env s) (ht : t.rooms = s.rooms) (hturn : t.turnServer = s.turnServer)
    (hdrawn : t.drawn = s.drawn) (hr : r.Old env s.drawn) {ps ps' : List RoomSession}
    (hps : ps.Perm ps') (htold : ∀ (m : ℕ) (σ : Renaming env s.drawn m),
      Reordered σ (newEntries env s.drawn ps) (newEntries env s.drawn ps') → ∀ u,
        Told env ch ch' s.turnServer σ (heard u sent) (heard u sent')) :
    Alike env ch ch' s (t.opened env ch R r (newEntries env s.drawn ps), sent)
      (t.opened env ch' R r (newEntries env s.drawn ps'), sent') := by
  have hm : s.drawn + ps.length ≤ (t.opened env ch R r (newEntries env s.drawn ps)).drawn := by
    rw [Rooms.opened, hdrawn, length_newEntries]
  obtain ⟨σ, hσ⟩ := exists_reordered env hps hm
  exact ⟨σ, hσ.opened (hturn ▸ h.fits) (ht ▸ h.old) hr R, htold _ σ hσ⟩

theorem perm_joinPairs (ch ch' : Choice) (c : XID) (users : GoMap XID Screego.User) :
    (joinPairs ch c users).Perm (joinPairs ch' c users) := ((perm_range _ _ _).filter _).map _

theorem perm_sharePairs (ch ch' : Choice) (c : XID) (users : GoMap XID Screego.User) :
    (sharePairs ch c users).Perm (sharePairs ch' c users) := ((perm_range _ _ _).filter _).map _

/-- The two handlings of one event succeed, with results that are alike. -/
def HandledAlike (env : Env) (ch ch' : Choice) (s : Rooms) (info : ClientInfo) (e : Event) : Prop :=
  ∃ out out', s.handle env ch ⟨info, false, e⟩ = some out ∧
    s.handle env ch' ⟨info, false, e⟩ = some out' ∧ Alike env ch ch' s out out'

section Requests

variable (h : Inv env s) (hc : info.id ∈ s.connected)

include hc

/-- The event is executed in both. -/
theorem handledAlike_done (hex : e.execute env ch s info = some ⟨t, sent, none⟩)
    (hex' : e.execute env ch' s info = some ⟨t', sent', none⟩)
    (halike : Alike env ch ch' s (t, sent) (t', sent')) : HandledAlike env ch ch' s info e := by
  rw [HandledAlike, handle_eq hc, handle_eq hc, hex, hex']
  exact ⟨_, _, rfl, rfl, halike⟩

include h

theorem alike_create (hw : info.write = ⟨info.id⟩) {q : Create}
    (hidle : s.connected.lookup info.id = some "") (hR : normalizeRoomID q.id = .ok R)
    (hr : R ∉ s.rooms) (ha : q.authError env info = none) :
    HandledAlike env ch ch' s info (.create q) := by
  have hold : (createRoom env info R q).Old env s.drawn := fun sid hsid =>
    absurd hsid Finmap.notMem_empty
  exact handledAlike_done hc (execute_create ch hidle hR hr ha) (execute_create ch' hidle hR hr ha)
    (alike_opened (t := (s.seat info.id R).founded) h rfl rfl rfl hold (.refl [])
      fun m σ _ u => told_notifyInfoChanged (createRoom_keyed hw R q) u)

/-- **A new user**, whom the handler may have to send away again. -/
theorem alike_join (hget : ch'.get = ch.get) (hv : r.Visitors) (hw : info.write = ⟨info.id⟩)
    (hidle : s.connected.lookup info.id = some "") (he : e.Joins R v)
    (hr : s.rooms.lookup R = some r) : HandledAlike env ch ch' s info e := by
  have hR := h.room R r hr
  have hkeyed : (r.put (joinUser env ch info r v)).Keyed := hR.keyed_put hw
  have huser := joinUser_eq ch' ch hv env info v
  have hex := execute_joins ch h hw hidle he hr
  have hex' := execute_joins ch' h hw hidle he hr
  rw [hget, huser] at hex'
  cases hres : ch.get with
  | error err =>
    rw [hres] at hex hex'
    have hbounce := executeNoError_bounce ch' h hw hidle (v := v) hr
      ⟨closeNormalClosure, err⟩
    rw [huser] at hbounce
    rw [HandledAlike, handle_eq hc, handle_eq hc, hex, hex']
    simp only [Option.map_some, executeNoError_bounce ch h hw hidle hr, hbounce]
    refine ⟨_, _, rfl, rfl, alike_of_told h.fits h.old fun u => ?_⟩
    have hclose : Told env ch ch' s.turnServer (Renaming.refl env s.drawn s.drawn)
        (heard u [Disconnected.close info.id ⟨closeNormalClosure, err⟩])
        (heard u [Disconnected.close info.id ⟨closeNormalClosure, err⟩]) :=
      told_write (.closeWriter _ _) _
    have happ := (told_notifyInfoChanged hkeyed u).append
      (hclose.append (told_notifyInfoChanged hR.keyed u))
    simp only [← heard_append] at happ
    exact happ
  | ok ips =>
    obtain ⟨v4, v6⟩ := ips
    rw [hres] at hex hex'
    refine handledAlike_done hc hex hex' (alike_opened (t := s.seat info.id R) h rfl rfl rfl
      (r := r.put (joinUser env ch info r v)) (h.old R r hr) (perm_joinPairs ch ch' info.id _)
        fun m σ hσ u => ?_)
    rw [heard_append, heard_append]
    exact (told_notifyInfoChanged hkeyed u).append (told_announcements v4 v6 r.mode u hσ.perm)

/-- **A user that starts to share**, or is removed. -/
theorem alike_share (hget : ch'.get = ch.get) (hw : info.write = ⟨info.id⟩)
    (hin : s.InRoom info.id R r) {a : Screego.User} (ha : r.users.lookup info.id = some a) :
    HandledAlike env ch ch' s info .startShare := by
  have hR := h.room R r hin.room
  obtain ⟨hid, hkeyed⟩ := hR.keyed_stream ha true
  cases hres : ch.get with
  | error err =>
    rw [HandledAlike, handle_eq hc, handle_eq hc, execute_share_error h hin ha hres,
      execute_share_error h hin ha (hget.trans hres)]
    simp only [Option.map_some, List.nil_append,
      executeNoError_put h hw hin { a with streaming := true } ha hid rfl rfl]
    exact ⟨_, _, rfl, rfl, alike_executeNoError ch ch' h hw hc _⟩
  | ok ips =>
    obtain ⟨v4, v6⟩ := ips
    refine handledAlike_done hc (execute_share h hin ha hres)
      (execute_share h hin ha (hget.trans hres)) (alike_opened (t := s) h rfl rfl rfl
        (r := r.put { a with streaming := true }) (h.old R r hin.room)
        (perm_sharePairs ch ch' info.id _) fun m σ hσ u => ?_)
    rw [heard_append, heard_append]
    exact (told_announcements v4 v6 r.mode u hσ.perm).append (told_notifyInfoChanged hkeyed u)

/-- **A user that stops to share.** -/
theorem alike_unshare (hw : info.write = ⟨info.id⟩) (hin : s.InRoom info.id R r) {a : Screego.User}
    (ha : r.users.lookup info.id = some a) : HandledAlike env ch ch' s info .stopShare := by
  have hkeyed := ((h.room R r hin.room).keyed_stream ha false).2
  have hperm : (r.hosted ch info.id).Perm (r.hosted ch' info.id) := (perm_range _ _ _).filter _
  have hperm' := hperm.map Prod.fst
  have hstate : s.closed env R (r.put { a with streaming := false })
        ((r.hosted ch' info.id).map Prod.fst) =
      s.closed env R (r.put { a with streaming := false }) ((r.hosted ch info.id).map Prod.fst) := by
    simp only [Rooms.closed, GoMap.eraseAll_congr _ fun _ => hperm'.mem_iff, hperm'.foldl_eq,
      hperm'.length_eq]
  have hex := execute_unshare ch' h hin ha
  simp only [hstate] at hex
  have ht := h.change hw (.unshare hin ha rfl : Change env ch s info .stopShare _ _)
  refine handledAlike_done hc (execute_unshare ch h hin ha) hex
    (alike_of_told ht.fits ht.old fun u => ?_)
  rw [heard_append, heard_append]
  exact (told_endShares _ hperm (fun _ => rfl) u).append (told_notifyInfoChanged hkeyed u)

end Requests

/-- **What two choices make of one event.** -/
theorem Asks.alike (h : Inv env s) (hv : ∀ R r, s.rooms.lookup R = some r → r.Visitors)
    (hw : info.write = ⟨info.id⟩) (hc : info.id ∈ s.connected) (hget : ch'.get = ch.get)
    (hask : Asks env s info e) : HandledAlike env ch ch' s info e := by
  cases hask with
  | refused err hex =>
    rw [HandledAlike, handle_eq hc, handle_eq hc, hex, hex]
    exact ⟨_, _, rfl, rfl, alike_executeNoError ch ch' h hw hc _⟩
  | leave d =>
    rw [HandledAlike, handle_disconnected hc, handle_disconnected hc]
    exact ⟨_, _, rfl, rfl, alike_executeNoError ch ch' h hw hc d⟩
  | name n hin =>
    exact handledAlike_done hc (execute_name hin n) (execute_name hin n)
      (alike_of_told h.fits h.old fun u => told_notifyInfoChanged (h.room _ _ hin.room).keyed u)
  | stale k m hin hx =>
    exact handledAlike_done hc (execute_stale hin k hx) (execute_stale hin k hx)
      (alike_of_told h.fits h.old fun u => told_nil)
  | relay k m hin hx hs =>
    refine handledAlike_done hc (execute_signal h hin hx hs) (execute_signal h hin hx hs)
      (alike_of_told h.fits h.old fun u => told_write ?_ _)
    cases k
    · exact .hostOffer m
    · exact .hostICE m
    · exact .clientAnswer m
    · exact .clientICE m
  | create hidle hR hr ha => exact alike_create h hc hw hidle hR hr ha
  | join hidle he hr => exact alike_join h hc hget (hv _ _ hr) hw hidle he hr
  | share hin ha => exact alike_share h hc hget hw hin ha
  | unshare hin ha => exact alike_unshare h hc hw hin ha

/-! ## Every run -/

/-- **Two steps of the main loop on one input are alike**: they succeed, the servers after them are
alike, and every client is told the same. -/
def StepsAlike (env : Env) (ch ch' : Choice) (w : World) (i : Input) : Prop :=
  ∃ w₁ w₂, w.step env (ch, i) = some w₁ ∧ w.step env (ch', i) = some w₂ ∧ w₂.clients = w₁.clients ∧
    ∃ σ : Renaming env w.rooms.drawn w₁.rooms.drawn,
      Rooms.Renamed env ch ch' w.rooms.drawn σ w₁.rooms w₂.rooms ∧
      ∀ u, ∃ new new', w₁.log u = w.log u ++ new ∧ w₂.log u = w.log u ++ new' ∧
        Told env ch ch' w.rooms.turnServer σ new new'

variable {w w₁ : World} {i : Input}

/-- An input that is handled in one way only. -/
theorem stepsAlike_of_eq (h : w.Ok env) (hs : w.step env (ch, i) = some w₁)
    (hs' : w.step env (ch', i) = w.step env (ch, i))
    (hturn : w₁.rooms.turnServer = w.rooms.turnServer) (hrooms : w₁.rooms.rooms = w.rooms.rooms)
    (hlog : ∀ u, w₁.log u = w.log u) : StepsAlike env ch ch' w i := by
  refine ⟨w₁, w₁, hs, hs'.trans hs, rfl, .refl env _ _,
    .refl _ (hturn ▸ h.inv.fits) (hrooms ▸ h.inv.old), fun u => ⟨[], [], ?_, ?_, told_nil⟩⟩
  · rw [hlog, List.append_nil]
  · rw [hlog, List.append_nil]

/-- A message of a client. -/
theorem stepsAlike_receive (h : w.Ok env) (hv : VisitorsOk w) (hget : ch'.get = ch.get)
    (hinfo : w.clients.lookup c = some info) (he : e.fromClient = true) :
    StepsAlike env ch ch' w (.receive c e he) := by
  obtain ⟨rfl, hw⟩ := h.info c info hinfo
  have halike : HandledAlike env ch ch' w.rooms info e := by
    by_cases hc : info.id ∈ w.rooms.connected
    · exact (asks h.inv hc he).alike h.inv hv hw hc hget
    · refine ⟨(w.rooms, []), (w.rooms, []), ?_, ?_, alike_of_told h.inv.fits h.inv.old
        fun u => told_nil⟩ <;>
      simp only [Rooms.handle, Finmap.lookup_eq_none.mpr hc, Option.isNone_none, Bool.not_false,
        Bool.and_true, if_true]
  obtain ⟨⟨t, sent⟩, ⟨t', sent'⟩, hs, hs', σ, hrooms, htold⟩ := halike
  refine ⟨w.after [.got info.id e] (t, sent), w.after [.got info.id e] (t', sent'), ?_, ?_, rfl, σ,
    hrooms, fun u => ⟨_, _, log_after w u info.id e t sent, log_after w u info.id e t' sent', htold u⟩⟩
  · simp only [World.step, hinfo, hs, Option.map_some]
  · simp only [World.step, hinfo, hs', Option.map_some]

/-- **The order of the loops makes no difference.** In every state of a run, whatever comes in: handled
with any two choices of the orders of all loops and of ties, it leaves the same server and hands every
client the same messages, up to a renaming of the session ids drawn while it is handled, the passwords
drawn for them, the order of the messages and that of entries of a member list that tie. -/
theorem order_makes_no_difference (env : Env) : (server env).Always fun w =>
    ∀ (i : Input) (ch ch' : Choice), ch'.get = ch.get → StepsAlike env ch ch' w i := by
  refine (server_visitorsOk env).mono fun w ⟨h, hv⟩ i ch ch' hget => ?_
  obtain ⟨w₁, hs, hch⟩ := h.step_change ch i
  cases hch with
  | upgrade addr user authenticated => exact stepsAlike_of_eq h hs rfl rfl rfl fun _ => rfl
  | @stranger c e he hc =>
    have hnone := Finmap.lookup_eq_none.mpr hc
    exact stepsAlike_of_eq h hs (by simp only [World.step, hnone]) rfl rfl fun _ => rfl
  | @message c info e he t sent hc => exact stepsAlike_receive h hv hget hc he
  | count => exact stepsAlike_of_eq h hs rfl rfl rfl fun u => log_count w u w.rooms _

end Screego
