import Screego.GuestNames
import Screego.Leaving
import Screego.Lib.Simulation
import Screego.Service
import Screego.Views

/-!
# The server is a room service

The main loop against the service of `Service`: sessions, ids, orders of loops and random numbers drop
out, and what a client asks for is read off its event.

* `Room.Implements`, `Rooms.Implements`: a room, and the rooms, against those of the service;
* `Event.request`: the request of an event;
* `Implements.founded`, `Implements.enter`, `Implements.stream`, `Implements.leave`: the operations;
* `Rooms.Implements.fulfils`: a message;
* **`server_is_room_service`**: every run.
-/

set_option autoImplicit false

namespace Screego

open Lib Outgoing

variable {env : Env} {ch : Choice} {s t : Rooms} {info : ClientInfo} {e : Event} {sent : List Send}
  {c : XID} {R v : String} {r r' : Screego.Room} {u : Screego.User}
  {a : Service.Room XID String} {b : Service XID String String}

/-! ## Rooms -/

/-- **The room implements the room `a` of the service.** -/
structure Room.Implements (r : Screego.Room) (a : Service.Room XID String) : Prop where
  mode : a.mode = r.mode
  closesWithOwner : a.closesWithOwner = r.closeOnOwnerLeave
  members : ∀ c, a.members c = (r.users.lookup c).map fun u => ⟨u.visitorID, u.streaming⟩
  owner : ∀ c u, r.users.lookup c = some u → (u.owner = true ↔ a.owner = some u.visitorID)
  owner_present : ∀ v, a.owner = some v → a.Present v
  number : ∀ c u, r.users.lookup c = some u →
    ∃ k, a.number u.visitorID = some k ∧ u.name = guestName k
  number_present : ∀ v k, a.number v = some k → a.Present v

namespace Room.Implements

theorem congr (h : r.Implements a) (hlike : r'.Like r) (husers : r'.users = r.users) :
    r'.Implements a where
  mode := h.mode.trans hlike.mode.symm
  closesWithOwner := h.closesWithOwner.trans hlike.closeOnOwnerLeave.symm
  members := husers ▸ h.members
  owner := husers ▸ h.owner
  owner_present := h.owner_present
  number := husers ▸ h.number
  number_present := h.number_present

variable (h : r.Implements a)

include h

theorem present_iff : a.Present v ↔ ∃ c u, r.users.lookup c = some u ∧ u.visitorID = v := by
  constructor
  · rintro ⟨c, m, hm, rfl⟩
    rw [h.members] at hm
    obtain ⟨u, hu, rfl⟩ := Option.map_eq_some_iff.mp hm
    exact ⟨c, u, hu, rfl⟩
  · rintro ⟨c, u, hu, rfl⟩
    exact ⟨c, _, by rw [h.members, hu, Option.map_some], rfl⟩

theorem members_eq_none : a.members c = none ↔ c ∉ r.users := by
  rw [h.members, Option.map_eq_none_iff, Finmap.lookup_eq_none]

/-- The numbers in use are those of the names in use. -/
theorem number_iff {k : ℕ} : (∃ v, a.number v = some k) ↔
    ∃ c u, r.users.lookup c = some u ∧ u.name = guestName k := by
  constructor
  · rintro ⟨v, hv⟩
    obtain ⟨c, u, hu, rfl⟩ := h.present_iff.mp (h.number_present v k hv)
    obtain ⟨j, hj, hname⟩ := h.number c u hu
    obtain rfl : k = j := Option.some.inj (hv.symm.trans hj)
    exact ⟨c, u, hu, hname⟩
  · rintro ⟨c, u, hu, hname⟩
    obtain ⟨j, hj, hname'⟩ := h.number c u hu
    obtain rfl : j = k := guestName_injective (hname'.symm.trans hname)
    exact ⟨u.visitorID, hj⟩

end Room.Implements

/-! ## The operations -/

/-- A new room. -/
theorem implements_founded (env : Env) (info : ClientInfo) (R : String) (q : Create) :
    (createRoom env info R q).Implements (.founded info.id
      (normalizeVisitorID env q.visitorID info.id) q.mode q.closeOnOwnerLeave) := by
  have hlook : ∀ c, (createRoom env info R q).users.lookup c =
      if c = info.id then some (createUser env info q) else none := by
    intro c
    rw [createRoom, GoMap.lookup_insert_ite, Finmap.lookup_empty]
  have hpresent : ∀ v, (Service.Room.founded info.id (normalizeVisitorID env q.visitorID info.id)
      q.mode q.closeOnOwnerLeave).Present v ↔ v = normalizeVisitorID env q.visitorID info.id := by
    intro v
    simp only [Service.Room.Present, Service.Room.founded, Function.update_apply]
    constructor
    · rintro ⟨c, m, hm, rfl⟩
      split_ifs at hm
      cases hm
      rfl
    · rintro rfl
      exact ⟨info.id, _, if_pos rfl, rfl⟩
  refine ⟨rfl, rfl, fun c => ?_, fun c u hu => ?_, fun v hv => ?_, fun c u hu => ?_, fun v k hk => ?_⟩
  · rw [hlook, Service.Room.founded]
    simp only [Function.update_apply]
    split_ifs <;> rfl
  · obtain ⟨-, rfl⟩ := lookup_createRoom hu
    exact iff_of_true rfl rfl
  · exact (hpresent v).mpr (Option.some.inj hv).symm
  · obtain ⟨-, rfl⟩ := lookup_createRoom hu
    refine ⟨1, ?_, rfl⟩
    simp only [Service.Room.founded, createUser, Function.update_self]
  · rw [hpresent]
    simp only [Service.Room.founded, Function.update_apply] at hk
    split_ifs at hk with hv
    exact hv

/-- The least free number is the one `nextGuestName` finds. -/
theorem Room.Implements.freeNumber (h : r.Implements a)
    (hnone : ∀ c u, r.users.lookup c = some u → u.visitorID ≠ v) :
    r.nextGuestName ch v = guestName a.freeNumber := by
  have hrun : GuestRun (r.usedNames ch) 1 (r.nextGuestName ch v) := by
    rw [Room.nextGuestName_new ch hnone]
    exact guestLoop_run _ _ _ (exists_free_name _ 1)
  obtain ⟨k, hk, hname, hfree, hleast⟩ := guestRun_iff.mp hrun
  have hset : ∀ j, (∀ v, a.number v ≠ some j) ↔ guestName j ∉ r.usedNames ch := by
    intro j
    rw [Room.mem_usedNames, ← h.number_iff, not_exists]
  have heq : a.freeNumber = k := by
    refine le_antisymm (Nat.sInf_le ⟨hk, (hset k).mpr hfree⟩) (not_lt.mp fun hlt => ?_)
    obtain ⟨hj, hfree'⟩ := Nat.sInf_mem (⟨k, hk, (hset k).mpr hfree⟩ :
      {k | 1 ≤ k ∧ ∀ v, a.number v ≠ some k}.Nonempty)
    exact (hset _).mp hfree' (hleast _ hj hlt)
  rw [hname, heq]

/-- **A user enters**: it owns the room with the other users of its visitor and goes by their name, or by
the least free number. -/
theorem Room.Implements.enter (h : r.Implements a) (hc : u.id ∉ r.users) (hstr : u.streaming = false)
    (howner : u.owner = true ↔
      ∃ c u', r.users.lookup c = some u' ∧ u'.visitorID = u.visitorID ∧ u'.owner = true)
    (hname : (∃ c u', r.users.lookup c = some u' ∧ u'.visitorID = u.visitorID ∧ u.name = u'.name) ∨
      ¬ a.Present u.visitorID ∧ u.name = guestName a.freeNumber) :
    (r.put u).Implements (a.enter u.id u.visitorID) := by
  have hlook : ∀ c u', (r.put u).users.lookup c = some u' →
      c = u.id ∧ u' = u ∨ c ≠ u.id ∧ r.users.lookup c = some u' := by
    intro c u' hu'
    rw [lookup_put] at hu'
    split_ifs at hu' with hcu
    · exact Or.inl ⟨hcu, (Option.some.inj hu').symm⟩
    · exact Or.inr ⟨hcu, hu'⟩
  have hmembers : ∀ c, (a.enter u.id u.visitorID).members c =
      if c = u.id then some ⟨u.visitorID, false⟩ else a.members c := by
    intro c
    simp only [Service.Room.enter, Function.update_apply]
  have hpresent : ∀ {v}, v = u.visitorID ∨ a.Present v → (a.enter u.id u.visitorID).Present v := by
    rintro v (rfl | ⟨c, m, hm, rfl⟩)
    · exact ⟨u.id, _, by rw [hmembers, if_pos rfl], rfl⟩
    · refine ⟨c, m, ?_, rfl⟩
      rw [hmembers, if_neg, hm]
      rintro rfl
      rw [h.members_eq_none.mpr hc] at hm
      cases hm
  refine ⟨h.mode, h.closesWithOwner, fun c => ?_, fun c u' hu' => ?_, fun v hv => ?_,
    fun c u' hu' => ?_, fun v k hk => ?_⟩
  · rw [hmembers, lookup_put, h.members]
    split_ifs
    · rw [Option.map_some, hstr]
    · rfl
  · rcases hlook c u' hu' with ⟨-, rfl⟩ | ⟨-, hu'⟩
    · rw [howner]
      constructor
      · rintro ⟨c', u', hu', hv', ho'⟩
        exact hv' ▸ (h.owner c' u' hu').mp ho'
      · intro ho
        obtain ⟨c', u', hu', hv'⟩ := h.present_iff.mp (h.owner_present _ ho)
        exact ⟨c', u', hu', hv', (h.owner c' u' hu').mpr (hv' ▸ ho)⟩
    · exact h.owner c u' hu'
  · exact hpresent (Or.inr (h.owner_present v hv))
  · simp only [Service.Room.enter]
    rcases hlook c u' hu' with ⟨-, rfl⟩ | ⟨-, hu'⟩
    · rcases hname with ⟨c', u₀, hu₀, hv₀, hname⟩ | ⟨hno, hname⟩
      · rw [if_pos (h.present_iff.mpr ⟨c', u₀, hu₀, hv₀⟩), hname, ← hv₀]
        exact h.number c' u₀ hu₀
      · rw [if_neg hno, Function.update_self]
        exact ⟨_, rfl, hname⟩
    · obtain ⟨k, hk, hname'⟩ := h.number c u' hu'
      refine ⟨k, ?_, hname'⟩
      split_ifs with hp
      · exact hk
      · rw [Function.update_of_ne, hk]
        rintro hv
        exact hp (h.present_iff.mpr ⟨c, u', hu', hv⟩)
  · simp only [Service.Room.enter] at hk
    split_ifs at hk with hp
    · exact hpresent (Or.inr (h.number_present v k hk))
    · rw [Function.update_apply] at hk
      split_ifs at hk with hv
      · exact hpresent (Or.inl hv)
      · exact hpresent (Or.inr (h.number_present v k hk))

/-- **A client joins.** -/
theorem Room.Implements.join (h : r.Implements a) (hr : r.Visitors) (hc : info.id ∉ r.users)
    (env : Env) (ch : Choice) (v : String) : (r.put (joinUser env ch info r v)).Implements
      (a.enter info.id (normalizeVisitorID env v info.id)) := by
  have hne := (joinUser_visitorID_trimmed env ch info r v).2
  refine h.enter (u := joinUser env ch info r v) hc rfl ?_ ?_
  · rw [joinUser_owner, Room.visitorOwner_iff]
    exact and_iff_right hne
  · by_cases hp : a.Present (joinUser env ch info r v).visitorID
    · rcases Room.nextGuestName_cases ch hne fun c u hu => hr.name_ne hu with
        ⟨c, u, hu, hv, hname⟩ | ⟨hnone, -⟩
      · exact Or.inl ⟨c, u, hu, hv, hname⟩
      · obtain ⟨c, u, hu, hv⟩ := h.present_iff.mp hp
        exact absurd hv (hnone c u hu).1
    · refine Or.inr ⟨hp, h.freeNumber fun c u hu hv => hp ?_⟩
      exact h.present_iff.mpr ⟨c, u, hu, hv⟩

/-- **A user begins or ends to share.** -/
theorem Room.Implements.stream (h : r.Implements a) (hid : u.id = c) (hu : r.users.lookup c = some u)
    (b : Bool) : (r.put { u with streaming := b }).Implements (a.stream c b) := by
  have hmembers : ∀ c', (a.stream c b).members c' =
      ((r.put { u with streaming := b }).users.lookup c').map fun u => ⟨u.visitorID, u.streaming⟩ := by
    intro c'
    rw [lookup_put, Service.Room.stream]
    simp only [Function.update_apply, h.members, hid, hu, Option.map_some]
    split_ifs <;> rfl
  have hpresent : ∀ {v}, a.Present v → (a.stream c b).Present v := by
    intro v hv
    obtain ⟨c', u', hu', rfl⟩ := h.present_iff.mp hv
    by_cases hc : c' = c
    · subst hc
      obtain rfl : u = u' := Option.some.inj (hu.symm.trans hu')
      exact ⟨c', ⟨u.visitorID, b⟩, by rw [hmembers, lookup_put, if_pos hid.symm, Option.map_some], rfl⟩
    · exact ⟨c', _, by rw [hmembers, lookup_put, if_neg (hid ▸ hc), hu', Option.map_some], rfl⟩
  refine ⟨h.mode, h.closesWithOwner, hmembers, fun c' u' hu' => ?_,
    fun v hv => hpresent (h.owner_present v hv), fun c' u' hu' => ?_,
    fun v k hk => hpresent (h.number_present v k hk)⟩
  · obtain ⟨u₀, hu₀, hlike⟩ := lookup_flagged hid hu hu'
    rw [hlike.owner, hlike.visitorID]
    exact h.owner c' u₀ hu₀
  · obtain ⟨u₀, hu₀, hlike⟩ := lookup_flagged hid hu hu'
    rw [hlike.name, hlike.visitorID]
    exact h.number c' u₀ hu₀

/-! ## Leaving -/

/-- The room without a user. -/
theorem Room.Implements.without (h : r.Implements a) (c : XID) :
    (r.without c).Implements (a.without c) := by
  have hmembers : ∀ c', (a.without c).members c' =
      ((r.without c).users.lookup c').map fun u => ⟨u.visitorID, u.streaming⟩ := by
    intro c'
    rw [lookup_without, Service.Room.without]
    simp only [Function.update_apply, h.members]
    split_ifs <;> rfl
  have hback : ∀ {c' u'}, (r.without c).users.lookup c' = some u' → r.users.lookup c' = some u' := by
    intro c' u' hu'
    rw [lookup_without] at hu'
    split_ifs at hu'
    exact hu'
  have hpresent : ∀ {c' u'}, (r.without c).users.lookup c' = some u' →
      (a.without c).Present u'.visitorID := fun {c' u'} hu' =>
    ⟨c', _, by rw [hmembers, hu', Option.map_some], rfl⟩
  have hnumber : ∀ v, ((a.without c).Present v → (a.without c).number v = a.number v) ∧
      (¬ (a.without c).Present v → (a.without c).number v = none) :=
    fun v => ⟨fun hp => if_pos hp, fun hp => if_neg hp⟩
  have howner : ((∀ v, a.owner = some v → (a.without c).Present v) → (a.without c).owner = a.owner) ∧
      ((¬ ∀ v, a.owner = some v → (a.without c).Present v) → (a.without c).owner = none) :=
    ⟨fun hall => if_pos hall, fun hall => if_neg hall⟩
  refine ⟨h.mode, h.closesWithOwner, hmembers, fun c' u' hu' => ?_, fun v hv => ?_,
    fun c' u' hu' => ?_, fun v k hk => ?_⟩
  · rw [h.owner c' u' (hback hu')]
    by_cases hall : ∀ v, a.owner = some v → (a.without c).Present v
    · rw [howner.1 hall]
    · rw [howner.2 hall]
      refine iff_of_false (fun ho => hall fun v hv => ?_) (by simp)
      obtain rfl := Option.some.inj (ho.symm.trans hv)
      exact hpresent hu'
  · by_contra hp
    have hall : ¬ ∀ v, a.owner = some v → (a.without c).Present v := fun hall => by
      rw [howner.1 hall] at hv
      exact hp (hall v hv)
    rw [howner.2 hall] at hv
    cases hv
  · rw [(hnumber _).1 (hpresent hu')]
    exact h.number c' u' (hback hu')
  · by_contra hp
    rw [(hnumber v).2 hp] at hk
    cases hk

/-- **A user leaves.** -/
theorem Room.Implements.leave (h : r.Implements a) (hu : r.users.lookup c = some u) :
    (r.EndsWith c u → a.leave c = none) ∧ (¬ r.EndsWith c u → a.leave c = some (a.without c)) := by
  have hm : a.members c = some ⟨u.visitorID, u.streaming⟩ := by rw [h.members, hu, Option.map_some]
  have hw := h.without c
  have hpresent : ¬ (a.without c).Present u.visitorID ↔
      ∀ c' u', r.users.lookup c' = some u' → c' ≠ c → u'.visitorID ≠ u.visitorID := by
    rw [hw.present_iff]
    push Not
    refine forall_congr' fun c' => forall_congr' fun u' => ?_
    rw [lookup_without]
    split_ifs with hc <;> simp [hc]
  have hlast : (∀ c', (a.without c).members c' = none) ↔ ∀ c' ∈ r.users, c' = c := by
    refine forall_congr' fun c' => ?_
    rw [hw.members_eq_none, mem_without]
    tauto
  have hends : r.EndsWith c u ↔ a.closesWithOwner = true ∧ a.owner = some u.visitorID ∧
      ¬ (a.without c).Present u.visitorID ∨ ∀ c', (a.without c).members c' = none := by
    rw [h.closesWithOwner, ← h.owner c u hu, hpresent, hlast, Room.EndsWith]
    tauto
  rw [Service.Room.leave, hm]
  exact ⟨fun he => if_pos (hends.mp he), fun he => if_neg fun hc => he (hends.mpr hc)⟩

/-! ## The rooms -/

/-- **The rooms implement those of the service.** -/
structure Rooms.Implements (s : Rooms) (b : Service XID String String) : Prop where
  lobby : ∀ c, c ∈ b.lobby ↔ s.connected.lookup c = some ""
  absent : ∀ R, s.rooms.lookup R = none → b.rooms R = none
  room : ∀ R r, s.rooms.lookup R = some r → ∃ a, b.rooms R = some a ∧ r.Implements a

/-- The session that a client of the room means. -/
def Rooms.sessionOf (s : Rooms) (c sid : XID) : Option RoomSession :=
  match s.currentRoom c with
  | .ok (_, room) => room.sessions.lookup sid
  | .error _ => none

/-- **What an event asks for.** -/
def Event.request (env : Env) (s : Rooms) (info : ClientInfo) :
    Event → Service.Request XID String String
  | .create q =>
    match normalizeRoomID q.id with
    | .ok R => .create R (normalizeVisitorID env q.visitorID info.id) q.mode q.closeOnOwnerLeave
        q.joinIfExist (q.authError env info).isNone
    | .error _ => .leave
  | .join j =>
    match normalizeRoomID j.id with
    | .ok R => .join R (normalizeVisitorID env j.visitorID info.id)
    | .error _ => .leave
  | .startShare => .share
  | .stopShare => .unshare
  | .hostOffer m | .hostICE m => .signal ((s.sessionOf info.id m.sid).map RoomSession.host)
  | .clientAnswer m | .clientICE m => .signal ((s.sessionOf info.id m.sid).map RoomSession.client)
  | .name _ | .connected | .health => .look
  | .disconnected _ => .leave

theorem Signal.request_event (k : Signal) (m : P2PMessage) :
    (k.event m).request env s info = .signal ((s.sessionOf info.id m.sid).map k.sender) := by
  cases k <;> rfl

namespace Rooms.Implements

variable (hb : s.Implements b)

include hb

theorem seated_iff (h : Inv env s) : b.Seated c ↔ ∃ R r, s.InRoom c R r := by
  constructor
  · rintro ⟨R, a, ha, hm⟩
    cases hr : s.rooms.lookup R with
    | none =>
      rw [hb.absent R hr] at ha
      cases ha
    | some r =>
      obtain ⟨a', ha', himp⟩ := hb.room R r hr
      obtain rfl : a = a' := Option.some.inj (ha.symm.trans ha')
      refine ⟨R, r, h.inRoom hr ?_⟩
      by_contra hno
      exact hm (himp.members_eq_none.mpr hno)
  · rintro ⟨R, r, hin⟩
    obtain ⟨a, ha, himp⟩ := hb.room R r hin.room
    exact ⟨R, a, ha, fun hno => himp.members_eq_none.mp hno (h.mem_users hin)⟩

theorem not_seated (h : Inv env s) (hc : s.connected.lookup c = some "") : ¬ b.Seated c := by
  rw [hb.seated_iff h]
  rintro ⟨R, r, hin⟩
  exact hin.ne (Option.some.inj (hin.at_.symm.trans hc))

theorem notMem_lobby (hin : s.InRoom c R r) : c ∉ b.lobby := by
  rw [hb.lobby, hin.at_]
  exact fun he => hin.ne (Option.some.inj he)

/-- Who is in no room leaves none. -/
theorem bind_leave (hno : ∀ r, s.rooms.lookup R = some r → c ∉ r.users) :
    (b.rooms R).bind (fun a => a.leave c) = b.rooms R := by
  cases hr : s.rooms.lookup R with
  | none => rw [hb.absent R hr, Option.bind_none]
  | some r =>
    obtain ⟨a, ha, himp⟩ := hb.room R r hr
    rw [ha, Option.bind_some, Service.Room.leave, himp.members_eq_none.mpr (hno r hr)]

/-- The rooms go on without `c`, which was in none of them. -/
theorem leave_other (hno : ∀ r, s.rooms.lookup R = some r → c ∉ r.users) :
    (s.rooms.lookup R = none → (b.leave c).rooms R = none) ∧
      ∀ r, s.rooms.lookup R = some r → ∃ a, (b.leave c).rooms R = some a ∧ r.Implements a := by
  have heq : (b.leave c).rooms R = b.rooms R := hb.bind_leave hno
  rw [heq]
  exact ⟨hb.absent R, hb.room R⟩

/-- **A client leaves.** -/
theorem leave (h : Inv env s) {d : Disconnected} (hd : Departs env ch s c d t sent) :
    t.Implements (b.leave c) := by
  have hlobby : ∀ c', c' ∈ (b.leave c).lobby ↔ s.connected.lookup c' = some "" ∧ c' ≠ c := by
    intro c'
    rw [← hb.lobby]
    exact Iff.rfl
  have hother : ∀ {R₀ r₀ R}, s.InRoom c R₀ r₀ → R ≠ R₀ →
      ∀ r, s.rooms.lookup R = some r → c ∉ r.users := fun hin hne r hr hmem =>
    hne (h.room_unique hr hmem hin.room (h.mem_users hin))
  cases hd with
  | idle hc =>
    have hno : ∀ R r, s.rooms.lookup R = some r → c ∉ r.users := fun R r hr => h.notMem_of_idle hc hr
    refine ⟨fun c' => ?_, fun R => (hb.leave_other (hno R)).1, fun R => (hb.leave_other (hno R)).2⟩
    rw [hlobby, Rooms.drop, GoMap.lookup_erase_ite]
    split_ifs with hcc <;> simp [hcc]
  | @stays R₀ r u hin hu hcl =>
    obtain ⟨a, ha, himp⟩ := hb.room R₀ r hin.room
    have hleave : (b.leave c).rooms R₀ = some (a.without c) := by
      rw [Service.rooms_leave, ha, Option.bind_some]
      exact (himp.leave hu).2 fun he => hcl (((h.room R₀ r hin.room).closesWith_iff ch hu).mpr he)
    have hrooms : ∀ R, (s.left env ch c R₀ r).rooms.lookup R = if R = R₀ then
        some { r.without c with
          sessions := GoMap.eraseAll r.sessions ((r.ending ch c).map Prod.fst) }
        else s.rooms.lookup R := fun R => GoMap.lookup_insert_ite _ _ _ _
    refine ⟨fun c' => ?_, fun R hR => ?_, fun R r' hr' => ?_⟩
    · rw [hlobby]
      simp only [Rooms.left, Rooms.closed, Rooms.unseat, Rooms.drop, GoMap.lookup_erase_ite]
      split_ifs with hcc <;> simp [hcc]
    · rw [hrooms] at hR
      split_ifs at hR with hne
      exact (hb.leave_other (hother hin hne)).1 hR
    · rw [hrooms] at hr'
      split_ifs at hr' with hne
      · obtain rfl := Option.some.inj hr'
        exact ⟨_, hne ▸ hleave, (himp.without c).congr ⟨rfl, rfl, rfl⟩ rfl⟩
      · exact (hb.leave_other (hother hin hne)).2 r' hr'
  | @closes R₀ r u hin hu hcl =>
    obtain ⟨a, ha, himp⟩ := hb.room R₀ r hin.room
    have hleave : (b.leave c).rooms R₀ = none := by
      rw [Service.rooms_leave, ha, Option.bind_some]
      exact (himp.leave hu).1 (((h.room R₀ r hin.room).closesWith_iff ch hu).mp hcl)
    have hrooms : ∀ R, (s.finished env ch c R₀ r).rooms.lookup R =
        if R = R₀ then none else s.rooms.lookup R := fun R => GoMap.lookup_erase_ite _ _ _
    refine ⟨fun c' => ?_, fun R hR => ?_, fun R r' hr' => ?_⟩
    · rw [hlobby, h.lookup_finished hin]
      split_ifs with hmem
      · refine iff_of_false (fun hc' => ?_) (by simp)
        exact h.notMem_of_idle hc'.1 hin.room hmem
      · refine and_iff_left ?_
        rintro rfl
        exact hmem (h.mem_users hin)
    · rw [hrooms] at hR
      split_ifs at hR with hne
      · exact hne ▸ hleave
      · exact (hb.leave_other (hother hin hne)).1 hR
    · rw [hrooms] at hr'
      split_ifs at hr' with hne
      exact (hb.leave_other (hother hin hne)).2 r' hr'

/-- The room of a member changes. -/
theorem change (h : Inv env s) (hin : s.InRoom c R r) {f : Service.Room XID String → Service.Room XID String}
    (hconn : t.connected = s.connected) (hrooms : t.rooms = s.rooms.insert R r')
    (hr' : ∀ a, r.Implements a → r'.Implements (f a)) : t.Implements (b.change c f) := by
  have hlook : ∀ R', t.rooms.lookup R' = if R' = R then some r' else s.rooms.lookup R' := fun R' => by
    rw [hrooms, GoMap.lookup_insert_ite]
  have hno : ∀ R₀ q, R₀ ≠ R → s.rooms.lookup R₀ = some q → c ∉ q.users := fun R₀ q hne hq hmem =>
    hne (h.room_unique hq hmem hin.room (h.mem_users hin))
  refine ⟨fun c' => by rw [hconn]; exact hb.lobby c', fun R₀ hR₀ => ?_, fun R₀ q hq => ?_⟩
  · rw [hlook] at hR₀
    split_ifs at hR₀
    rw [Service.rooms_change, hb.absent R₀ hR₀, Option.map_none]
  · rw [hlook] at hq
    split_ifs at hq with hne
    · obtain rfl := Option.some.inj hq
      obtain ⟨a, ha, himp⟩ := hb.room R r hin.room
      refine ⟨f a, ?_, hr' a himp⟩
      rw [Service.rooms_change, hne, ha, Option.map_some, if_neg]
      exact fun hm => himp.members_eq_none.mp hm (h.mem_users hin)
    · obtain ⟨a, ha, himp⟩ := hb.room R₀ q hq
      refine ⟨a, ?_, himp⟩
      rw [Service.rooms_change, ha, Option.map_some, if_pos]
      exact himp.members_eq_none.mpr (hno R₀ q hne hq)

/-- A client goes from the lobby to a room. -/
theorem seat (hR : R ≠ "") (hconn : t.connected = s.connected.insert c R)
    (hrooms : t.rooms = s.rooms.insert R r') (hr' : r'.Implements a) : t.Implements (b.seat c R a) := by
  refine ⟨fun c' => ?_, fun R₀ hR₀ => ?_, fun R₀ q hq => ?_⟩
  · rw [hconn, GoMap.lookup_insert_ite]
    simp only [Service.seat, Set.mem_sdiff, Set.mem_singleton_iff, hb.lobby]
    split_ifs with hcc <;> simp [hcc, hR]
  · rw [hrooms, GoMap.lookup_insert_ite] at hR₀
    split_ifs at hR₀ with hne
    rw [Service.rooms_seat, if_neg hne]
    exact hb.absent R₀ hR₀
  · rw [hrooms, GoMap.lookup_insert_ite] at hq
    rw [Service.rooms_seat]
    split_ifs at hq ⊢
    · obtain rfl := Option.some.inj hq
      exact ⟨a, rfl, hr'⟩
    · exact hb.room R₀ q hq

end Rooms.Implements

/-! ## Messages -/

/-- **The main loop fulfils the event** as the service does its request. -/
def Fulfils (env : Env) (ch : Choice) (s : Rooms) (info : ClientInfo) (e : Event)
    (b : Service XID String String) : Prop :=
  ∃ t sent, s.handle env ch ⟨info, false, e⟩ = some (t, sent) ∧
    t.Implements (b.request info.id ch.get.isOk (e.request env s info))

namespace Rooms.Implements

variable (hb : s.Implements b) (h : Inv env s) (hw : info.write = ⟨info.id⟩)

include hb h hw

/-- A request in vain. -/
theorem fulfils_fail (hc : info.id ∈ s.connected) (err : String)
    (hex : e.execute env ch s info = some (.fail s err))
    (hreq : b.request info.id ch.get.isOk (e.request env s info) = b.leave info.id) :
    Fulfils env ch s info e b := by
  rw [Fulfils, handle_eq hc, hex, hreq]
  exact ⟨_, _, rfl, hb.leave h (executeNoError_departs ch _ h hw hc)⟩

omit hb h hw in
/-- A request that is granted. -/
theorem fulfils_done (hc : info.id ∈ s.connected) {t : Rooms} {sent : List Send}
    (hex : e.execute env ch s info = some ⟨t, sent, none⟩)
    (ht : t.Implements (b.request info.id ch.get.isOk (e.request env s info))) :
    Fulfils env ch s info e b := by
  rw [Fulfils, handle_eq hc, hex]
  exact ⟨_, _, rfl, ht⟩

/-- A request to join a room that is there. -/
theorem fulfils_joins (hidle : s.connected.lookup info.id = some "") (he : e.Joins R v)
    (hr : s.rooms.lookup R = some r) (hv : r.Visitors) : Fulfils env ch s info e b := by
  have hc := Finmap.mem_of_lookup_eq_some hidle
  obtain ⟨a, ha, himp⟩ := hb.room R r hr
  have hreq : ∀ available, b.request info.id available (e.request env s info) =
      if available = true then b.seat info.id R (a.enter info.id (normalizeVisitorID env v info.id))
      else b.leave info.id := by
    intro available
    have hlobby := (hb.lobby info.id).mpr hidle
    cases e with
    | join j =>
      obtain ⟨hj, rfl⟩ := he
      simp only [Event.request, hj, Service.request, ha, hlobby, true_and]
    | create q =>
      obtain ⟨hjoin, hq, rfl⟩ := he
      simp only [Event.request, hq, Service.request, ha, hlobby, hjoin, true_and]
    | _ => exact he.elim
  have hex := execute_joins ch h hw hidle he hr
  cases hget : ch.get with
  | ok ips =>
    rw [hget] at hex
    refine fulfils_done hc hex ?_
    rw [hreq, hget, Except.isOk, Except.toBool, if_pos rfl]
    refine hb.seat (h.key_ne_empty hr) rfl rfl ?_
    exact (himp.join hv (h.notMem_of_idle hidle hr) env ch v).congr ⟨rfl, rfl, rfl⟩ rfl
  | error err =>
    rw [hget] at hex
    rw [Fulfils, handle_eq hc, hex, hreq, hget, Except.isOk, Except.toBool, if_neg Bool.false_ne_true]
    simp only [executeNoError_bounce ch h hw hidle hr, Option.map_some]
    refine ⟨_, _, rfl, ?_⟩
    have hdeparts : Departs env ch s info.id ⟨closeNormalClosure, err⟩ _ _ := .idle hidle
    have hleave := hb.leave h hdeparts
    refine ⟨fun c' => ?_, hleave.absent, hleave.room⟩
    rw [hleave.lobby, Rooms.unseat, Rooms.drop, Rooms.drop, Rooms.seat, GoMap.erase_insert_self]

/-- A request to join. -/
theorem fulfils_join (hc : info.id ∈ s.connected)
    (hv : ∀ R r, s.rooms.lookup R = some r → r.Visitors) (j : Join) :
    Fulfils env ch s info (.join j) b := by
  have hex : (Event.join j).execute env ch s info = j.execute env ch s info := rfl
  rcases h.idle_or_inRoom hc with hidle | ⟨R, r, hin⟩
  · cases hj : normalizeRoomID j.id with
    | error err =>
      refine hb.fulfils_fail h hw hc err ?_ (by simp only [Event.request, hj, Service.request])
      rw [hex]
      simp only [Join.execute, hidle, Option.getD_some, ne_eq, not_true_eq_false, if_false, hj]
    | ok R =>
      cases hr : s.rooms.lookup R with
      | none =>
        refine hb.fulfils_fail h hw hc _
          (execute_join_missing env ch hidle hj (Finmap.lookup_eq_none.mp hr)) ?_
        simp only [Event.request, hj, Service.request, hb.absent R hr]
      | some r => exact hb.fulfils_joins h hw hidle ⟨hj, rfl⟩ hr (hv R r hr)
  · refine hb.fulfils_fail h hw hc "cannot join room, you are already in one" ?_ ?_
    · rw [hex]
      simp only [Join.execute, hin.at_, Option.getD_some, ne_eq, hin.ne, not_false_eq_true, if_true]
    · cases hj : normalizeRoomID j.id with
      | error err => simp only [Event.request, hj, Service.request]
      | ok R =>
        simp only [Event.request, hj]
        exact Service.request_join_of_notMem (hb.notMem_lobby hin) _ _

/-- A request to create. -/
theorem fulfils_create (hc : info.id ∈ s.connected)
    (hv : ∀ R r, s.rooms.lookup R = some r → r.Visitors) (q : Create) :
    Fulfils env ch s info (.create q) b := by
  have hex : (Event.create q).execute env ch s info = q.execute env ch s info := rfl
  rcases h.idle_or_inRoom hc with hidle | ⟨R, r, hin⟩
  · have hlobby := (hb.lobby info.id).mpr hidle
    cases hq : normalizeRoomID q.id with
    | error err =>
      refine hb.fulfils_fail h hw hc err ?_ (by simp only [Event.request, hq, Service.request])
      rw [hex]
      simp only [Create.execute, hidle, Option.getD_some, ne_eq, not_true_eq_false, if_false, hq]
    | ok R =>
      cases hr : s.rooms.lookup R with
      | some r =>
        by_cases hjoin : q.joinIfExist = true
        · exact hb.fulfils_joins h hw hidle ⟨hjoin, hq, rfl⟩ hr (hv R r hr)
        · obtain ⟨a, ha, -⟩ := hb.room R r hr
          refine hb.fulfils_fail h hw hc _
            (execute_create_exists env ch hidle hq (Finmap.mem_of_lookup_eq_some hr) hjoin) ?_
          simp only [Event.request, hq, Service.request, ha, hjoin, Bool.false_eq_true, false_and,
            and_false, if_false]
      | none =>
        cases ha : q.authError env info with
        | some err =>
          refine hb.fulfils_fail h hw hc err ?_ ?_
          · rw [hex]
            simp only [Create.execute, hidle, Option.getD_some, ne_eq, not_true_eq_false, if_false, hq,
              hr, ha]
          · simp only [Event.request, hq, Service.request, hb.absent R hr, ha, Option.isNone_some,
              Bool.false_eq_true, and_false, if_false]
        | none =>
          refine fulfils_done hc
            (execute_create ch hidle hq (Finmap.lookup_eq_none.mp hr) ha) ?_
          simp only [Event.request, hq, Service.request, hb.absent R hr, ha, Option.isNone_none,
            hlobby, and_true, if_true]
          refine hb.seat ?_ rfl rfl (implements_founded env info R q)
          obtain ⟨-, hlen⟩ := normalizeRoomID_eq_ok.mp hq
          rintro rfl
          simp [minRoomIDLength] at hlen
  · refine hb.fulfils_fail h hw hc "cannot join room, you are already in one" ?_ ?_
    · rw [hex]
      simp only [Create.execute, hin.at_, Option.getD_some, ne_eq, hin.ne, not_false_eq_true, if_true]
    · cases hq : normalizeRoomID q.id with
      | error err => simp only [Event.request, hq, Service.request]
      | ok R =>
        simp only [Event.request, hq]
        exact Service.request_create_of_notMem (hb.notMem_lobby hin) _ _ _ _ _ _

/-- A signalling message. -/
theorem fulfils_signal (hc : info.id ∈ s.connected) (k : Signal) (m : P2PMessage) :
    Fulfils env ch s info (k.event m) b := by
  rcases h.idle_or_inRoom hc with hidle | ⟨R, r, hin⟩
  · refine hb.fulfils_fail h hw hc _ (execute_signal_idle hidle k m) ?_
    rw [k.request_event, Service.request, if_neg fun hs => hb.not_seated h hidle hs.1]
  have hseated : b.Seated info.id := (hb.seated_iff h).mpr ⟨R, r, hin⟩
  have hsession : s.sessionOf info.id m.sid = r.sessions.lookup m.sid := by
    simp only [Rooms.sessionOf, hin.currentRoom_eq]
  cases hx : r.sessions.lookup m.sid with
  | none =>
    refine fulfils_done hc (execute_stale hin k (Finmap.lookup_eq_none.mp hx)) ?_
    rw [k.request_event, hsession, hx, Service.request, if_pos ⟨hseated, by simp⟩]
    exact hb
  | some x =>
    by_cases hs : k.sender x = info.id
    · refine fulfils_done hc (execute_signal h hin hx hs) ?_
      rw [k.request_event, hsession, hx, Service.request, if_pos ⟨hseated, by simpa using hs⟩]
      exact hb
    · refine hb.fulfils_fail h hw hc _ (execute_forbidden hin hx hs) ?_
      rw [k.request_event, hsession, hx, Service.request,
        if_neg fun hall => hs (by simpa using hall.2)]

/-- A request to share. -/
theorem fulfils_share (hc : info.id ∈ s.connected) : Fulfils env ch s info .startShare b := by
  rcases h.idle_or_inRoom hc with hidle | ⟨R, r, hin⟩
  · refine hb.fulfils_fail h hw hc "not in a room" ?_ ?_
    · simp only [Event.execute, executeStartShare, currentRoom_of_idle hidle]
    · rw [Event.request, Service.request, if_neg fun hs => hb.not_seated h hidle hs.1]
  have hseated : b.Seated info.id := (hb.seated_iff h).mpr ⟨R, r, hin⟩
  obtain ⟨u, hu⟩ := Finmap.mem_iff.mp (h.mem_users hin)
  obtain ⟨hid, -, -⟩ := (h.room R r hin.room).user _ _ hu
  cases hget : ch.get with
  | ok ips =>
    obtain ⟨v4, v6⟩ := ips
    refine fulfils_done hc (execute_share h hin hu hget) ?_
    rw [hget, Event.request, Service.request, if_pos ⟨hseated, rfl⟩]
    exact hb.change h hin rfl rfl fun a himp => (himp.stream hid hu true).congr ⟨rfl, rfl, rfl⟩ rfl
  | error err =>
    rw [Fulfils, handle_eq hc, execute_share_error h hin hu hget, hget, Event.request,
      Service.request, if_neg fun hs => absurd hs.2 Bool.false_ne_true]
    simp only [executeNoError_put h hw hin { u with streaming := true } hu hid rfl rfl,
      Option.map_some]
    exact ⟨_, _, rfl, hb.leave h (executeNoError_departs ch _ h hw hc)⟩

/-- A request to stop sharing. -/
theorem fulfils_unshare (hc : info.id ∈ s.connected) : Fulfils env ch s info .stopShare b := by
  rcases h.idle_or_inRoom hc with hidle | ⟨R, r, hin⟩
  · refine hb.fulfils_fail h hw hc "not in a room" ?_ ?_
    · simp only [Event.execute, executeStopShare, currentRoom_of_idle hidle]
    · rw [Event.request, Service.request, if_neg (hb.not_seated h hidle)]
  have hseated : b.Seated info.id := (hb.seated_iff h).mpr ⟨R, r, hin⟩
  obtain ⟨u, hu⟩ := Finmap.mem_iff.mp (h.mem_users hin)
  obtain ⟨hid, -, -⟩ := (h.room R r hin.room).user _ _ hu
  refine fulfils_done hc (execute_unshare ch h hin hu) ?_
  rw [Event.request, Service.request, if_pos hseated]
  exact hb.change h hin rfl rfl fun a himp => (himp.stream hid hu false).congr ⟨rfl, rfl, rfl⟩ rfl

/-- A request for the member list. -/
theorem fulfils_name (hc : info.id ∈ s.connected) (n : String) : Fulfils env ch s info (.name n) b := by
  rcases h.idle_or_inRoom hc with hidle | ⟨R, r, hin⟩
  · refine hb.fulfils_fail h hw hc "not in a room" ?_ ?_
    · simp only [Event.execute, executeName, currentRoom_of_idle hidle]
    · rw [Event.request, Service.request, if_neg (hb.not_seated h hidle)]
  · refine fulfils_done hc (execute_name hin n) ?_
    rw [Event.request, Service.request, if_pos ((hb.seated_iff h).mpr ⟨R, r, hin⟩)]
    exact hb

/-- **Every message of a client is served as its request.** -/
theorem fulfils (hv : ∀ R r, s.rooms.lookup R = some r → r.Visitors) (he : e.fromClient = true) :
    Fulfils env ch s info e b := by
  by_cases hc : info.id ∈ s.connected
  · cases e with
    | create q => exact hb.fulfils_create h hw hc hv q
    | join j => exact hb.fulfils_join h hw hc hv j
    | name n => exact hb.fulfils_name h hw hc n
    | startShare => exact hb.fulfils_share h hw hc
    | stopShare => exact hb.fulfils_unshare h hw hc
    | hostOffer m => exact hb.fulfils_signal h hw hc .hostOffer m
    | hostICE m => exact hb.fulfils_signal h hw hc .hostICE m
    | clientAnswer m => exact hb.fulfils_signal h hw hc .clientAnswer m
    | clientICE m => exact hb.fulfils_signal h hw hc .clientICE m
    | disconnected d =>
      rw [Fulfils, handle_disconnected hc]
      exact ⟨_, _, rfl, hb.leave h (executeNoError_departs ch d h hw hc)⟩
    | connected | health => exact absurd he Bool.false_ne_true
  · have hlobby : info.id ∉ b.lobby := by
      rw [hb.lobby, Finmap.lookup_eq_none.mpr hc]
      exact nofun
    have hseated : ¬ b.Seated info.id := by
      rw [hb.seated_iff h]
      rintro ⟨R, r, hin⟩
      exact hc (Finmap.mem_of_lookup_eq_some hin.at_)
    refine ⟨s, [], ?_, ?_⟩
    · simp only [Rooms.handle, Finmap.lookup_eq_none.mpr hc, Option.isNone_none, Bool.not_false,
        Bool.and_true, if_true]
    · rw [Service.request_of_gone hlobby hseated]
      exact hb

end Rooms.Implements

/-! ## Every run -/

/-- **What an input of the main loop is to the service**: an act, or nothing. -/
def actsOf (env : Env) (w : World) (i : Choice × Input) : List (Service.Act XID String String) :=
  match i.2 with
  | .upgrade _ _ _ => [.connect (env.xidNew w.rooms.drawn)]
  | .receive c e _ =>
    match w.clients.lookup c with
    | some info => [.request c i.1.get.isOk (e.request env w.rooms info)]
    | none => []
  | .count => []

/-- A new connection waits in the lobby. -/
theorem Rooms.Implements.connect (hb : s.Implements b) :
    (s.connect env).Implements (b.act (.connect (env.xidNew s.drawn))) := by
  refine ⟨fun c => ?_, hb.absent, hb.room⟩
  rw [Rooms.connect, GoMap.lookup_insert_ite]
  simp only [Service.act, Set.mem_insert_iff, hb.lobby]
  split_ifs with hc <;> simp [hc]

/-- **The server is simulated by the service.** -/
theorem service_simulates (env : Env) : (service XID String String).Simulates (server env)
    (fun w => w.Ok env ∧ VisitorsOk w) (fun w b => w.rooms.Implements b) (actsOf env) where
  init := by
    refine ⟨fun c => ?_, fun R _ => rfl, fun R r hr => ?_⟩
    · exact iff_of_false (Set.notMem_empty c) (by simp [server, World.init, newRooms])
    · simp [server, World.init, newRooms] at hr
  step := by
    rintro w ⟨ch, i⟩ w' b ⟨h, hv⟩ hb hs -
    have hst : w.step env (ch, i) = some w' := hs
    cases i with
    | upgrade addr user authenticated =>
      cases h.change_of_step hst
      exact ⟨_, Machine.runFrom_singleton _ _, hb.connect⟩
    | count =>
      cases h.change_of_step hst
      exact ⟨b, rfl, hb⟩
    | receive c e he =>
      cases hc : w.clients.lookup c with
      | none =>
        simp only [World.step, hc] at hst
        simp only [actsOf, hc]
        exact ⟨b, rfl, Option.some.inj hst ▸ hb⟩
      | some info =>
        obtain ⟨rfl, hw⟩ := h.info c info hc
        obtain ⟨t, sent, hhandle, ht⟩ : Fulfils env ch w.rooms info e b := hb.fulfils h.inv hw hv he
        simp only [World.step, hc, hhandle, Option.map_some] at hst
        simp only [actsOf, hc]
        exact ⟨_, Machine.runFrom_singleton _ _, Option.some.inj hst ▸ ht⟩

/-- **What the room tells the visitor `v`**: an entry of its member list. -/
def Service.Room.Tells (a : Service.Room XID String) (v : String) (y : Outgoing.User) : Prop :=
  ∃ c m k, a.members c = some m ∧ a.number m.visitor = some k ∧
    y.id = c ∧ y.name = guestName k ∧ y.visitorID = m.visitor ∧ y.streaming = m.streaming ∧
      (y.you = true ↔ m.visitor = v) ∧ (y.owner = true ↔ a.owner = some m.visitor)

/-- An entry of a member list. -/
theorem Room.Implements.tells_iff (h : r.Implements a) (y : Outgoing.User) :
    a.Tells u.visitorID y ↔ ∃ c v, r.users.lookup c = some v ∧ y = entryFor u c v := by
  constructor
  · rintro ⟨c, m, k, hm, hk, rfl, hname, hvis, hstr, hyou, howner⟩
    rw [h.members] at hm
    obtain ⟨v, hv, rfl⟩ := Option.map_eq_some_iff.mp hm
    obtain ⟨k', hk', hname'⟩ := h.number _ v hv
    obtain rfl := Option.some.inj (hk.symm.trans hk')
    refine ⟨y.id, v, hv, ?_⟩
    rw [← h.owner _ v hv] at howner
    obtain ⟨id, name, visitorID, streaming, you, owner⟩ := y
    simp only at hname hvis hstr hyou howner
    simp only [entryFor, hname, hname', hvis, hstr, Outgoing.User.mk.injEq, true_and]
    exact ⟨Bool.eq_iff_iff.mpr (by simpa using hyou), Bool.eq_iff_iff.mpr howner⟩
  · rintro ⟨c, v, hv, rfl⟩
    obtain ⟨k, hk, hname⟩ := h.number c v hv
    refine ⟨c, ⟨v.visitorID, v.streaming⟩, k, ?_, hk, rfl, hname, rfl, rfl, by simp [entryFor],
      h.owner c v hv⟩
    rw [h.members, hv, Option.map_some]

/-- The sessions of a room are those the service owes. -/
theorem Room.Implements.watches_iff (h : r.Implements a) (hr : RoomOk R r) (host viewer : XID) :
    a.Watches host viewer ↔ ∃ sid, r.sessions.lookup sid = some ⟨host, viewer⟩ := by
  rw [Service.Room.Watches, ne_eq, ne_eq, h.members_eq_none, not_not, h.members]
  constructor
  · rintro ⟨hne, hview, m, hm, hstr⟩
    obtain ⟨u, hu, rfl⟩ := Option.map_eq_some_iff.mp hm
    exact hr.complete host viewer u hu hstr hview (Ne.symm hne)
  · rintro ⟨sid, hx⟩
    obtain ⟨hne, hview, u, hu, hstr⟩ := hr.sound sid _ hx
    exact ⟨hne, hview, _, by rw [hu, Option.map_some], hstr⟩

/-- **The server is a room service.** Every run of the main loop is one of the service: its rooms
implement those of the service, there is a session for whoever watches whom, and every member was last
told what the service shows it. -/
theorem server_is_room_service (env : Env) (is : List (Choice × Input)) :
    ∃ w b, (server env).run is = some w ∧
      (service XID String String).run ((server env).labels (actsOf env) (World.init env) is) = some b ∧
      w.rooms.Implements b ∧
      ∀ R r a, w.rooms.rooms.lookup R = some r → b.rooms R = some a →
        (∀ host viewer, a.Watches host viewer ↔
          ∃ sid, r.sessions.lookup sid = some ⟨host, viewer⟩) ∧
        ∀ c m, a.members c = some m → ∃ l, latest roomOf (w.log c) = some l ∧ l.id = R ∧
          (l.users.map Outgoing.User.id).Nodup ∧ ∀ y, y ∈ l.users ↔ a.Tells m.visitor y := by
  obtain ⟨w, hw, h, -⟩ := server_visitorsOk env is
  obtain ⟨b, hb, himp⟩ := (service_simulates env).run
    (fun _ _ hs => (server_visitorsOk env).of_run hs) hw
  refine ⟨w, b, hw, hb, himp, fun R r a hr ha => ?_⟩
  obtain ⟨a', ha', hra⟩ := himp.room R r hr
  obtain rfl : a = a' := Option.some.inj (ha.symm.trans ha')
  refine ⟨hra.watches_iff (h.inv.room R r hr), fun c m hm => ?_⟩
  rw [hra.members] at hm
  obtain ⟨u, hu, rfl⟩ := Option.map_eq_some_iff.mp hm
  obtain ⟨l, hl, hid, hnodup, hlist⟩ := ((server_newsOk env).of_run hw).2 R r hr c u hu
  refine ⟨l, hl, hid.trans (h.inv.room R r hr).id_eq, hnodup, fun y => ?_⟩
  rw [hlist, hra.tells_iff]

end Screego
