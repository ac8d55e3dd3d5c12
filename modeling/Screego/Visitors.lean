import Screego.RoomStep
import Screego.Run
import Screego.Xid
import Std.Data.String.ToNat

/-!
# Visitors

A visitor is known by its visitor ID and may be in a room with several connections. A connection
that joins gets the name and the ownership of the other connections of its visitor.

* `Room.nextGuestName_cases`: the name a joining visitor gets is its own one or is free;
* `User.Fits`: what two users of one room have to do with each other;
* `Room.Visitors`: the invariant of the users of a room; **`RoomStep.visitors`**;
* **`one_visitor_owns_a_room`**, **`names_identify_visitors`**: in every state of a run;
* **`visitor_is_stable`**: as long as one of its connections stays.
-/

set_option autoImplicit false

namespace Screego

open Lib Outgoing

variable {env : Env} {ch : Choice} {s t : Rooms} {info : ClientInfo} {e : Event} {sent : List Send}
  {c : XID} {R v : String} {r r' : Screego.Room} {u : Screego.User}

/-! ## Guest names -/

theorem guestName_injective : Function.Injective guestName := fun _ _ h =>
  Nat.repr_injective ((String.append_right_inj _).mp h)

theorem guestName_ne_empty (k : ℕ) : guestName k ≠ "" := by
  intro h
  have hlen := congrArg String.length h
  simp only [guestName, String.length_append] at hlen
  exact absurd hlen (by simp)

/-- Among more names than are used, one is free. -/
theorem exists_free_name (used : List String) (index : ℕ) :
    ∃ i ≤ used.length, guestName (index + i) ∉ used := by
  by_contra h
  push Not at h
  let names := (List.range (used.length + 1)).map fun i => guestName (index + i)
  have hnodup : names.Nodup := by
    refine List.Nodup.map (fun i j hij => ?_) List.nodup_range
    have := guestName_injective hij
    omega
  have hsub : names ⊆ used := by
    intro name hname
    obtain ⟨i, hi, rfl⟩ := List.mem_map.mp hname
    exact h i (Nat.lt_succ_iff.mp (List.mem_range.mp hi))
  have hlen := (hnodup.subperm hsub).length_le
  simp only [names, List.length_map, List.length_range] at hlen
  omega

/-- The loop stops at a free name, when there is one within its rounds. -/
theorem guestLoop_spec (used : List String) (rounds index : ℕ)
    (h : ∃ i ≤ rounds, guestName (index + i) ∉ used) :
    guestLoop used rounds index ∉ used ∧
      ∃ k, index ≤ k ∧ guestLoop used rounds index = guestName k := by
  induction rounds generalizing index with
  | zero =>
    obtain ⟨i, hi, hfree⟩ := h
    obtain rfl : i = 0 := by omega
    exact ⟨hfree, index, le_rfl, rfl⟩
  | succ rounds ih =>
    rw [guestLoop]
    split_ifs with hused
    · have hnext : ∃ i ≤ rounds, guestName (index + 1 + i) ∉ used := by
        obtain ⟨i, hi, hfree⟩ := h
        cases i with
        | zero => exact absurd hused hfree
        | succ i => exact ⟨i, by omega, by rwa [Nat.add_assoc, Nat.add_comm 1]⟩
      obtain ⟨hfree, k, hk, hname⟩ := ih (index + 1) hnext
      exact ⟨hfree, k, by omega, hname⟩
    · exact ⟨hused, index, le_rfl, rfl⟩

/-- The names known after the loop of `nextGuestName`. -/
def knownNames (users : List Screego.User) (known : GoMap String String) : GoMap String String :=
  users.foldl (fun known user =>
    if user.visitorID ≠ "" then known.insert user.visitorID user.name else known) known

/-- The known name of a visitor is that of one of its users. -/
theorem lookup_knownNames (hv : v ≠ "") (users : List Screego.User) (known : GoMap String String) :
    (∃ u ∈ users, u.visitorID = v ∧ (knownNames users known).lookup v = some u.name) ∨
      ((∀ u ∈ users, u.visitorID ≠ v) ∧
        (knownNames users known).lookup v = known.lookup v) := by
  induction users generalizing known with
  | nil => exact Or.inr ⟨fun _ h => absurd h List.not_mem_nil, rfl⟩
  | cons u users ih =>
    rcases ih (if u.visitorID ≠ "" then known.insert u.visitorID u.name else known) with
      ⟨u', hu', hv', hname⟩ | ⟨hnone, hlook⟩
    · exact Or.inl ⟨u', List.mem_cons_of_mem _ hu', hv', hname⟩
    by_cases huv : u.visitorID = v
    · refine Or.inl ⟨u, List.mem_cons_self, huv, hlook.trans ?_⟩
      rw [if_pos (huv ▸ hv), huv]
      exact Finmap.lookup_insert _
    · refine Or.inr ⟨?_, hlook.trans ?_⟩
      · intro u' hu'
        rcases List.mem_cons.mp hu' with rfl | hu'
        · exact huv
        · exact hnone u' hu'
      · split_ifs
        · exact Finmap.lookup_insert_of_ne _ (Ne.symm huv)
        · rfl

/-- **The name of a joining visitor** is that of a user of the visitor, or it is free. -/
theorem Room.nextGuestName_cases (ch : Choice) (hv : v ≠ "")
    (hnames : ∀ c u, r.users.lookup c = some u → u.name ≠ "") :
    (∃ c u, r.users.lookup c = some u ∧ u.visitorID = v ∧ r.nextGuestName ch v = u.name) ∨
      ((∀ c u, r.users.lookup c = some u → u.visitorID ≠ v ∧ u.name ≠ r.nextGuestName ch v) ∧
        ∃ k, 0 < k ∧ r.nextGuestName ch v = guestName k) := by
  have hmem : ∀ u, u ∈ (range (ch.order .nextGuestName) r.users).map Prod.snd ↔
      ∃ c, r.users.lookup c = some u := by
    intro u
    rw [List.mem_map]
    constructor
    · rintro ⟨⟨c, u⟩, hcu, rfl⟩
      exact ⟨c, (mem_range _ _).mp hcu⟩
    · rintro ⟨c, hu⟩
      exact ⟨(c, u), (mem_range _ _).mpr hu, rfl⟩
  unfold Room.nextGuestName
  rcases lookup_knownNames hv ((range (ch.order .nextGuestName) r.users).map Prod.snd) ∅ with
    ⟨u, hu, huv, hname⟩ | ⟨hnone, hlook⟩
  · obtain ⟨c, hc⟩ := (hmem u).mp hu
    refine Or.inl ⟨c, u, hc, huv, ?_⟩
    rw [knownNames] at hname
    simp only [hname, Option.getD_some]
    exact if_pos (hnames c u hc)
  · obtain ⟨hfree, k, hk, hname⟩ := guestLoop_spec _ _ 1 (exists_free_name
      (((range (ch.order .nextGuestName) r.users).map Prod.snd).map Screego.User.name) 1)
    rw [knownNames, Finmap.lookup_empty] at hlook
    simp only [hlook, Option.getD_none, ne_eq, not_true_eq_false, if_false]
    refine Or.inr ⟨fun c u hu => ⟨hnone u ((hmem u).mpr ⟨c, hu⟩), fun heq => hfree ?_⟩, k, hk, hname⟩
    rw [← heq]
    exact List.mem_map_of_mem ((hmem u).mpr ⟨c, hu⟩)

/-! ## Users of one room -/

/-- **Two users of one room** have one name if they are of one visitor, then both or none of them
owns the room, and owners are of one visitor. -/
structure User.Fits (u u' : Screego.User) : Prop where
  name : u.name = u'.name ↔ u.visitorID = u'.visitorID
  owner : u.visitorID = u'.visitorID → u.owner = u'.owner
  visitorID : u.owner = true → u'.owner = true → u.visitorID = u'.visitorID

theorem User.Fits.refl (u : Screego.User) : u.Fits u where
  name := iff_of_true rfl rfl
  owner _ := rfl
  visitorID _ _ := rfl

theorem User.Fits.symm {u u' : Screego.User} (h : u.Fits u') : u'.Fits u where
  name := by rw [eq_comm, h.name, eq_comm]
  owner hv := (h.owner hv.symm).symm
  visitorID ho ho' := (h.visitorID ho' ho).symm

/-- The users have the same face: visitor, name and ownership. -/
structure User.Like (u' u : Screego.User) : Prop where
  visitorID : u'.visitorID = u.visitorID
  name : u'.name = u.name
  owner : u'.owner = u.owner

theorem User.Fits.like {u₁ u₂ u₁' u₂' : Screego.User} (h : u₁.Fits u₂) (h₁ : u₁'.Like u₁)
    (h₂ : u₂'.Like u₂) : u₁'.Fits u₂' where
  name := by rw [h₁.name, h₂.name, h₁.visitorID, h₂.visitorID, h.name]
  owner := by
    rw [h₁.visitorID, h₂.visitorID, h₁.owner, h₂.owner]
    exact h.owner
  visitorID := by
    rw [h₁.visitorID, h₂.visitorID, h₁.owner, h₂.owner]
    exact h.visitorID

/-- **The users of a room.** -/
structure Room.Visitors (r : Screego.Room) : Prop where
  fits : ∀ c c' u u', r.users.lookup c = some u → r.users.lookup c' = some u' → u.Fits u'
  named : ∀ c u, r.users.lookup c = some u → ∃ k, 0 < k ∧ u.name = guestName k
  visitorID : ∀ c u, r.users.lookup c = some u → Trimmed u.visitorID
  kept : r.closeOnOwnerLeave = true → ∃ c u, r.users.lookup c = some u ∧ u.owner = true

theorem Room.Visitors.name_ne (h : r.Visitors) (hu : r.users.lookup c = some u) : u.name ≠ "" := by
  obtain ⟨k, -, hname⟩ := h.named c u hu
  rw [hname]
  exact guestName_ne_empty k

/-- A room whose users were there before, with the same faces. -/
theorem Room.Visitors.sub (h : r.Visitors)
    (hsub : ∀ c u', r'.users.lookup c = some u' → ∃ u, r.users.lookup c = some u ∧ u'.Like u)
    (hkept : r'.closeOnOwnerLeave = true → ∃ c u, r'.users.lookup c = some u ∧ u.owner = true) :
    r'.Visitors where
  fits c c' u u' hu hu' := by
    obtain ⟨u₀, hu₀, hlike⟩ := hsub c u hu
    obtain ⟨u₀', hu₀', hlike'⟩ := hsub c' u' hu'
    exact (h.fits c c' u₀ u₀' hu₀ hu₀').like hlike hlike'
  named c u hu := by
    obtain ⟨u₀, hu₀, hlike⟩ := hsub c u hu
    obtain ⟨k, hk, hname⟩ := h.named c u₀ hu₀
    exact ⟨k, hk, hlike.name.trans hname⟩
  visitorID c u hu := by
    obtain ⟨u₀, hu₀, hlike⟩ := hsub c u hu
    rw [hlike.visitorID]
    exact h.visitorID c u₀ hu₀
  kept := hkept

/-! ## One message -/

/-- **The new user fits** the users of the room it joins. -/
theorem Room.Visitors.joinUser_fits (h : r.Visitors) (env : Env) (ch : Choice) (info : ClientInfo)
    (v : String) (hu : r.users.lookup c = some u) : (joinUser env ch info r v).Fits u := by
  have hne := (joinUser_visitorID_trimmed env ch info r v).2
  have howner := joinUser_owner env ch info r v
  have hname : (joinUser env ch info r v).name =
      r.nextGuestName ch (joinUser env ch info r v).visitorID := by simp only [joinUser]
  generalize joinUser env ch info r v = new at hne howner hname ⊢
  have howns : new.owner = true ↔
      ∃ c' u', r.users.lookup c' = some u' ∧ u'.visitorID = new.visitorID ∧ u'.owner = true := by
    rw [howner, Room.visitorOwner_iff]
    exact and_iff_right hne
  refine ⟨?_, fun hv => ?_, fun ho ho' => ?_⟩
  · rw [hname]
    rcases Room.nextGuestName_cases ch hne fun c u hu => h.name_ne hu with
      ⟨c', u', hu', hv', hn⟩ | ⟨hfree, -⟩
    · rw [hn, ← hv']
      exact (h.fits c' c u' u hu' hu).name
    · exact iff_of_false (Ne.symm (hfree c u hu).2) (Ne.symm (hfree c u hu).1)
  · rw [Bool.eq_iff_iff, howns]
    constructor
    · rintro ⟨c', u', hu', hv', ho'⟩
      rw [← (h.fits c' c u' u hu' hu).owner (hv'.trans hv), ho']
    · exact fun ho => ⟨c, u, hu, hv.symm, ho⟩
  · obtain ⟨c', u', hu', hv', ho''⟩ := howns.mp ho
    rw [← hv']
    exact (h.fits c' c u' u hu' hu).visitorID ho'' ho'

theorem Room.Visitors.join (h : r.Visitors) (hlike : r'.Like r)
    (husers : r'.users = (r.put (joinUser env ch info r v)).users)
    (hnew : info.id ∉ r.users) : r'.Visitors := by
  have hlook : ∀ c u, r'.users.lookup c = some u →
      u = joinUser env ch info r v ∨ r.users.lookup c = some u := by
    intro c u hu
    rw [husers, lookup_put] at hu
    split_ifs at hu with hc
    · exact Or.inl (Option.some.inj hu).symm
    · exact Or.inr hu
  refine ⟨fun c c' u u' hu hu' => ?_, fun c u hu => ?_, fun c u hu => ?_, fun hclose => ?_⟩
  · rcases hlook c u hu with rfl | hu <;> rcases hlook c' u' hu' with rfl | hu'
    · exact .refl _
    · exact h.joinUser_fits env ch info v hu'
    · exact (h.joinUser_fits env ch info v hu).symm
    · exact h.fits c c' u u' hu hu'
  · rcases hlook c u hu with rfl | hu
    · have hne := (joinUser_visitorID_trimmed env ch info r v).2
      simp only [joinUser] at hne ⊢
      rcases Room.nextGuestName_cases ch hne fun c u hu => h.name_ne hu with
        ⟨c', u', hu', -, hn⟩ | ⟨-, hn⟩
      · rw [hn]
        exact h.named c' u' hu'
      · exact hn
    · exact h.named c u hu
  · rcases hlook c u hu with rfl | hu
    · exact joinUser_visitorID_trimmed env ch info r v
    · exact h.visitorID c u hu
  · obtain ⟨c, u, hu, ho⟩ := h.kept (hlike.closeOnOwnerLeave ▸ hclose)
    refine ⟨c, u, ?_, ho⟩
    rw [husers, lookup_put, if_neg, hu]
    rintro rfl
    exact hnew (Finmap.mem_of_lookup_eq_some hu)

theorem createRoom_visitors (env : Env) (info : ClientInfo) (R : String) (q : Create) :
    (createRoom env info R q).Visitors := by
  refine ⟨fun c c' u u' hu hu' => ?_, fun c u hu => ?_, fun c u hu => ?_, fun _ => ?_⟩
  · obtain ⟨-, rfl⟩ := lookup_createRoom hu
    obtain ⟨-, rfl⟩ := lookup_createRoom hu'
    exact .refl _
  · exact ⟨1, one_pos, (lookup_createRoom hu).2 ▸ rfl⟩
  · obtain ⟨-, rfl⟩ := lookup_createRoom hu
    exact createUser_visitorID_trimmed env info q
  · exact ⟨info.id, _, Finmap.lookup_insert _, rfl⟩

/-- The faces of the users do not change when one of them begins or ends to share. -/
theorem lookup_flagged {b : Bool} (hid : u.id = c) (hu : r.users.lookup c = some u) {c' : XID}
    {u' : Screego.User} (hu' : (r.put { u with streaming := b }).users.lookup c' = some u') :
    ∃ u₀, r.users.lookup c' = some u₀ ∧ u'.Like u₀ := by
  rw [lookup_put] at hu'
  split_ifs at hu' with hc
  · obtain rfl : c' = c := hc.trans hid
    cases hu'
    exact ⟨u, hu, rfl, rfl, rfl⟩
  · exact ⟨u', hu', rfl, rfl, rfl⟩

theorem lookup_remaining {c' : XID} {u' : Screego.User}
    (hu' : (r.without c).users.lookup c' = some u') :
    ∃ u₀, r.users.lookup c' = some u₀ ∧ u'.Like u₀ := by
  rw [lookup_without] at hu'
  split_ifs at hu'
  exact ⟨u', hu', rfl, rfl, rfl⟩

/-- **Somebody owns the room** that goes on after a user has left, if the room needs an owner. -/
theorem Room.Visitors.kept_without (h : r.Visitors) (hu : r.users.lookup c = some u)
    (hcl : ¬ r.closesWith ch c u) (hclose : r.closeOnOwnerLeave = true) :
    ∃ c' u', (r.without c).users.lookup c' = some u' ∧ u'.owner = true := by
  obtain ⟨c₀, u₀, hu₀, ho₀⟩ := h.kept hclose
  cases ho : u.owner with
  | true =>
    have hvisitor : (r.without c).hasVisitor ch u.visitorID = true := by
      by_contra hno
      exact hcl (Or.inl (by rw [ho, hclose]; simpa using hno))
    obtain ⟨-, c', u', hu', hv'⟩ := Room.hasVisitor_iff.mp hvisitor
    obtain ⟨u₁, hu₁, hlike⟩ := lookup_remaining hu'
    refine ⟨c', u', hu', ?_⟩
    rw [hlike.owner, ← ho]
    exact (h.fits c' c u₁ u hu₁ hu).owner (hlike.visitorID ▸ hv')
  | false =>
    refine ⟨c₀, u₀, ?_, ho₀⟩
    rw [lookup_without, if_neg, hu₀]
    rintro rfl
    rw [hu] at hu₀
    cases hu₀
    rw [ho] at ho₀
    cases ho₀

/-- **Every message keeps the invariant of a room.** -/
theorem RoomStep.visitors (h : Inv env s) (hstep : RoomStep env ch s info e R r')
    (hold : ∀ r, s.rooms.lookup R = some r → r.Visitors) : r'.Visitors := by
  cases hstep with
  | same hr => exact hold r' hr
  | created he hc hR hnew ha hr' => exact hr' ▸ createRoom_visitors env info R _
  | joined hc he hr hget hlike husers =>
    exact (hold _ hr).join hlike husers (h.notMem_of_idle hc hr)
  | @flagged r u b hin hu hlike husers =>
    have hid := ((h.room R r hin.room).user _ _ hu).1
    have hr := hold r hin.room
    refine hr.sub (fun c u' hu' => lookup_flagged hid hu (husers ▸ hu')) fun hclose => ?_
    obtain ⟨c, u', hu', ho⟩ := hr.kept (hlike.closeOnOwnerLeave ▸ hclose)
    by_cases hc : c = info.id
    · subst hc
      rw [hu] at hu'
      cases hu'
      exact ⟨info.id, { u with streaming := b }, by rw [husers, lookup_put, if_pos hid.symm], ho⟩
    · exact ⟨c, u', by rw [husers, lookup_put, if_neg (fun e => hc (e.trans hid)), hu'], ho⟩
  | @left r u hin hu hcl hlike husers =>
    have hr := hold r hin.room
    refine hr.sub (fun c u' hu' => lookup_remaining (husers ▸ hu')) fun hclose => ?_
    rw [husers]
    exact hr.kept_without hu hcl (hlike.closeOnOwnerLeave ▸ hclose)

/-! ## Every run -/

/-- Every room keeps its invariant. -/
def VisitorsOk (w : World) : Prop := ∀ R r, w.rooms.rooms.lookup R = some r → r.Visitors

theorem server_visitorsOk (env : Env) : (server env).Always fun w => w.Ok env ∧ VisitorsOk w := by
  refine server_always (fun R r hr => ?_) fun ch w i w' h hv hch _ => ?_
  · simp [World.init, newRooms] at hr
  cases hch with
  | upgrade | stranger | count => exact hv
  | message hc hch => exact fun R r hr => (hch.roomStep hr).visitors h.inv (hv R)

/-- **Ownership.** Users of one visitor own the room together or not at all, owners are of one
visitor, every user has a visitor ID, and a room that closes when its owner leaves has an owner. -/
theorem one_visitor_owns_a_room (env : Env) : (server env).Always fun w =>
    ∀ R r, w.rooms.rooms.lookup R = some r →
      (∀ c c' u u', r.users.lookup c = some u → r.users.lookup c' = some u' →
        (u.visitorID = u'.visitorID → u.owner = u'.owner) ∧
        (u.owner = true → u'.owner = true → u.visitorID = u'.visitorID)) ∧
      (∀ c u, r.users.lookup c = some u → u.visitorID ≠ "") ∧
      (r.closeOnOwnerLeave = true → ∃ c u, r.users.lookup c = some u ∧ u.owner = true) := by
  refine (server_visitorsOk env).mono fun w hw R r hr => ?_
  have hv := hw.2 R r hr
  refine ⟨fun c c' u u' hu hu' => ?_, fun c u hu => (hv.visitorID c u hu).2, hv.kept⟩
  have hfits := hv.fits c c' u u' hu hu'
  exact ⟨hfits.owner, hfits.visitorID⟩

/-- **Names.** Two users of a room have one name if and only if they are of one visitor. -/
theorem names_identify_visitors (env : Env) : (server env).Always fun w =>
    ∀ R r c c' u u', w.rooms.rooms.lookup R = some r → r.users.lookup c = some u →
      r.users.lookup c' = some u' → (u.name = u'.name ↔ u.visitorID = u'.visitorID) :=
  (server_visitorsOk env).mono fun _ hw R r c c' u u' hr hu hu' =>
    ((hw.2 R r hr).fits c c' u u' hu hu').name

/-! ## Stretches of a run -/

/-- A connection of the visitor is in the room. -/
def Rooms.Hosts (s : Rooms) (R v : String) : Prop :=
  ∃ r c u, s.rooms.lookup R = some r ∧ r.users.lookup c = some u ∧ u.visitorID = v

instance (s : Rooms) (R v : String) : Decidable (s.Hosts R v) :=
  decidable_of_iff ((s.rooms.lookup R).any (fun r =>
      (range RangeOrder.increasing r.users).any fun a => a.2.visitorID = v) = true) <| by
    simp only [Option.any_eq_true, any_range, decide_eq_true_eq, Rooms.Hosts]
    constructor
    · rintro ⟨r, hr, c, u, hu, huv⟩
      exact ⟨r, c, u, hr, hu, huv⟩
    · rintro ⟨r, c, u, hr, hu, huv⟩
      exact ⟨r, hr, c, u, hu, huv⟩

/-- Every connection of the visitor that is in the room has the name and the ownership. -/
def Rooms.Knows (s : Rooms) (R v name : String) (owner : Bool) : Prop :=
  ∀ r c u, s.rooms.lookup R = some r → r.users.lookup c = some u → u.visitorID = v →
    u.name = name ∧ u.owner = owner

variable {name : String} {owner : Bool}

/-- The connections of a visitor agree. -/
theorem Rooms.Hosts.knows (hv : ∀ r, s.rooms.lookup R = some r → r.Visitors)
    (hhosts : s.Hosts R v) : ∃ name owner, s.Knows R v name owner := by
  obtain ⟨r, c, u, hr, hu, huv⟩ := hhosts
  refine ⟨u.name, u.owner, fun r' c' u' hr' hu' huv' => ?_⟩
  rw [hr] at hr'
  cases hr'
  have hfits := (hv r hr).fits c' c u' u hu' hu
  exact ⟨hfits.name.mpr (huv'.trans huv.symm), hfits.owner (huv'.trans huv.symm)⟩

/-- **Identity is handed on**: what a message leaves of a visitor, and what it adds, looks like the
connection that was there. -/
theorem RoomStep.knows (h : Inv env s) (hstep : RoomStep env ch s info e R r')
    (hv : ∀ r, s.rooms.lookup R = some r → r.Visitors) (hhosts : s.Hosts R v)
    (hknows : s.Knows R v name owner) {u' : Screego.User} (hu' : r'.users.lookup c = some u')
    (huv : u'.visitorID = v) : u'.name = name ∧ u'.owner = owner := by
  obtain ⟨r₀, c₀, u₀, hr₀, hu₀, hv₀⟩ := hhosts
  have hold : ∀ {r u}, s.rooms.lookup R = some r → r.users.lookup c = some u → u'.Like u →
      u'.name = name ∧ u'.owner = owner := by
    intro r u hr hu hlike
    rw [hlike.name, hlike.owner]
    exact hknows r c u hr hu (hlike.visitorID ▸ huv)
  cases hstep with
  | same hr => exact hold hr hu' ⟨rfl, rfl, rfl⟩
  | created he hc hR hnew => exact absurd (Finmap.mem_of_lookup_eq_some hr₀) hnew
  | @joined r v' hc he hr hget hlike husers =>
    rw [husers, lookup_put] at hu'
    split_ifs at hu' with hid
    · obtain rfl := Option.some.inj (hr.symm.trans hr₀)
      cases hu'
      have hfits := (hv r hr).joinUser_fits env ch info v' hu₀
      obtain ⟨hname, howner⟩ := hknows r c₀ u₀ hr hu₀ hv₀
      exact ⟨(hfits.name.mpr (huv.trans hv₀.symm)).trans hname,
        (hfits.owner (huv.trans hv₀.symm)).trans howner⟩
    · exact hold hr hu' ⟨rfl, rfl, rfl⟩
  | @flagged r u b hin hu hlike husers =>
    have hid := ((h.room R r hin.room).user _ _ hu).1
    obtain ⟨u₁, hu₁, hlike⟩ := lookup_flagged hid hu (husers ▸ hu')
    exact hold hin.room hu₁ hlike
  | @left r u hin hu hcl hlike husers =>
    obtain ⟨u₁, hu₁, hlike⟩ := lookup_remaining (husers ▸ hu')
    exact hold hin.room hu₁ hlike

/-- **A visitor's identity is stable.** In a stretch of a run in which a connection of the visitor
is in the room all the time, all its connections that are ever in the room have one name, and all
or none of them own the room. -/
theorem visitor_is_stable (env : Env) (is js : List (Choice × Input)) (R v : String)
    (hstays : (server env).Stretch (fun w => w.rooms.Hosts R v) is js) :
    ∃ name owner, (server env).Stretch (fun w => w.rooms.Knows R v name owner) is js := by
  obtain ⟨w, hw, -, hvis⟩ := server_visitorsOk env is
  have hhosts : w.rooms.Hosts R v := hstays [] js w rfl (by rw [List.append_nil, hw])
  obtain ⟨name, owner, hknows⟩ := hhosts.knows (hvis R)
  refine ⟨name, owner, (server_visitorsOk env).stretch hstays (fun w' hw' => ?_) ?_⟩
  · rw [hw] at hw'
    exact Option.some.inj hw' ▸ hknows
  rintro w ⟨ch, i⟩ w' hw hhosts hknows hs -
  cases hw.1.change_of_step hs with
  | upgrade | stranger | count => exact hknows
  | message hc hch =>
    exact fun r' c u' hr' hu' huv =>
      (hch.roomStep hr').knows hw.1.inv (hw.2 R) hhosts hknows hu' huv

/-- The owner of a room opens a second tab and closes the first. -/
def changeTabs : List (Choice × Input) :=
  [.upgrade [] "" false, .join ⟨1⟩ ⟨"room", "", "a"⟩,
    .disconnected ⟨0⟩ ⟨closeNormalClosure, ""⟩].map fun i => (Choice.plain, i)

theorem visitor_is_stable_changeTabs : ∃ name owner, (server openServer).Stretch
    (fun w => w.rooms.Knows "room" "a" name owner) createAlone changeTabs :=
  visitor_is_stable openServer createAlone changeTabs "room" "a"
    (Machine.stretch_of_inits (by decide +kernel))

end Screego
