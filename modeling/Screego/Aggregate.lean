import Screego.Lib.Group
import Screego.Roster

/-!
# The member list per visitor

`aggregateUsers` of `ui/src/Room.tsx` merges the connections of a visitor into one entry. It reads the
list the server sent, and what it makes of that list rests on the visitors of the room.

* `RoomUser`, `DisplayUser`, `aggregateUsers`;
* `merged`: what a group of entries becomes; **`aggregateUsers_eq`**: the loop in closed form;
* `Roster.rank_merged`: merging does not change what the list is sorted by;
* **`aggregation_is_exact`**: in every state of a run, for the list sent to any member.
-/

set_option autoImplicit false

namespace Screego

open Lib Outgoing

/-! ## The loop -/

/-- A `RoomUser` of `message.ts`. -/
structure RoomUser where
  id : String
  name : String
  visitorId : Option String
  streaming : Bool
  you : Bool
  owner : Bool
deriving DecidableEq

/-- A `DisplayUser`. -/
structure DisplayUser extends RoomUser where
  connections : ℕ
deriving DecidableEq

/-- `user.visitorId || user.id`. -/
def RoomUser.key (user : RoomUser) : String :=
  match user.visitorId with
  | some visitorId => if visitorId = "" then user.id else visitorId
  | none => user.id

/-- The entry of a visitor with one more connection. -/
def DisplayUser.merge (current : DisplayUser) (user : RoomUser) : DisplayUser :=
  { current with
    streaming := current.streaming || user.streaming
    you := current.you || user.you
    owner := current.owner || user.owner
    connections := current.connections + 1 }

/-- One round of the loop of `aggregateUsers`. -/
def aggregateUser : List DisplayUser × GoMap String ℕ → RoomUser → List DisplayUser × GoMap String ℕ
  | (result, indexByVisitor), user =>
    match indexByVisitor.lookup user.key with
    | none =>
      (result ++ [{ user with connections := 1 }], indexByVisitor.insert user.key result.length)
    | some index => (result.modify index fun current => current.merge user, indexByVisitor)

/-- **`aggregateUsers`.** -/
def aggregateUsers (users : List RoomUser) : List DisplayUser :=
  (users.foldl aggregateUser ([], ∅)).1

/-! ## The loop in closed form -/

/-- The entry for the visitor of `user`, made of the entries of the list. -/
def merged (users : List RoomUser) (user : RoomUser) : DisplayUser :=
  { user with
    streaming := users.any fun a => a.key = user.key && a.streaming
    you := users.any fun a => a.key = user.key && a.you
    owner := users.any fun a => a.key = user.key && a.owner
    connections := users.countP fun a => a.key = user.key }

theorem merged_concat_of_eq (users : List RoomUser) {user b : RoomUser} (h : user.key = b.key) :
    merged (users ++ [user]) b = (merged users b).merge user := by
  simp [merged, DisplayUser.merge, h]

theorem merged_concat_of_ne (users : List RoomUser) {user b : RoomUser} (h : user.key ≠ b.key) :
    merged (users ++ [user]) b = merged users b := by
  simp [merged, h]

theorem merged_new {users : List RoomUser} {user : RoomUser} (h : ∀ b ∈ users, b.key ≠ user.key) :
    merged (users ++ [user]) user = { user with connections := 1 } := by
  have hany : ∀ p : RoomUser → Bool, (users.any fun a => a.key = user.key && p a) = false := by
    intro p
    rw [List.any_eq_false]
    exact fun b hb => by simp [h b hb]
  have hcount : users.countP (fun a => a.key = user.key) = 0 :=
    List.countP_eq_zero.mpr fun b hb => by simp [h b hb]
  simp [merged, hany, hcount]

/-- What the loop has made of the users it has seen. -/
structure Aggregated (users : List RoomUser) (st : List DisplayUser × GoMap String ℕ) : Prop where
  result : st.1 = (firsts RoomUser.key users).map (merged users)
  index : ∀ k i, st.2.lookup k = some i ↔ ((firsts RoomUser.key users).map RoomUser.key)[i]? = some k

namespace Aggregated

variable {users : List RoomUser} {result : List DisplayUser} {indexByVisitor : GoMap String ℕ}
  {user : RoomUser}

/-- A key that is not in the map has not come up. -/
theorem new (h : Aggregated users (result, indexByVisitor))
    (hl : indexByVisitor.lookup user.key = none) : ∀ b ∈ users, b.key ≠ user.key := by
  intro b hb hkey
  have hmem : user.key ∈ (firsts RoomUser.key users).map RoomUser.key :=
    (mem_keys_firsts _).mpr (List.mem_map.mpr ⟨b, hb, hkey⟩)
  obtain ⟨i, hi⟩ := List.mem_iff_getElem?.mp hmem
  rw [(h.index user.key i).mpr hi] at hl
  cases hl

/-- The first connection of a visitor. -/
theorem append (h : Aggregated users (result, indexByVisitor))
    (hl : indexByVisitor.lookup user.key = none) :
    Aggregated (users ++ [user]) (result ++ [{ user with connections := 1 }],
      indexByVisitor.insert user.key result.length) := by
  have hnew := h.new hl
  have hlast : user.key ∉ (firsts RoomUser.key users).map RoomUser.key := fun hmem => by
    obtain ⟨b, hb, hkey⟩ := List.mem_map.mp ((mem_keys_firsts _).mp hmem)
    exact hnew b hb hkey
  obtain ⟨hresult, hindex⟩ := h
  obtain rfl : result = _ := hresult
  refine ⟨?_, fun k i => ?_⟩
  · rw [firsts_concat_new _ hnew, List.map_append, List.map_singleton, merged_new hnew]
    refine congrArg (· ++ [({ user with connections := 1 } : DisplayUser)])
      (List.map_congr_left fun b hb => (merged_concat_of_ne users ?_).symm)
    exact (hnew b ((firsts_sublist _ _).subset hb)).symm
  · rw [firsts_concat_new _ hnew, List.map_append, List.map_singleton,
      getElem?_concat_eq_some hlast, GoMap.lookup_insert_ite, List.length_map, List.length_map]
    split_ifs
    · rw [Option.some.injEq]
    · exact hindex k i

/-- A further connection of a visitor. -/
theorem modify (h : Aggregated users (result, indexByVisitor)) {index : ℕ}
    (hl : indexByVisitor.lookup user.key = some index) :
    Aggregated (users ++ [user])
      (result.modify index fun current => current.merge user, indexByVisitor) := by
  obtain ⟨hresult, hindex⟩ := h
  obtain rfl : result = _ := hresult
  have hi := (hindex user.key index).mp hl
  have hfirsts : firsts RoomUser.key (users ++ [user]) = firsts RoomUser.key users :=
    firsts_concat_of_mem _ ((mem_keys_firsts _).mp (List.mem_of_getElem? hi))
  refine ⟨?_, fun k i => by rw [hfirsts]; exact hindex k i⟩
  rw [hfirsts]
  exact modify_map_of_nodup RoomUser.key (nodup_firsts _ users) hi
    (fun b hb => merged_concat_of_eq users hb.symm) (fun b hb => merged_concat_of_ne users (Ne.symm hb))

/-- One round of the loop. -/
theorem step {st : List DisplayUser × GoMap String ℕ} (h : Aggregated users st) (user : RoomUser) :
    Aggregated (users ++ [user]) (aggregateUser st user) := by
  obtain ⟨result, indexByVisitor⟩ := st
  rw [aggregateUser]
  cases hl : indexByVisitor.lookup user.key with
  | none => exact h.append hl
  | some index => exact h.modify hl

end Aggregated

/-- **`aggregateUsers` in closed form**: one entry for every key, in the order in which the keys come
up, made of all entries with that key. -/
theorem aggregateUsers_eq (users : List RoomUser) :
    aggregateUsers users = (firsts RoomUser.key users).map (merged users) := by
  have h : Aggregated users (users.foldl aggregateUser ([], ∅)) := by
    induction users using List.reverseRecOn with
    | nil => exact ⟨rfl, fun k i => by simp [firsts]⟩
    | append_singleton users user ih =>
      rw [List.foldl_append]
      exact ih.step user
  exact h.result

/-! ## Lists of one room -/

/-- What an entry is sorted by: owners, then streamers, then names. -/
def RoomUser.rank (user : RoomUser) : Bool ×ₗ Bool ×ₗ String :=
  toLex (!user.owner, toLex (!user.streaming, user.name))

/-- **The entries fit each other**: connections of one key have one name and own the room together,
and the list is sorted. -/
structure Coherent (users : List RoomUser) : Prop where
  name : ∀ a ∈ users, ∀ b ∈ users, a.name = b.name ↔ a.key = b.key
  owner : ∀ a ∈ users, ∀ b ∈ users, a.key = b.key → a.owner = b.owner
  sorted : users.Pairwise fun a b => a.rank ≤ b.rank

section Merging

variable {users : List RoomUser} {b b' : RoomUser}

theorem mem_of_mem_firsts (hb : b ∈ firsts RoomUser.key users) : b ∈ users :=
  (firsts_sublist _ _).subset hb

namespace Coherent

variable (h : Coherent users)

include h

theorem merged_owner (hb : b ∈ firsts RoomUser.key users) : (merged users b).owner = b.owner := by
  rw [Bool.eq_iff_iff]
  simp only [merged, List.any_eq_true, Bool.and_eq_true, decide_eq_true_eq]
  constructor
  · rintro ⟨a, ha, hkey, ho⟩
    rw [← h.owner a ha b (mem_of_mem_firsts hb) hkey, ho]
  · exact fun ho => ⟨b, mem_of_mem_firsts hb, rfl, ho⟩

/-- **The first entry of a visitor streams if any does**: streamers come before the others. -/
theorem merged_streaming (hb : b ∈ firsts RoomUser.key users) :
    (merged users b).streaming = b.streaming := by
  rw [Bool.eq_iff_iff]
  simp only [merged, List.any_eq_true, Bool.and_eq_true, decide_eq_true_eq]
  constructor
  · rintro ⟨a, ha, hkey, hstream⟩
    have hle : b.rank ≤ a.rank := firsts_first RoomUser.key (r := fun a b => a.rank ≤ b.rank)
      (fun _ => le_rfl) h.sorted ha hb hkey.symm
    have howner := h.owner a ha b (mem_of_mem_firsts hb) hkey
    rw [RoomUser.rank, RoomUser.rank, Prod.Lex.toLex_le_toLex, howner] at hle
    rcases hle with hlt | ⟨-, hle⟩
    · exact absurd hlt (lt_irrefl _)
    · rw [Prod.Lex.toLex_le_toLex, hstream] at hle
      cases hs : b.streaming with
      | true => rfl
      | false =>
        simp only [hs, Bool.not_true, Bool.not_false] at hle
        exact absurd hle (by simp)
  · exact fun hs => ⟨b, mem_of_mem_firsts hb, rfl, hs⟩

/-- Merging does not change what the list is sorted by. -/
theorem rank_merged (hb : b ∈ firsts RoomUser.key users) : (merged users b).rank = b.rank := by
  rw [RoomUser.rank, RoomUser.rank, h.merged_owner hb, h.merged_streaming hb]
  rfl

/-- Two groups have two names. -/
theorem pairwise_name : (firsts RoomUser.key users).Pairwise fun a b => a.name ≠ b.name :=
  (List.pairwise_map.mp (nodup_firsts RoomUser.key users)).imp_of_mem fun ha hb hne hname =>
    hne ((h.name _ (mem_of_mem_firsts ha) _ (mem_of_mem_firsts hb)).mp hname)

theorem names : ((aggregateUsers users).map fun d => d.name).Nodup := by
  rw [aggregateUsers_eq, List.map_map]
  exact List.pairwise_map.mpr h.pairwise_name

/-- **The aggregated list is strictly sorted.** -/
theorem strict : (aggregateUsers users).Pairwise fun d d' => d.rank < d'.rank := by
  rw [aggregateUsers_eq]
  refine List.pairwise_map.mpr ?_
  have hsorted := h.sorted.sublist (firsts_sublist RoomUser.key users)
  refine (hsorted.and h.pairwise_name).imp_of_mem fun {a b} ha hb hab => ?_
  rw [h.rank_merged ha, h.rank_merged hb]
  refine lt_of_le_of_ne hab.1 fun e => hab.2 ?_
  exact congrArg (fun x => (ofLex (ofLex x).2).2) e

end Coherent

end Merging

/-! ## The list of a member -/

/-- The number of connections of a visitor. -/
def Room.connections (r : Screego.Room) (visitorID : String) : ℕ :=
  (range RangeOrder.increasing r.users).countP fun e => e.2.visitorID = visitorID

/-- **The aggregated list is exact**, for the member `v` of the room `r`. -/
structure Exact (r : Screego.Room) (v : Screego.User) (D : List DisplayUser) : Prop where
  nodup : (D.map fun d => d.visitorId).Nodup
  visitors : ∀ x, x ∈ D.map (fun d => d.visitorId) ↔
    ∃ c a, r.users.lookup c = some a ∧ x = some a.visitorID
  connections : ∀ d ∈ D, 0 < d.connections ∧
    ∀ x, d.visitorId = some x → d.connections = r.connections x
  total : (D.map DisplayUser.connections).sum = GoMap.len r.users
  streaming : ∀ d ∈ D, d.streaming = true ↔
    ∃ c a, r.users.lookup c = some a ∧ d.visitorId = some a.visitorID ∧ a.streaming = true
  you : ∃ d ∈ D, d.you = true ∧ d.visitorId = some v.visitorID ∧ ∀ d' ∈ D, d'.you = true → d' = d
  owner : ∀ d ∈ D, ∀ d' ∈ D, d.owner = true → d'.owner = true → d = d'
  names : (D.map fun d => d.name).Nodup
  sorted : D.Pairwise fun d d' => d.rank < d'.rank

/-- An entry of the list, as the browser parses it. -/
def roomUser (env : Env) (y : Outgoing.User) : RoomUser where
  id := env.xidString y.id
  name := y.name
  visitorId := some y.visitorID
  streaming := y.streaming
  you := y.you
  owner := y.owner

theorem key_roomUser (env : Env) {y : Outgoing.User} (hy : y.visitorID ≠ "") :
    (roomUser env y).key = y.visitorID := if_neg hy

section Member

variable {env : Env} {R : String} {r : Screego.Room} {v : Screego.User} {L : List Outgoing.User}

/-- The roster, made from the users of the room. -/
theorem Roster.perm_range (hL : Roster r v L) :
    L.Perm ((range RangeOrder.increasing r.users).map fun e => entryFor v e.1 e.2) := by
  have hnodup : ((range RangeOrder.increasing r.users).map fun e => entryFor v e.1 e.2).Nodup := by
    refine List.Nodup.of_map Outgoing.User.id ?_
    rw [List.map_map]
    exact nodup_range_keys RangeOrder.increasing r.users
  rw [List.perm_ext_iff_of_nodup hL.nodup_list hnodup]
  intro y
  rw [hL.entries, List.mem_map]
  constructor
  · rintro ⟨c, a, ha, rfl⟩
    exact ⟨(c, a), (mem_range _ _).mpr ha, rfl⟩
  · rintro ⟨⟨c, a⟩, ha, rfl⟩
    exact ⟨c, a, (mem_range _ _).mp ha, rfl⟩

/-- The entries of a roster, as the browser parses them. -/
theorem Roster.mem_roomUser (hR : RoomOk R r) (hL : Roster r v L) {b : RoomUser}
    (hb : b ∈ L.map (roomUser env)) : ∃ c a, r.users.lookup c = some a ∧ a.visitorID ≠ "" ∧
      b = roomUser env (entryFor v c a) ∧ b.key = a.visitorID := by
  obtain ⟨y, hy, rfl⟩ := List.mem_map.mp hb
  obtain ⟨c, a, ha, rfl⟩ := (hL.entries y).mp hy
  have hne := (hR.user c a ha).2.2
  exact ⟨c, a, ha, hne, rfl, key_roomUser env hne⟩

variable (env) in
theorem Roster.roomUser_mem (hL : Roster r v L) {c : XID} {a : Screego.User}
    (ha : r.users.lookup c = some a) : roomUser env (entryFor v c a) ∈ L.map (roomUser env) :=
  List.mem_map_of_mem ((hL.entries _).mpr ⟨c, a, ha, rfl⟩)

/-- **The users of a room fit each other**, in the list of any member. -/
theorem Roster.coherent (hR : RoomOk R r) (hr : r.Visitors) (hL : Roster r v L) (env : Env) :
    Coherent (L.map (roomUser env)) where
  name b hb b' hb' := by
    obtain ⟨c, a, ha, -, rfl, hkey⟩ := hL.mem_roomUser hR hb
    obtain ⟨c', a', ha', -, rfl, hkey'⟩ := hL.mem_roomUser hR hb'
    rw [hkey, hkey']
    exact (hr.fits c c' a a' ha ha').name
  owner b hb b' hb' hkeys := by
    obtain ⟨c, a, ha, -, rfl, hkey⟩ := hL.mem_roomUser hR hb
    obtain ⟨c', a', ha', -, rfl, hkey'⟩ := hL.mem_roomUser hR hb'
    rw [hkey, hkey'] at hkeys
    exact (hr.fits c c' a a' ha ha').owner hkeys
  sorted := List.pairwise_map.mpr hL.sorted

/-- The number of entries of a visitor. -/
theorem Roster.countP_key (hR : RoomOk R r) (hL : Roster r v L) (x : String) :
    (L.map (roomUser env)).countP (fun b => b.key = x) = r.connections x := by
  rw [List.countP_map, hL.perm_range.countP_eq, List.countP_map, Room.connections]
  refine List.countP_congr fun e he => ?_
  have hne := (hR.user e.1 e.2 ((mem_range _ _).mp he)).2.2
  simp only [Function.comp_apply, decide_eq_true_eq]
  rw [key_roomUser env (y := entryFor v e.1 e.2) hne]
  rfl

theorem mem_aggregateUsers {users : List RoomUser} {d : DisplayUser} :
    d ∈ aggregateUsers users ↔ ∃ b ∈ firsts RoomUser.key users, merged users b = d := by
  rw [aggregateUsers_eq, List.mem_map]

theorem Roster.visitorId_eq (hR : RoomOk R r) (hL : Roster r v L) {b : RoomUser}
    (hb : b ∈ L.map (roomUser env)) : b.visitorId = some b.key := by
  obtain ⟨c, a, -, -, rfl, hkey⟩ := hL.mem_roomUser hR hb
  rw [hkey]
  rfl

/-- What holds of some entry with a key holds of some user of that visitor. -/
theorem Roster.any_key (hR : RoomOk R r) (hL : Roster r v L) {b : RoomUser}
    (hb : b ∈ L.map (roomUser env)) (p : RoomUser → Bool) :
    ((L.map (roomUser env)).any fun a => a.key = b.key && p a) = true ↔
      ∃ c a, r.users.lookup c = some a ∧ b.visitorId = some a.visitorID ∧
        p (roomUser env (entryFor v c a)) = true := by
  obtain ⟨c, a, ha, hne, rfl, hkey⟩ := hL.mem_roomUser hR hb
  simp only [List.any_eq_true, Bool.and_eq_true, decide_eq_true_eq, hkey]
  constructor
  · rintro ⟨b', hb', hkeys, hp⟩
    obtain ⟨c', a', ha', -, rfl, hkey'⟩ := hL.mem_roomUser hR hb'
    exact ⟨c', a', ha', congrArg some (hkeys.symm.trans hkey'), hp⟩
  · rintro ⟨c', a', ha', hvis, hp⟩
    refine ⟨_, hL.roomUser_mem env ha', ?_, hp⟩
    rw [key_roomUser env (y := entryFor v c' a') (hR.user c' a' ha').2.2]
    exact (Option.some.inj hvis).symm

/-- **One entry for a visitor.** -/
theorem Roster.eq_of_visitorId (hR : RoomOk R r) (hL : Roster r v L) {d d' : DisplayUser}
    (hd : d ∈ aggregateUsers (L.map (roomUser env)))
    (hd' : d' ∈ aggregateUsers (L.map (roomUser env))) (he : d.visitorId = d'.visitorId) : d = d' := by
  obtain ⟨b, hb, rfl⟩ := mem_aggregateUsers.mp hd
  obtain ⟨b', hb', rfl⟩ := mem_aggregateUsers.mp hd'
  have hvis : b.visitorId = some b.key := hL.visitorId_eq hR (mem_of_mem_firsts hb)
  have hvis' : b'.visitorId = some b'.key := hL.visitorId_eq hR (mem_of_mem_firsts hb')
  have hkeys : b.key = b'.key := Option.some.inj (hvis.symm.trans (he.trans hvis'))
  rw [List.inj_on_of_nodup_map (nodup_firsts RoomUser.key _) hb hb' hkeys]

variable (env) in
/-- **An entry for every user.** -/
theorem Roster.exists_display (hR : RoomOk R r) (hL : Roster r v L) {c : XID} {a : Screego.User}
    (ha : r.users.lookup c = some a) :
    ∃ d ∈ aggregateUsers (L.map (roomUser env)), d.visitorId = some a.visitorID := by
  obtain ⟨b, hb, hkey⟩ := exists_firsts RoomUser.key (hL.roomUser_mem env ha)
  refine ⟨_, mem_aggregateUsers.mpr ⟨b, hb, rfl⟩, ?_⟩
  refine (hL.visitorId_eq hR (mem_of_mem_firsts hb)).trans ?_
  rw [hkey, key_roomUser env (y := entryFor v c a) (hR.user c a ha).2.2]
  rfl

/-- The entry marked `You` is that of the member. -/
theorem Roster.you_iff {m : XID} (hR : RoomOk R r) (hv : r.users.lookup m = some v)
    (hL : Roster r v L) {d : DisplayUser} (hd : d ∈ aggregateUsers (L.map (roomUser env))) :
    d.you = true ↔ d.visitorId = some v.visitorID := by
  obtain ⟨b, hb, rfl⟩ := mem_aggregateUsers.mp hd
  refine (hL.any_key hR (mem_of_mem_firsts hb) RoomUser.you).trans ?_
  constructor
  · rintro ⟨c, a, -, hvis, hy⟩
    exact hvis.trans (congrArg some (of_decide_eq_true hy))
  · exact fun hvis => ⟨m, v, hv, hvis, decide_eq_true rfl⟩

/-- The visitor ids of the entries are those of the first users with a key. -/
theorem Roster.map_visitorId (hR : RoomOk R r) (hL : Roster r v L) :
    (aggregateUsers (L.map (roomUser env))).map (fun d => d.visitorId) =
      ((firsts RoomUser.key (L.map (roomUser env))).map RoomUser.key).map some := by
  rw [aggregateUsers_eq, List.map_map, List.map_map]
  refine List.map_congr_left fun b hb => ?_
  have hvis : b.visitorId = some b.key := hL.visitorId_eq hR (mem_of_mem_firsts hb)
  exact hvis

/-- **The list a member is sent is aggregated exactly.** -/
theorem Roster.exact {m : XID} (hR : RoomOk R r) (hr : r.Visitors) (hv : r.users.lookup m = some v)
    (hL : Roster r v L) (env : Env) : Exact r v (aggregateUsers (L.map (roomUser env))) where
  nodup := by
    rw [hL.map_visitorId hR]
    exact (nodup_firsts RoomUser.key _).map (Option.some_injective _)
  visitors x := by
    rw [List.mem_map]
    constructor
    · rintro ⟨d, hd, rfl⟩
      obtain ⟨b, hb, rfl⟩ := mem_aggregateUsers.mp hd
      obtain ⟨c, a, ha, -, rfl, -⟩ := hL.mem_roomUser hR (mem_of_mem_firsts hb)
      exact ⟨c, a, ha, rfl⟩
    · rintro ⟨c, a, ha, rfl⟩
      exact hL.exists_display env hR ha
  connections d hd := by
    obtain ⟨b, hb, rfl⟩ := mem_aggregateUsers.mp hd
    have hbU := mem_of_mem_firsts hb
    refine ⟨List.countP_pos_iff.mpr ⟨b, hbU, by simp⟩, fun x hx => ?_⟩
    obtain rfl : b.key = x := Option.some.inj ((hL.visitorId_eq hR hbU).symm.trans hx)
    exact hL.countP_key hR b.key
  total := by
    have hsum := sum_countP_firsts RoomUser.key (L.map (roomUser env))
    rw [aggregateUsers_eq, List.map_map]
    refine hsum.trans ?_
    rw [List.length_map, hL.perm_range.length_eq, List.length_map, length_range]
  streaming d hd := by
    obtain ⟨b, hb, rfl⟩ := mem_aggregateUsers.mp hd
    exact hL.any_key hR (mem_of_mem_firsts hb) RoomUser.streaming
  you := by
    obtain ⟨d, hd, hvis⟩ := hL.exists_display env hR hv
    refine ⟨d, hd, (hL.you_iff hR hv hd).mpr hvis, hvis, fun d' hd' hy => ?_⟩
    exact hL.eq_of_visitorId hR hd' hd (((hL.you_iff hR hv hd').mp hy).trans hvis.symm)
  owner d hd d' hd' ho ho' := by
    refine hL.eq_of_visitorId hR hd hd' ?_
    obtain ⟨b, hb, rfl⟩ := mem_aggregateUsers.mp hd
    obtain ⟨b', hb', rfl⟩ := mem_aggregateUsers.mp hd'
    obtain ⟨c, a, ha, hvis, hown⟩ := (hL.any_key hR (mem_of_mem_firsts hb) RoomUser.owner).mp ho
    obtain ⟨c', a', ha', hvis', hown'⟩ := (hL.any_key hR (mem_of_mem_firsts hb') RoomUser.owner).mp ho'
    refine (hvis.trans ?_).trans hvis'.symm
    exact congrArg some ((hr.fits c c' a a' ha ha').visitorID hown hown')
  names := (hL.coherent hR hr env).names
  sorted := (hL.coherent hR hr env).strict

/-- **Aggregation is exact**: the browser of any member merges the list it is sent into one entry for
every visitor of the room. -/
theorem aggregation_is_exact (env : Env) : (server env).Always fun w =>
    ∀ R r, w.rooms.rooms.lookup R = some r → ∀ ch m v, r.users.lookup m = some v →
      heard m (r.notifyInfoChanged ch) = [.room (r.infoFor ch (m, v))] ∧
      Exact r v (aggregateUsers ((r.infoFor ch (m, v)).users.map (roomUser env))) := by
  refine (server_visitorsOk env).mono fun w hw R r hr ch m v hv => ?_
  have hR := hw.1.inv.room R r hr
  refine ⟨?_, (hR.roster hv ch).exact hR (hw.2 R r hr) hv env⟩
  rw [heard_notifyInfoChanged hR.keyed, Room.news_of_lookup hv]

end Member

end Screego
