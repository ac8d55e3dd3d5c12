import Screego.Run

/-!
# What one client hears

The messages of one step, as the client `u` hears them.

* `Room.news`: the member list of a room, for a user of it;
* `heard_notifyInfoChanged`, `heard_close`, `heard_endShares`, `heard_ownerLeft`: the pieces of the
  output;
* `Every`: what holds of every message handed out, by the kinds of messages in a piece.
-/

set_option autoImplicit false

namespace Screego

open Lib Outgoing

variable {env : Env} {ch : Choice} {u c : XID} {r : Room}

@[simp] theorem heard_nil (u : XID) : heard u [] = [] := rfl

@[simp] theorem heard_append (u : XID) (l l' : List Send) :
    heard u (l ++ l') = heard u l ++ heard u l' := List.filterMap_append

theorem heard_cons (u : XID) (x : Send) (l : List Send) :
    heard u (x :: l) = (x.heardBy u).toList ++ heard u l := by
  rw [heard, List.filterMap_cons]
  cases x.heardBy u <;> rfl

theorem mem_heard {m : Message} {l : List Send} : m ∈ heard u l ↔ .write ⟨u⟩ m ∈ l := by
  rw [heard, List.mem_filterMap]
  constructor
  · rintro ⟨x, hx, hm⟩
    cases x with
    | write ch m' =>
      simp only [Send.heardBy] at hm
      split_ifs at hm with hch
      cases hm
      exact hch ▸ hx
    | respond n => simp [Send.heardBy] at hm
  · intro hx
    exact ⟨_, hx, by simp [Send.heardBy]⟩

/-- The users of the room are known by their keys, also to the channels. -/
def Room.Keyed (r : Room) : Prop := ∀ c v, r.users.lookup c = some v → v.id = c ∧ v.write = ⟨c⟩

theorem RoomOk.keyed {R : String} (h : RoomOk R r) : r.Keyed := fun c v hv =>
  ⟨(h.user c v hv).1, (h.user c v hv).2.1⟩

theorem Room.Keyed.without (h : r.Keyed) (c : XID) : (r.without c).Keyed := fun c' v hv => by
  rw [lookup_without] at hv
  split_ifs at hv
  exact h c' v hv

/-! ## The pieces of the output -/

/-- The member list of the room, if `u` is a user of it. -/
def Room.news (ch : Choice) (r : Room) (u : XID) : List Message :=
  ((r.users.lookup u).map fun v => Message.room (r.infoFor ch (u, v))).toList

theorem Room.news_of_lookup {v : User} (hv : r.users.lookup u = some v) :
    r.news ch u = [.room (r.infoFor ch (u, v))] := by
  rw [Room.news, hv]
  rfl

theorem Room.news_of_notMem (hu : u ∉ r.users) : r.news ch u = [] := by
  rw [Room.news, Finmap.lookup_eq_none.mpr hu]
  rfl

theorem heard_notifyInfoChanged (h : r.Keyed) (u : XID) :
    heard u (r.notifyInfoChanged ch) = r.news ch u := by
  rw [Room.news, ← filterMap_range_key (ch.order .notify) r.users
    (fun e => Message.room (r.infoFor ch e)) u]
  rw [heard, Room.notifyInfoChanged, List.filterMap_map]
  refine List.filterMap_congr fun e he => ?_
  have hw := (h e.1 e.2 ((mem_range _ _).mp he)).2
  simp [Send.heardBy, hw]

theorem heard_close (e : Disconnected) (c u : XID) (l : List Send) :
    heard u (e.close c :: l) =
      (if c = u then [.closeWriter e.code e.reason] else []) ++ heard u l := by
  rw [heard_cons]
  by_cases hc : c = u <;> simp [Disconnected.close, Send.heardBy, hc]

theorem heard_endShares (peer : RoomSession → XID) (L : List (XID × RoomSession)) (u : XID) :
    heard u (endShares peer L) =
      (L.filter fun a => peer a.2 = u).map fun a => Message.endShare a.1 := by
  induction L with
  | nil => rfl
  | cons a L ih =>
    rw [endShares, List.map_cons, heard_cons, ← endShares, ih]
    by_cases ha : peer a.2 = u <;> simp [Send.heardBy, ha]

/-- The owner's departure is told to every member that is left. -/
theorem heard_ownerLeft (h : r.Keyed) (c u : XID) :
    heard u (ownerLeft (r.members ch c)) =
      if u ∈ (r.without c).users then [.closeWriter closeNormalClosure closeOwnerLeft] else [] := by
  have hk := filterMap_range_key (ch.order .ownerLeft) (r.without c).users
    (fun _ => Message.closeWriter closeNormalClosure closeOwnerLeft) u
  have hh : heard u (ownerLeft (r.members ch c)) =
      (range (ch.order .ownerLeft) (r.without c).users).filterMap fun e =>
        if e.1 = u then some (Message.closeWriter closeNormalClosure closeOwnerLeft) else none := by
    rw [heard, ownerLeft, List.filterMap_map, Room.members]
    refine List.filterMap_congr fun e he => ?_
    have hw := (h.without c e.1 e.2 ((mem_range _ _).mp he)).2
    simp [Send.heardBy, hw]
  rw [hh, hk]
  split_ifs with hu
  · obtain ⟨v, hv⟩ := Finmap.mem_iff.mp hu
    rw [hv]
    rfl
  · rw [Finmap.lookup_eq_none.mpr hu]
    rfl

/-! ## The kinds of messages -/

/-- Every message handed out satisfies `p`. -/
def Every (p : Message → Prop) (sent : List Send) : Prop := ∀ ch m, .write ch m ∈ sent → p m

section Every

variable {p : Message → Prop}

theorem every_nil : Every p [] := fun _ _ hm => absurd hm List.not_mem_nil

theorem Every.append {l l' : List Send} (h : Every p l) (h' : Every p l') : Every p (l ++ l') :=
  fun ch m hm => (List.mem_append.mp hm).elim (h ch m) (h' ch m)

theorem Every.heard {l : List Send} (h : Every p l) (u : XID) : ∀ m ∈ heard u l, p m :=
  fun m hm => h _ m (mem_heard.mp hm)

theorem every_notify (h : ∀ q, p (.room q)) (ch : Choice) (r : Room) :
    Every p (r.notifyInfoChanged ch) := by
  intro c m hm
  obtain ⟨v, -, hv⟩ := List.mem_map.mp hm
  cases hv
  exact h _

theorem every_announce (hhost : ∀ q, p (.hostSession q)) (hclient : ∀ q, p (.clientSession q))
    (v4 v6 : Option IP) (mode : ConnectionMode) (turn : Turn.Server) (A : List (XID × RoomSession)) :
    Every p (A.flatMap (announce env ch v4 v6 mode turn)) := by
  intro c m hm
  obtain ⟨a, -, hy⟩ := List.mem_flatMap.mp hm
  rcases List.mem_cons.mp hy with hy | hy
  · cases hy
    exact hhost _
  · cases List.mem_singleton.mp hy
    exact hclient _

theorem every_endShares (h : ∀ id, p (.endShare id)) (peer : RoomSession → XID)
    (L : List (XID × RoomSession)) : Every p (endShares peer L) := by
  intro c m hm
  obtain ⟨a, -, ha⟩ := List.mem_map.mp hm
  cases ha
  exact h _

theorem every_ownerLeft (h : ∀ code reason, p (.closeWriter code reason)) (M : List (XID × User)) :
    Every p (ownerLeft M) := by
  intro c m hm
  obtain ⟨v, -, hv⟩ := List.mem_map.mp hm
  cases hv
  exact h _ _

theorem every_close (h : ∀ code reason, p (.closeWriter code reason)) (d : Disconnected) (c : XID) :
    Every p [d.close c] := by
  intro ch m hm
  cases List.mem_singleton.mp hm
  exact h _ _

theorem every_signal {k : Signal} {m : P2PMessage} (h : p (k.message m)) (u : XID) :
    Every p [.write ⟨u⟩ (k.message m)] := by
  intro ch m' hm
  cases List.mem_singleton.mp hm
  exact h

end Every

end Screego
