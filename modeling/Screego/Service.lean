import Mathlib.Order.Lattice.Nat
import Screego.Lib.System

/-!
# What the server is for

A room service, without sessions, ids, credentials or orders of loops: clients wait in a lobby or are
members of a room, where they are known by their visitor, and some of them show their screens.

* `Service.Room`, `Room.founded`, `Room.enter`, `Room.stream`, `Room.leave`;
* `Room.Watches`: who sees whose screen;
* `Service`, `Service.Request`, `Service.request`: what a client may ask for. Whatever it asks in vain
  makes it leave;
* `service`: the machine.
-/

set_option autoImplicit false

namespace Screego

open Lib

open scoped Classical

/-- A member of a room: one of the connections of a visitor. -/
structure Member (V : Type) where
  visitor : V
  streaming : Bool

/-- **A room of the service.** -/
structure Service.Room (C V : Type) where
  mode : String
  closesWithOwner : Bool
  members : C → Option (Member V)
  /-- The visitor that has founded the room, as long as it is there. -/
  owner : Option V
  /-- The number that a visitor in the room goes by. -/
  number : V → Option ℕ

namespace Service.Room

variable {C V : Type} [DecidableEq C] [DecidableEq V] (r : Room C V)

/-- The visitor is in the room. -/
def Present (v : V) : Prop := ∃ c m, r.members c = some m ∧ m.visitor = v

/-- **The viewer sees the host's screen.** -/
def Watches (host viewer : C) : Prop :=
  host ≠ viewer ∧ r.members viewer ≠ none ∧ ∃ m, r.members host = some m ∧ m.streaming = true

/-- The least number that nobody in the room goes by. -/
noncomputable def freeNumber : ℕ := sInf {k | 1 ≤ k ∧ ∀ v, r.number v ≠ some k}

/-- A new room, with its founder in it. -/
noncomputable def founded (c : C) (v : V) (mode : String) (closesWithOwner : Bool) : Room C V where
  mode := mode
  closesWithOwner := closesWithOwner
  members := Function.update (fun _ => none) c (some ⟨v, false⟩)
  owner := some v
  number := Function.update (fun _ => none) v (some 1)

/-- A connection of the visitor `v` enters. -/
noncomputable def enter (c : C) (v : V) : Room C V :=
  { r with
    members := Function.update r.members c (some ⟨v, false⟩)
    number := if r.Present v then r.number else Function.update r.number v (some r.freeNumber) }

/-- A member begins or ends to show its screen. -/
noncomputable def stream (c : C) (b : Bool) : Room C V :=
  { r with members := Function.update r.members c ((r.members c).map fun m => ⟨m.visitor, b⟩) }

/-- The room without a member. A visitor whose last connection it was loses its number, and the
room with it. -/
noncomputable def without (c : C) : Room C V :=
  let rest : Room C V := { r with members := Function.update r.members c none }
  { rest with
    owner := if ∀ v, r.owner = some v → rest.Present v then r.owner else none
    number := fun v => if rest.Present v then r.number v else none }

/-- **A member leaves**: with the last one, and with the owner where the room needs it, the room is
gone. -/
noncomputable def leave (c : C) : Option (Room C V) :=
  match r.members c with
  | none => some r
  | some m =>
    if r.closesWithOwner = true ∧ r.owner = some m.visitor ∧ ¬ (r.without c).Present m.visitor ∨
      ∀ c', (r.without c).members c' = none then none
    else some (r.without c)

end Service.Room

/-- **The room service**, for clients `C`, visitors `V` and room names `K`. -/
structure Service (C V K : Type) where
  lobby : Set C
  rooms : K → Option (Service.Room C V)

namespace Service

variable {C V K : Type} [DecidableEq C] [DecidableEq V] [DecidableEq K]

/-- What a client asks for. -/
inductive Request (C V K : Type) where
  /-- To create a room, and to join the one that is there if `joinIfExist`. -/
  | create (R : K) (v : V) (mode : String) (closesWithOwner joinIfExist allowed : Bool)
  | join (R : K) (v : V)
  | share
  | unshare
  /-- To be told who is in the room. -/
  | look
  /-- To send something on a connection to another member, as the member `side`. -/
  | signal (side : Option C)
  | leave

variable (s : Service C V K)

/-- The client is in a room. -/
def Seated (c : C) : Prop := ∃ R r, s.rooms R = some r ∧ r.members c ≠ none

/-- The client leaves the service. -/
noncomputable def leave (c : C) : Service C V K where
  lobby := s.lobby \ {c}
  rooms R := (s.rooms R).bind fun r => r.leave c

/-- The client goes from the lobby to the room `r`. -/
noncomputable def seat (c : C) (R : K) (r : Room C V) : Service C V K where
  lobby := s.lobby \ {c}
  rooms := Function.update s.rooms R (some r)

/-- The client's room changes. -/
noncomputable def change (c : C) (f : Room C V → Room C V) : Service C V K where
  lobby := s.lobby
  rooms R := (s.rooms R).map fun r => if r.members c = none then r else f r

omit [DecidableEq K] in
@[simp] theorem rooms_leave (c : C) (R : K) :
    (s.leave c).rooms R = (s.rooms R).bind fun r => r.leave c := rfl

omit [DecidableEq C] [DecidableEq V] in
@[simp] theorem rooms_seat (c : C) (R R' : K) (r : Room C V) :
    (s.seat c R r).rooms R' = if R' = R then some r else s.rooms R' := Function.update_apply _ _ _ _

omit [DecidableEq C] [DecidableEq V] [DecidableEq K] in
@[simp] theorem rooms_change (c : C) (f : Room C V → Room C V) (R : K) :
    (s.change c f).rooms R = (s.rooms R).map fun r => if r.members c = none then r else f r := rfl

/-- **A request**, when there is an address to connect by or not. -/
noncomputable def request (c : C) (available : Bool) : Request C V K → Service C V K
  | .create R v mode closesWithOwner joinIfExist allowed =>
    match s.rooms R with
    | some r =>
      if c ∈ s.lobby ∧ joinIfExist = true ∧ available = true then s.seat c R (r.enter c v)
      else s.leave c
    | none =>
      if c ∈ s.lobby ∧ allowed = true then s.seat c R (.founded c v mode closesWithOwner)
      else s.leave c
  | .join R v =>
    match s.rooms R with
    | some r => if c ∈ s.lobby ∧ available = true then s.seat c R (r.enter c v) else s.leave c
    | none => s.leave c
  | .share => if s.Seated c ∧ available = true then s.change c fun r => r.stream c true else s.leave c
  | .unshare => if s.Seated c then s.change c fun r => r.stream c false else s.leave c
  | .look => if s.Seated c then s else s.leave c
  | .signal side => if s.Seated c ∧ ∀ x, side = some x → x = c then s else s.leave c
  | .leave => s.leave c

section

variable {s} {c : C} {available : Bool}

/-- Whoever is not in the lobby enters no room. -/
theorem request_join_of_notMem (hc : c ∉ s.lobby) (R : K) (v : V) :
    s.request c available (.join R v) = s.leave c := by
  simp only [request]
  split
  · exact if_neg fun h => hc h.1
  · rfl

theorem request_create_of_notMem (hc : c ∉ s.lobby) (R : K) (v : V) (mode : String)
    (closesWithOwner joinIfExist allowed : Bool) :
    s.request c available (.create R v mode closesWithOwner joinIfExist allowed) = s.leave c := by
  simp only [request]
  split
  · exact if_neg fun h => hc h.1
  · exact if_neg fun h => hc h.1

omit [DecidableEq K] in
/-- Nobody is asked to leave in vain. -/
theorem leave_of_gone (hc : c ∉ s.lobby) (hs : ¬ s.Seated c) : s.leave c = s := by
  have hlobby : s.lobby \ {c} = s.lobby := Set.sdiff_singleton_eq_self hc
  have hrooms : ∀ R, (s.rooms R).bind (fun r => r.leave c) = s.rooms R := by
    intro R
    cases hr : s.rooms R with
    | none => rfl
    | some r =>
      have hm : r.members c = none := by
        by_contra hm
        exact hs ⟨R, r, hr, hm⟩
      rw [Option.bind_some, Room.leave, hm]
  rw [leave, hlobby]
  exact congrArg _ (funext hrooms)

/-- Whoever is gone changes nothing. -/
theorem request_of_gone (hc : c ∉ s.lobby) (hs : ¬ s.Seated c) (r : Request C V K) :
    s.request c available r = s := by
  have hleave := leave_of_gone hc hs
  cases r with
  | create R v mode closes joinIfExist allowed => rw [request_create_of_notMem hc, hleave]
  | join R v => rw [request_join_of_notMem hc, hleave]
  | share | signal => rw [request, if_neg fun h => hs h.1, hleave]
  | unshare | look => rw [request, if_neg hs, hleave]
  | leave => exact hleave

end

/-- What happens to the service. -/
inductive Act (C V K : Type) where
  | connect (c : C)
  | request (c : C) (available : Bool) (r : Request C V K)

/-- **One act.** -/
noncomputable def act : Act C V K → Service C V K
  | .connect c => { s with lobby := insert c s.lobby }
  | .request c available r => s.request c available r

end Service

/-- **The machine of the service.** -/
noncomputable def service (C V K : Type) [DecidableEq C] [DecidableEq V] [DecidableEq K] :
    Machine (Service C V K) (Service.Act C V K) where
  init := ⟨∅, fun _ => none⟩
  step s a := some (s.act a)

end Screego
