import Screego.Connections

/-!
# No ghost connections

The main loop and the connections together, in any order of their steps.

* `Process.Gone`: a client that is not connected, and will not be; `Process.Leaving`: the main loop
  is about to disconnect the client;
* **`Process.Ok`**: the invariant. `Process.Sound` ties the actions that the main loop has left to
  do to the clients: whose writer closes is gone. `Process.Watched`: a client whose `once` has run
  is gone, or something will remove it;
* `Process.Ok.step`: every step keeps it, one lemma a move; `Process.Ok.removes`: the main loop can
  take a `Disconnected` that waits, and then removes the client;
* **`no_ghost_connections`**.
-/

set_option autoImplicit false

namespace Screego

open Lib Outgoing

/-! ## The invariant of the process -/

/-- The action is about the client `c`. -/
def Action.Concerns (c : XID) : Action → Prop
  | connect c' _ => c' = c
  | disconnect c' => c' = c
  | put x => x.Closes c

namespace Process

/-- **The client is not connected**, and will not be. -/
def Gone (p : Process) (c : XID) : Prop := c ∉ p.connected ∧ ∀ R, .connect c R ∉ p.todo

/-- The next thing the main loop does is to disconnect the client. -/
def Leaving (p : Process) (c : XID) : Prop := ∃ rest, p.todo = .disconnect c :: rest

/-- **The main loop, and what it has to do with the connections.** -/
structure Sound (env : Env) (p : Process) : Prop where
  inv : Inv env p.rooms
  connected : replay p.connected p.todo = p.rooms.connected
  orderly : Orderly p.connected p.todo
  info : ∀ c k, p.clients.lookup c = some k → k.info.id = c ∧ k.info.write = ⟨c⟩
  drawn : ∀ c, c ∈ p.clients → env.Drawn p.rooms.drawn c
  client : ∀ c k, p.clients.lookup c = some k → k.Ok
  known : ∀ c, c ∈ p.connected ∨ (∃ a ∈ p.todo, a.Concerns c) →
    ∃ k, p.clients.lookup c = some k ∧ k.upgrading = false
  finishing : ∀ c k, p.clients.lookup c = some k → k.Finishing → p.Gone c

/-- If `once` has run for the client, the client is gone, or a `Disconnected` will remove it. -/
def Watched (p : Process) (c : XID) (k : Client) : Prop :=
  k.done = true → p.Gone c ∨ k.Reporting ∨ p.Leaving c

/-- **The invariant of the process.** -/
structure Ok (env : Env) (p : Process) : Prop extends Sound env p where
  watched : ∀ c k, p.clients.lookup c = some k → p.Watched c k

variable {env : Env} {ch : Choice} {p p' : Process} {c : XID} {k k' : Client} {a : Action}
  {rest l : List Action} {t : Rooms}

/-- A client that the main loop knows is upgraded. -/
theorem Sound.upgraded (h : p.Sound env) (hk : p.clients.lookup c = some k)
    (hc : c ∈ p.connected ∨ ∃ a ∈ p.todo, a.Concerns c) : k.upgrading = false := by
  obtain ⟨k₁, hk₁, hup⟩ := h.known c hc
  rw [hk, Option.some.injEq] at hk₁
  exact hk₁ ▸ hup

/-! ## A client changes -/

theorem Sound.set (h : p.Sound env) (hk : p.clients.lookup c = some k) (hinfo : k'.info = k.info)
    (hup : k.upgrading = false → k'.upgrading = false) (hok : k'.Ok)
    (hfin : k'.Finishing → p.Gone c) : (p.set c k').Sound env where
  inv := h.inv
  connected := h.connected
  orderly := h.orderly
  info c' x hx := by
    rcases GoMap.lookup_insert_eq_some.mp hx with ⟨rfl, rfl⟩ | ⟨-, hx⟩
    · rw [hinfo]
      exact h.info c' k hk
    · exact h.info c' x hx
  drawn c' hc' := by
    have hmem := Finmap.mem_of_lookup_eq_some hk
    exact h.drawn c' ((GoMap.mem_insert_of_mem hmem k' c').mp hc')
  client c' x hx := by
    rcases GoMap.lookup_insert_eq_some.mp hx with ⟨rfl, rfl⟩ | ⟨-, hx⟩
    · exact hok
    · exact h.client c' x hx
  known c' hc' := by
    obtain ⟨x, hx, hxup⟩ := h.known c' hc'
    by_cases heq : c' = c
    · rw [heq, hk, Option.some.injEq] at hx
      exact ⟨k', GoMap.lookup_insert_eq_some.mpr (Or.inl ⟨heq, rfl⟩), hup (hx ▸ hxup)⟩
    · exact ⟨x, GoMap.lookup_insert_eq_some.mpr (Or.inr ⟨heq, hx⟩), hxup⟩
  finishing c' x hx hxfin := by
    rcases GoMap.lookup_insert_eq_some.mp hx with ⟨rfl, rfl⟩ | ⟨-, hx⟩
    · exact hfin hxfin
    · exact h.finishing c' x hx hxfin

/-- Only the client itself is to be watched. -/
theorem Ok.set (h : p.Ok env) (hsound : (p.set c k').Sound env) (hwatched : p.Watched c k') :
    (p.set c k').Ok env where
  toSound := hsound
  watched c' x hx := by
    rcases GoMap.lookup_insert_eq_some.mp hx with ⟨rfl, rfl⟩ | ⟨-, hx⟩
    · exact hwatched
    · exact h.watched c' x hx

/-! ## The main loop does an action -/

/-- The process after the action. -/
def after (p : Process) (a : Action) (rest : List Action) : Process :=
  { p with connected := a.after p.connected, todo := rest }

/-- Who is gone stays gone. -/
theorem Gone.after (hgone : p.Gone c) (htodo : p.todo = a :: rest) : (p.after a rest).Gone c := by
  rw [Gone, htodo] at hgone
  obtain ⟨hc, hconnect⟩ := hgone
  refine ⟨fun hmem => ?_, fun R hmem => hconnect R (List.mem_cons_of_mem _ hmem)⟩
  cases a with
  | connect c' R =>
    rcases Finmap.mem_insert.mp hmem with rfl | hmem
    · exact hconnect R List.mem_cons_self
    · exact hc hmem
  | disconnect c' => exact hc (Finmap.mem_erase.mp hmem).2
  | put x => exact hc hmem

/-- Who is disconnected is gone. -/
theorem Sound.gone_of_disconnect (h : p.Sound env) (htodo : p.todo = .disconnect c :: rest) :
    (p.after (.disconnect c) rest).Gone c := by
  have horderly := h.orderly
  rw [htodo] at horderly
  exact ⟨fun hmem => (Finmap.mem_erase.mp hmem).1 rfl, horderly.1⟩

/-- Whose writer is closed is gone. -/
theorem Sound.gone_of_closes (h : p.Sound env) {x : Send} (htodo : p.todo = .put x :: rest)
    (hx : x.Closes c) : p.Gone c := by
  have horderly := h.orderly
  rw [htodo] at horderly
  obtain ⟨hc, hconnect⟩ := horderly.1 c hx
  refine ⟨hc, fun R hmem => ?_⟩
  rw [htodo] at hmem
  rcases List.mem_cons.mp hmem with hmem | hmem
  · cases hmem
  · exact hconnect R hmem

theorem Sound.after (h : p.Sound env) (htodo : p.todo = a :: rest) :
    (p.after a rest).Sound env where
  inv := h.inv
  connected := by
    have hreplay := h.connected
    rwa [htodo, replay_cons] at hreplay
  orderly := by
    have horderly := h.orderly
    rw [htodo] at horderly
    cases a with
    | connect c R => exact horderly
    | disconnect c => exact horderly.2
    | put x => exact horderly.2
  info := h.info
  drawn := h.drawn
  client := h.client
  known c hc := by
    refine h.known c ?_
    rw [htodo]
    rcases hc with hc | ⟨b, hb, hbc⟩
    · cases a with
      | connect c' R =>
        rcases Finmap.mem_insert.mp hc with rfl | hc
        · exact Or.inr ⟨_, List.mem_cons_self, rfl⟩
        · exact Or.inl hc
      | disconnect c' => exact Or.inl (Finmap.mem_erase.mp hc).2
      | put x => exact Or.inl hc
    · exact Or.inr ⟨b, List.mem_cons_of_mem _ hb, hbc⟩
  finishing c k hk hfin := (h.finishing c k hk hfin).after htodo

theorem Ok.after (h : p.Ok env) (htodo : p.todo = a :: rest) : (p.after a rest).Ok env where
  toSound := h.toSound.after htodo
  watched c k hk hdone := by
    rcases h.watched c k hk hdone with hgone | hrep | ⟨rest', hleaving⟩
    · exact Or.inl (hgone.after htodo)
    · exact Or.inr (Or.inl hrep)
    · rw [htodo, List.cons.injEq] at hleaving
      obtain ⟨rfl, rfl⟩ := hleaving
      exact Or.inl (h.toSound.gone_of_disconnect htodo)

/-! ## The main loop begins with a message -/

theorem handle_eq_some {msg : ClientMessage} : p.handle env ch msg = some p' ↔
    p.todo = [] ∧ ∃ t sent, p.rooms.handle env ch msg = some (t, sent) ∧
      { p with rooms := t, todo := p.rooms.actions env ch msg } = p' := by
  simp only [Process.handle, Option.ite_none_right_eq_some, List.isEmpty_iff,
    Option.map_eq_some_iff, Prod.exists]

/-- Between two messages `connected` is what the handlers left. -/
theorem Sound.connected_eq (h : p.Sound env) (htodo : p.todo = []) :
    p.connected = p.rooms.connected := by
  have hreplay := h.connected
  rwa [htodo] at hreplay

theorem Sound.begin (h : p.Sound env) (htodo : p.todo = []) (hinv : Inv env t)
    (hdrawn : p.rooms.drawn ≤ t.drawn) (hreplay : replay p.rooms.connected l = t.connected)
    (horderly : Orderly p.rooms.connected l)
    (hknown : ∀ c, ∀ a ∈ l, a.Concerns c → ∃ k, p.clients.lookup c = some k ∧ k.upgrading = false)
    (hfin : ∀ c k, p.clients.lookup c = some k → k.Finishing → ∀ R, .connect c R ∉ l) :
    { p with rooms := t, todo := l }.Sound env := by
  rw [← h.connected_eq htodo] at hreplay horderly
  exact {
    inv := hinv
    connected := hreplay
    orderly := horderly
    info := h.info
    drawn := fun c hc => (h.drawn c hc).mono hdrawn
    client := h.client
    known := fun c hc => hc.elim (fun hc => h.known c (Or.inl hc)) fun ⟨a, ha, hac⟩ =>
      hknown c a ha hac
    finishing := fun c k hk hkfin => ⟨(h.finishing c k hk hkfin).1, hfin c k hk hkfin⟩ }

/-- **The main loop takes a message of a client.** -/
theorem Sound.message (h : p.Sound env) (hk : p.clients.lookup c = some k) {e : Event}
    (he : e.fromClient = true) (hp : p.handle env ch ⟨k.info, false, e⟩ = some p') :
    p'.Sound env ∧ p.todo = [] ∧ p'.clients = p.clients ∧ (∀ c', p.Gone c' → p'.Gone c') ∧
      ∀ d, e = .disconnected d → p'.Gone c ∨ p'.Leaving c := by
  obtain ⟨hid, hw⟩ := h.info c k hk
  have hw' : k.info.write = ⟨k.info.id⟩ := by rw [hw, hid]
  obtain ⟨htodo, t, sent, hhandle, rfl⟩ := handle_eq_some.mp hp
  obtain ⟨t₁, sent₁, hhandle₁, hacts, hstranger, hleaves⟩ := Rooms.actsOk ch h.inv hw' he
  obtain ⟨t₂, sent₂, hhandle₂, hch⟩ := handle_change ch h.inv hw' he
  rw [hhandle, Option.some.injEq, Prod.mk.injEq] at hhandle₁ hhandle₂
  obtain ⟨rfl, rfl⟩ := hhandle₁
  obtain ⟨rfl, rfl⟩ := hhandle₂
  have hconnected := h.connected_eq htodo
  have hconnects : ∀ c' R, .connect c' R ∈ p.rooms.actions env ch ⟨k.info, false, e⟩ →
      c' = c ∧ c ∈ p.connected := by
    intro c' R hmem
    refine ⟨(hacts.connects c' R hmem).trans hid, ?_⟩
    by_contra hc
    rw [hstranger (by rwa [hid, ← hconnected])] at hmem
    exact List.not_mem_nil hmem
  have hgone : ∀ c', p.Gone c' → ∀ R, .connect c' R ∉ p.rooms.actions env ch ⟨k.info, false, e⟩ :=
    fun c' hgone R hmem => by
      obtain ⟨rfl, hc⟩ := hconnects c' R hmem
      exact hgone.1 hc
  refine ⟨?_, htodo, rfl, fun c' hc' => ⟨hc'.1, hgone c' hc'⟩, fun d hd => ?_⟩
  · refine h.begin htodo (h.inv.change hw' hch) hch.drawn_le hacts.connected hacts.orderly ?_ ?_
    · intro c' a ha hac
      refine h.known c' (Or.inl ?_)
      cases a with
      | connect c₁ R =>
        obtain ⟨rfl, hc⟩ := hconnects c₁ R ha
        exact hac ▸ hc
      | disconnect c₁ => exact hac ▸ hconnected ▸ hacts.disconnects c₁ ha
      | put x => exact hconnected ▸ hacts.disconnects c' (hacts.closes x c' ha hac)
    · exact fun c' x hx hfin => hgone c' (h.finishing c' x hx hfin)
  · by_cases hc : c ∈ p.connected
    · obtain ⟨rest, hrest⟩ := hleaves (by rwa [hid, ← hconnected]) d hd
      exact Or.inr ⟨rest, by rw [← hid]; exact hrest⟩
    · refine Or.inl ⟨hc, fun R hmem => hc ?_⟩
      exact (hconnects c R hmem).2

/-- A message makes nobody unwatched who was watched. -/
theorem Watched.begin (hwatched : p.Watched c k) (htodo : p.todo = [])
    (hgone : p.Gone c → p'.Gone c) : p'.Watched c k := fun hdone => by
  rcases hwatched hdone with h | h | ⟨rest, h⟩
  · exact Or.inl (hgone h)
  · exact Or.inr (Or.inl h)
  · rw [htodo] at h
    cases h

/-! ## Every step -/

variable {m : Move}

/-- **`Upgrade` makes a client.** -/
theorem Ok.upgrade (h : p.Ok env) (addr : IP) (user : String) (authenticated : Bool)
    (hp : p.step env (.upgrade addr user authenticated) = some p') : p'.Ok env := by
  obtain rfl := Option.some.inj hp
  set c := env.xidNew p.rooms.drawn with hc
  set k : Client := { info := newClientInfo c addr user authenticated } with hk
  have hnew : c ∉ p.clients := fun hmem =>
    absurd (Env.drawn_xidNew.mp (h.drawn c hmem)) (lt_irrefl _)
  exact {
    inv := h.inv.draw
    connected := h.connected
    orderly := h.orderly
    info := fun c' x hx => by
      rcases GoMap.lookup_insert_eq_some.mp hx with ⟨rfl, rfl⟩ | ⟨-, hx⟩
      · exact ⟨rfl, rfl⟩
      · exact h.info c' x hx
    drawn := fun c' hc' => by
      rcases Finmap.mem_insert.mp hc' with rfl | hc'
      · exact Env.drawn_xidNew.mpr (Nat.lt_succ_self _)
      · exact (h.drawn c' hc').mono (Nat.le_succ _)
    client := fun c' x hx => by
      rcases GoMap.lookup_insert_eq_some.mp hx with ⟨rfl, rfl⟩ | ⟨-, hx⟩
      · exact .new _
      · exact h.client c' x hx
    known := fun c' hc' => by
      obtain ⟨x, hx, hxup⟩ := h.known c' hc'
      have hne : c' ≠ c := fun heq => hnew (heq ▸ Finmap.mem_of_lookup_eq_some hx)
      exact ⟨x, (Finmap.lookup_insert_of_ne _ hne).trans hx, hxup⟩
    finishing := fun c' x hx hfin => by
      rcases GoMap.lookup_insert_eq_some.mp hx with ⟨rfl, rfl⟩ | ⟨-, hx⟩
      · exact absurd hfin ((Client.Ok.new _).fresh rfl).2.2
      · exact h.finishing c' x hx hfin
    watched := fun c' x hx hdone => by
      rcases GoMap.lookup_insert_eq_some.mp hx with ⟨rfl, rfl⟩ | ⟨-, hx⟩
      · cases hdone
      · exact h.watched c' x hx hdone }

/-- **A connection goes on.** -/
theorem Ok.client_step (h : p.Ok env) {m : ClientMove}
    (hp : p.step env (.client c m) = some p') : p'.Ok env := by
  simp only [Process.step, Option.bind_eq_bind, Option.bind_eq_some_iff, Option.map_eq_some_iff]
    at hp
  obtain ⟨k, hk, k', hk', rfl⟩ := hp
  have hsteps := (h.client c k hk).step hk'
  have hfin : k'.Finishing → p.Gone c := fun hfin => h.finishing c k hk (hsteps.finishing hfin)
  refine h.set (h.toSound.set hk hsteps.info (fun _ => hsteps.upgraded.2) hsteps.ok hfin) ?_
  intro hdone
  rcases hsteps.done hdone with hdone | hrep | hfin
  · exact (h.watched c k hk hdone).imp_right (Or.imp_left hsteps.reporting)
  · exact Or.inr (Or.inl hrep)
  · exact Or.inl (h.finishing c k hk hfin)

/-- **The main loop does an action.** -/
theorem Ok.act (h : p.Ok env) {accepted : Bool} (hp : p.step env (.act accepted) = some p') :
    p'.Ok env := by
  cases htodo : p.todo with
  | nil => simp [Process.step, htodo] at hp
  | cons a rest =>
    have hafter := h.after htodo
    simp only [Process.step, htodo] at hp
    by_cases hwrite : accepted = true ∧ ∃ out x, a = .put (.write out x)
    · obtain ⟨rfl, out, x, rfl⟩ := hwrite
      simp only [Process.act, if_true] at hp
      cases hk : p.clients.lookup out.owner with
      | none => simp [hk] at hp
      | some k =>
        simp only [hk, Option.ite_none_right_eq_some, Option.some.injEq] at hp
        obtain ⟨-, rfl⟩ := hp
        have hgone : x.IsClose → p.Gone out.owner := fun hx =>
          h.toSound.gone_of_closes htodo ⟨rfl, hx⟩
        have hup : x.IsClose → k.upgrading = false := by
          intro hx
          have hmem : .put (.write out x) ∈ p.todo := htodo ▸ List.mem_cons_self
          exact h.upgraded hk (Or.inr ⟨_, hmem, rfl, hx⟩)
        have hok := (h.client _ k hk).put hup
        refine hafter.set (hafter.toSound.set hk rfl id hok ?_) (hafter.watched _ k hk)
        rintro (⟨y, hy, hclose⟩ | ha)
        · cases hy
          exact (hgone hclose).after htodo
        · exact (h.finishing _ k hk (Or.inr ha)).after htodo
    · obtain rfl : p.after a rest = p' := by
        cases a with
        | put x =>
          cases x with
          | write out x =>
            cases accepted with
            | true => exact absurd ⟨rfl, out, x, rfl⟩ hwrite
            | false => exact Option.some.inj hp
          | respond n => exact Option.some.inj hp
        | _ => exact Option.some.inj hp
      exact hafter

/-- The goroutines of a client start. -/
theorem Ok.start (h : p.Ok env) (hk : p.clients.lookup c = some k) (hup : k.upgrading = true) :
    (p.set c { k with upgrading := false }).Ok env := by
  obtain ⟨honce, hsingle, hfresh⟩ := h.client c k hk
  obtain ⟨-, hdone, hfin⟩ := hfresh hup
  refine h.set (h.toSound.set hk rfl (fun _ => rfl) ⟨honce, hsingle, ?_⟩ (absurd · hfin)) ?_
  · exact fun hup => by cases hup
  · exact fun hd => absurd (hd.symm.trans hdone) Bool.noConfusion

/-- **The main loop takes a `Connected`.** -/
theorem Ok.takeConnected (h : p.Ok env) (hp : p.step env (.takeConnected c ch) = some p') :
    p'.Ok env := by
  simp only [Process.step, Option.bind_eq_bind, Option.bind_eq_some_iff,
    Option.ite_none_right_eq_some] at hp
  obtain ⟨k, hk, hup, hp⟩ := hp
  obtain ⟨hid, -⟩ := h.info c k hk
  obtain ⟨-, hdone, hfin⟩ := (h.client c k hk).fresh hup
  have hset := h.start hk hup
  set k' : Client := { k with upgrading := false } with hk'
  have hlook : (p.set c k').clients.lookup c = some k' := Finmap.lookup_insert _
  obtain ⟨htodo, t, sent, hhandle, rfl⟩ := handle_eq_some.mp hp
  -- nobody is connected before the main loop has taken the `Connected`
  have hnew : c ∉ p.rooms.connected := by
    intro hc
    rw [← h.connected_eq htodo] at hc
    exact absurd (hup.symm.trans (h.upgraded hk (Or.inl hc))) Bool.noConfusion
  have hactions : p.rooms.actions env ch ⟨k.info, true, .connected⟩ = [.connect c ""] := by
    rw [Rooms.actions_connected (hid ▸ hnew), hid]
  obtain ⟨rfl, rfl⟩ : { p.rooms with connected := p.rooms.connected.insert c "" } = t ∧
      [] = sent := by
    rw [← hid]
    exact Prod.mk.inj (Option.some.inj hhandle)
  change Ok env { p.set c k' with
    rooms := { p.rooms with connected := p.rooms.connected.insert c "" },
    todo := p.rooms.actions env ch ⟨k.info, true, .connected⟩ }
  rw [hactions]
  refine ⟨hset.toSound.begin htodo ?_ le_rfl rfl trivial ?_ ?_, fun c' x hx => ?_⟩
  · exact h.inv.welcome (h.drawn c (Finmap.mem_of_lookup_eq_some hk)) hnew
  · intro c' a ha hac
    rw [List.mem_singleton.mp ha] at hac
    exact ⟨k', hac ▸ hlook, rfl⟩
  · intro c' x hx hxfin R hmem
    obtain ⟨rfl, -⟩ : c' = c ∧ R = "" := by simpa using hmem
    rw [hlook] at hx
    cases hx
    exact hfin hxfin
  · by_cases heq : c' = c
    · rw [heq, hlook] at hx
      cases hx
      exact fun hd => absurd (hd.symm.trans hdone) Bool.noConfusion
    · refine (hset.watched c' x hx).begin htodo fun hgone => ⟨hgone.1, fun R hmem => heq ?_⟩
      exact (by simpa using hmem : c' = c ∧ R = "").1

/-- **The main loop takes what a reader sends.** -/
theorem Ok.take (h : p.Ok env) (hp : p.step env (.take c ch) = some p') : p'.Ok env := by
  simp only [Process.step, Option.bind_eq_bind, Option.bind_eq_some_iff] at hp
  obtain ⟨k, hk, e, he, hp⟩ := hp
  have hset : (p.set c { k with sending := none }).Ok env :=
    h.set (h.toSound.set hk rfl id
      ⟨(h.client c k hk).once, (h.client c k hk).single, (h.client c k hk).fresh⟩
      (h.finishing c k hk)) (h.watched c k hk)
  obtain ⟨hsound, htodo, hclients, hgone, -⟩ :=
    hset.toSound.message (Finmap.lookup_insert _) e.fromClient hp
  refine ⟨hsound, fun c' x hx => ?_⟩
  rw [hclients] at hx
  exact (hset.watched c' x hx).begin htodo (hgone c')

theorem Sound.taken (h : p.Sound env) (hk : p.clients.lookup c = some k) (i : ℕ) :
    (p.set c (k.taken i)).Sound env :=
  h.set hk rfl id ⟨(h.client c k hk).once, (h.client c k hk).single, (h.client c k hk).fresh⟩
    (h.finishing c k hk)

/-- **The main loop takes a `Disconnected`.** -/
theorem Ok.takeReport (h : p.Ok env) {i : ℕ} (hp : p.step env (.takeReport c i ch) = some p') :
    p'.Ok env := by
  simp only [Process.step, Option.bind_eq_bind, Option.bind_eq_some_iff] at hp
  obtain ⟨k, hk, d, hd, hp⟩ := hp
  have hset := h.toSound.taken hk i
  obtain ⟨hsound, htodo, hclients, hgone, hleaves⟩ :=
    hset.message (Finmap.lookup_insert _) (e := .disconnected d) rfl hp
  refine ⟨hsound, fun c' x hx => ?_⟩
  rw [hclients] at hx
  rcases GoMap.lookup_insert_eq_some.mp hx with ⟨rfl, rfl⟩ | ⟨-, hx⟩
  · exact fun _ => (hleaves d rfl).imp_right Or.inr
  · exact (h.watched c' x hx).begin htodo (hgone c')

/-- **The main loop takes a `Health`.** -/
theorem Ok.takeHealth (h : p.Ok env) (hp : p.step env (.takeHealth ch) = some p') :
    p'.Ok env := by
  obtain ⟨htodo, t, sent, hhandle, rfl⟩ := handle_eq_some.mp hp
  obtain ⟨rfl, rfl⟩ : p.rooms = t ∧ [.respond (GoMap.len p.rooms.connected)] = sent :=
    Prod.mk.inj (Option.some.inj hhandle)
  rw [Rooms.actions_health]
  have hconnect : ∀ c R, .connect c R ∉ [Action.put (.respond (GoMap.len p.rooms.connected))] :=
    fun c R hmem => by simp at hmem
  refine ⟨h.toSound.begin htodo h.inv le_rfl rfl ⟨fun c hc => hc.elim, trivial⟩ ?_ ?_, ?_⟩
  · intro c a ha hac
    rw [List.mem_singleton.mp ha] at hac
    exact hac.elim
  · exact fun c _ _ _ => hconnect c
  · exact fun c k hk => (h.watched c k hk).begin htodo fun hgone => ⟨hgone.1, hconnect c⟩

/-- **Every step keeps the invariant.** -/
theorem Ok.step (h : p.Ok env) {m : Move} (hp : p.step env m = some p') : p'.Ok env := by
  cases m with
  | upgrade addr user authenticated => exact h.upgrade addr user authenticated hp
  | takeConnected c ch => exact h.takeConnected hp
  | take c ch => exact h.take hp
  | takeReport c i ch => exact h.takeReport hp
  | takeHealth ch => exact h.takeHealth hp
  | act accepted => exact h.act hp
  | client c m => exact h.client_step hp

theorem Ok.init : (Process.init env).Ok env where
  inv := .init
  connected := rfl
  orderly := trivial
  info c k hk := absurd hk (by simp [Process.init])
  drawn c hc := absurd hc Finmap.notMem_empty
  client c k hk := absurd hk (by simp [Process.init])
  known c hc := by
    rcases hc with hc | ⟨a, ha, -⟩
    · exact absurd hc Finmap.notMem_empty
    · exact absurd ha List.not_mem_nil
  finishing c k hk := absurd hk (by simp [Process.init])
  watched c k hk := absurd hk (by simp [Process.init])

/-- **A `Disconnected` that waits removes its client**, once the main loop is idle. -/
theorem Ok.removes (h : p.Ok env) (htodo : p.todo = []) (hk : p.clients.lookup c = some k) {i : ℕ}
    {d : Disconnected} (hd : k.reports[i]? = some d) (ch : Choice) :
    ∃ p', p.step env (.takeReport c i ch) = some p' ∧ (p'.Gone c ∨ p'.Leaving c) := by
  obtain ⟨hid, hw⟩ := h.info c k hk
  have hw' : k.info.write = ⟨k.info.id⟩ := by rw [hw, hid]
  obtain ⟨t, sent, hhandle, -⟩ := handle_change ch h.inv hw' (e := .disconnected d) rfl
  have hset := h.toSound.taken hk i
  have hstep : p.step env (.takeReport c i ch) =
      (p.set c (k.taken i)).handle env ch ⟨k.info, false, .disconnected d⟩ := by
    simp only [Process.step, Option.bind_eq_bind, hk, Option.bind_some, hd]
  have htaken : ∃ p', p.step env (.takeReport c i ch) = some p' := by
    rw [hstep]
    exact ⟨_, handle_eq_some.mpr ⟨htodo, t, sent, hhandle, rfl⟩⟩
  obtain ⟨p', hp'⟩ := htaken
  obtain ⟨-, -, -, -, hleaves⟩ := hset.message (Finmap.lookup_insert _) rfl (hstep ▸ hp')
  exact ⟨p', hp', hleaves d rfl⟩

end Process

/-- **Every state of the process** satisfies the invariant. -/
theorem process_ok (env : Env) : (process env).Safe (Process.Ok env) :=
  Machine.safe_of_step .init fun _ _ _ h hp => h.step hp

/-- **No ghost connections.** For every connection, in every state: `once` has run one function at
most and one `Disconnected` at most has been made. The main loop puts a `CloseWriter` into the channel
of a client that is not connected only. If `once` has run, the client is gone, or its `Disconnected`
is on its way to the main loop, or the main loop has begun with it and disconnects the client next;
the last does not occur between two messages, when `todo` is empty. -/
theorem no_ghost_connections (env : Env) : (process env).Safe fun p =>
    ∀ c k, p.clients.lookup c = some k →
      k.executed ≤ 1 ∧ k.reported ≤ 1 ∧
      (∀ code reason rest, p.todo = .put (.write ⟨c⟩ (.closeWriter code reason)) :: rest →
        c ∉ p.connected) ∧
      (0 < k.executed → p.Gone c ∨ k.Reporting ∨ p.Leaving c) := by
  refine (process_ok env).mono fun p h c k hk => ?_
  obtain ⟨honce, hsingle, -⟩ := h.client c k hk
  have hexecuted : k.executed ≤ 1 := by
    rw [honce]
    split_ifs <;> omega
  refine ⟨hexecuted, by omega, fun code reason rest htodo => ?_, fun hpos => h.watched c k hk ?_⟩
  · exact (h.toSound.gone_of_closes htodo ⟨rfl, trivial⟩).1
  · by_contra hdone
    rw [honce, if_neg hdone] at hpos
    exact lt_irrefl 0 hpos

end Screego
