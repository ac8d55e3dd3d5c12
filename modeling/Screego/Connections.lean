import Screego.Actions
import Screego.Run

/-!
# Connections and their goroutines

`ws/client.go`, `ws/once.go`: the goroutines of every connection around the main loop, which handles
a message one action after the other (`Rooms.actions`).

* `Instr`: the steps of `once.Do` and of the two functions it runs; `Client`: a connection with its
  reader, its writer, its `once`, its write channel and the messages it has ready for the main loop;
* `Client.step`: what a connection does by itself; `Process.step`: one step of anybody;
* `Client.Reporting`: a `Disconnected` of the client is on its way; `Client.Finishing`: a
  `CloseWriter` is; `Client.Ok`: the invariant of a connection;
* **`Client.Ok.step`**: what the main loop sees of a step of a connection.
-/

set_option autoImplicit false

namespace Screego

open Lib Outgoing

/-! ## One connection -/

/-- The functions `once` runs: `CloseOnError` and `CloseOnDone`. -/
inductive Closing where
  | onError (d : Disconnected)
  | onDone (d : Disconnected)

/-- What a goroutine has to do. -/
inductive Instr where
  /-- `once.Do`: `done` is loaded. -/
  | load (f : Closing)
  /-- `once.mayExecute`: under the lock, so one step. -/
  | mayExecute (f : Closing)
  /-- The goroutine that sends the `Disconnected` is started. -/
  | report (d : Disconnected)
  /-- `writeCloseMessage`, or `conn.Close`. -/
  | close

/-- The body of `CloseOnError` and of `CloseOnDone`. -/
def Closing.body : Closing → List Instr
  | onError d => [.report d, .close]
  | onDone _ => [.close]

/-- A goroutine: what it has to do before it reads or writes again, or returns. -/
structure Goroutine where
  todo : List Instr := []
  returns : Bool := false

/-- The goroutine reads or writes. -/
def Goroutine.waits (g : Goroutine) : Bool := g.todo.isEmpty && !g.returns

/-- The events that incoming messages are read as. -/
def Event.registered : Event → Bool
  | connected => false
  | disconnected _ => false
  | health => false
  | _ => true

/-- What an incoming message is read as. -/
structure Incoming where
  event : Event
  registered : event.registered = true

theorem Incoming.fromClient (e : Incoming) : e.event.fromClient = true := by
  obtain ⟨e, h⟩ := e
  cases e <;> first | rfl | exact absurd h Bool.false_ne_true

/-- **`Client`**, with its goroutines. -/
structure Client where
  info : ClientInfo
  /-- `Upgrade` waits for the main loop to take the `Connected`. -/
  upgrading : Bool := true
  reader : Goroutine := {}
  /-- The message the reader sends to the main loop. -/
  sending : Option Incoming := none
  writer : Goroutine := {}
  /-- The write channel, which holds one message. -/
  write : Option Message := none
  /-- `once.done`. -/
  done : Bool := false
  /-- The goroutines that send a `Disconnected` to the main loop. -/
  reports : List Disconnected := []
  closed : Bool := false
  /-- How often `once` ran a function. -/
  executed : ℕ := 0
  /-- How many `Disconnected` there have been. -/
  reported : ℕ := 0

/-- A goroutine of the client does the instruction, and gets more to do. -/
def Instr.run (k : Client) : Instr → List Instr × Client
  | load f => (if k.done then [] else [.mayExecute f], k)
  | mayExecute f =>
    if k.done then ([], k) else (f.body, { k with done := true, executed := k.executed + 1 })
  | report d => ([], { k with reports := k.reports ++ [d], reported := k.reported + 1 })
  | close => ([], { k with closed := true })

/-- What a connection does by itself. -/
inductive ClientMove where
  /-- `startReading`: a message is read. -/
  | read (e : Incoming)
  /-- `startReading`: anything else is read, or nothing can be. -/
  | readError (d : Disconnected)
  /-- The reader goes on. -/
  | reader
  /-- `startWriteHandler`: a message is written, or cannot be. -/
  | write (err : Option Disconnected)
  /-- `startWriteHandler`: a ping cannot be written. -/
  | ping (d : Disconnected)
  /-- The writer goes on. -/
  | writer

/-- **One step of a connection**, if it is possible. -/
def Client.step (k : Client) : ClientMove → Option Client
  | .read e =>
    if !k.upgrading && k.reader.waits && k.sending.isNone then some { k with sending := some e }
    else none
  | .readError d =>
    if !k.upgrading && k.reader.waits && k.sending.isNone then
      -- the error, and the deferred call
      some { k with reader := ⟨[.load (.onError d),
        .load (.onError ⟨closeNormalClosure, "Reader Routine Closed"⟩)], true⟩ }
    else none
  | .reader =>
    match k.reader.todo with
    | [] => none
    | a :: rest =>
      let (more, k) := a.run k
      some { k with reader := { k.reader with todo := more ++ rest } }
  | .write err =>
    if !k.upgrading && k.writer.waits then
      match k.write with
      | none => none
      | some (.closeWriter code reason) =>
        -- `conn.Close` is deferred
        some { k with write := none, writer := ⟨[.load (.onDone ⟨code, reason⟩), .close], true⟩ }
      | some _ =>
        match err with
        | none => some { k with write := none }
        | some d => some { k with write := none, writer := ⟨[.load (.onError d)], false⟩ }
    else none
  | .ping d =>
    if !k.upgrading && k.writer.waits then some { k with writer := ⟨[.load (.onError d)], false⟩ }
    else none
  | .writer =>
    match k.writer.todo with
    | [] => none
    | a :: rest =>
      let (more, k) := a.run k
      some { k with writer := { k.writer with todo := more ++ rest } }

/-- The main loop has taken a `Disconnected` of the client. -/
def Client.taken (k : Client) (i : ℕ) : Client := { k with reports := k.reports.eraseIdx i }

/-! ## All connections and the main loop -/

/-- **The process.** -/
structure Process where
  /-- What the main loop will have made of the rooms when it has done its actions. -/
  rooms : Rooms
  /-- `connected`, as it is. -/
  connected : GoMap XID String
  /-- The actions of the message the main loop handles. -/
  todo : List Action
  clients : GoMap XID Client

/-- A step of anybody. -/
inductive Move where
  /-- `Upgrade` makes a client and sends its `Connected`. -/
  | upgrade (addr : IP) (user : String) (authenticated : Bool)
  /-- The main loop takes a `Connected`; the goroutines of the client start. -/
  | takeConnected (c : XID) (ch : Choice)
  /-- The main loop takes what the reader of the client sends. -/
  | take (c : XID) (ch : Choice)
  /-- The main loop takes a `Disconnected` of the client. -/
  | takeReport (c : XID) (i : ℕ) (ch : Choice)
  /-- The main loop takes a `Health`. -/
  | takeHealth (ch : Choice)
  /-- The main loop does one action; `writeTimeout` hands its message over or drops it. -/
  | act (accepted : Bool)
  | client (c : XID) (m : ClientMove)

namespace Process

variable (env : Env)

def init : Process := ⟨newRooms env, ∅, [], ∅⟩

/-- The client `c` is now `k`. -/
def set (p : Process) (c : XID) (k : Client) : Process :=
  { p with clients := p.clients.insert c k }

/-- The main loop begins with the message, if it has nothing to do. -/
def handle (p : Process) (ch : Choice) (msg : ClientMessage) : Option Process :=
  if p.todo.isEmpty then
    (p.rooms.handle env ch msg).map fun result =>
      { p with rooms := result.1, todo := p.rooms.actions env ch msg }
  else none

/-- The main loop does the action. -/
def act (p : Process) (accepted : Bool) : Action → Option Process
  | .put (.write out m) =>
    if accepted then
      match p.clients.lookup out.owner with
      | none => none
      | some k => if k.write.isNone then some (p.set out.owner { k with write := some m }) else none
    else some p
  | a => some { p with connected := a.after p.connected }

/-- **One step**, if it is possible. -/
def step (p : Process) : Move → Option Process
  | .upgrade addr user authenticated =>
    let c := env.xidNew p.rooms.drawn
    some { p.set c { info := newClientInfo c addr user authenticated } with
      rooms := { p.rooms with drawn := p.rooms.drawn + 1 } }
  | .takeConnected c ch => do
    let k ← p.clients.lookup c
    if k.upgrading then
      (p.set c { k with upgrading := false }).handle env ch ⟨k.info, true, .connected⟩
    else none
  | .take c ch => do
    let k ← p.clients.lookup c
    let e ← k.sending
    (p.set c { k with sending := none }).handle env ch ⟨k.info, false, e.event⟩
  | .takeReport c i ch => do
    let k ← p.clients.lookup c
    let d ← k.reports[i]?
    (p.set c (k.taken i)).handle env ch ⟨k.info, false, .disconnected d⟩
  | .takeHealth ch => p.handle env ch ⟨noClientInfo, true, .health⟩
  | .act accepted =>
    match p.todo with
    | [] => none
    | a :: rest => { p with todo := rest }.act accepted a
  | .client c m => do
    let k ← p.clients.lookup c
    (k.step m).map (p.set c)

end Process

/-- **The server with its goroutines.** -/
def process (env : Env) : Machine Process Move where
  init := Process.init env
  step := Process.step env

/-! ## What a connection does to what the others see -/

/-- The instruction makes a `Disconnected`. -/
def Instr.reports : Instr → Bool
  | report _ => true
  | _ => false

/-- The instruction is part of `CloseOnDone`. -/
def Instr.finishes : Instr → Bool
  | load (.onDone _) => true
  | mayExecute (.onDone _) => true
  | _ => false

/-- A `Disconnected` is on its way to the main loop, or instructions of `l` will make one. -/
def Reports (reports : List Disconnected) (l : List Instr) : Prop :=
  reports ≠ [] ∨ ∃ a ∈ l, a.reports = true

/-- A `CloseWriter` is on its way to the writer, or the instructions `l` follow one. -/
def Finishes (write : Option Message) (l : List Instr) : Prop :=
  (∃ m, write = some m ∧ m.IsClose) ∨ ∃ a ∈ l, a.finishes = true

namespace Client

/-- What the goroutines of the client have to do. -/
def todo (k : Client) : List Instr := k.reader.todo ++ k.writer.todo

/-- **A `Disconnected` of the client** is on its way to the main loop. -/
def Reporting (k : Client) : Prop := Reports k.reports k.todo

/-- **A `CloseWriter` of the client** is on its way to the writer, which follows it. -/
def Finishing (k : Client) : Prop := Finishes k.write k.todo

/-- **The invariant of a connection**: `once` runs one function at most, which makes one
`Disconnected` at most, and nothing is closed before `Upgrade` is done. -/
structure Ok (k : Client) : Prop where
  once : k.executed = if k.done then 1 else 0
  single : k.reported + k.todo.countP Instr.reports ≤ k.executed
  fresh : k.upgrading = true → k.todo = [] ∧ k.done = false ∧ ¬ k.Finishing

/-- **A step of a connection**, as the main loop sees it. -/
structure Steps (k k' : Client) : Prop where
  ok : k'.Ok
  info : k'.info = k.info
  upgraded : k.upgrading = false ∧ k'.upgrading = false
  reporting : k.Reporting → k'.Reporting
  finishing : k'.Finishing → k.Finishing
  done : k'.done = true → k.done = true ∨ k'.Reporting ∨ k.Finishing

variable {k k' : Client} {l l' L : List Instr} {reports : List Disconnected}
  {write : Option Message}

theorem Ok.new (info : ClientInfo) : Ok { info } where
  once := rfl
  single := le_rfl
  fresh _ := by
    refine ⟨rfl, rfl, ?_⟩
    rintro (⟨x, hx, -⟩ | ⟨a, ha, -⟩)
    · cases hx
    · exact List.not_mem_nil ha

/-- A goroutine has something to do after `Upgrade` only. -/
theorem Ok.upgraded (h : k.Ok) {a : Instr} (ha : a ∈ k.todo) : k.upgrading = false := by
  cases hup : k.upgrading with
  | false => rfl
  | true =>
    rw [(h.fresh hup).1] at ha
    exact absurd ha List.not_mem_nil

theorem reports_perm (hl : l.Perm (l' ++ L)) :
    Reports reports l ↔ Reports reports l' ∨ ∃ a ∈ L, a.reports = true := by
  unfold Reports
  simp only [hl.mem_iff, List.mem_append, or_and_right, exists_or, or_assoc]

theorem finishes_perm (hl : l.Perm (l' ++ L)) :
    Finishes write l ↔ Finishes write l' ∨ ∃ a ∈ L, a.finishes = true := by
  unfold Finishes
  simp only [hl.mem_iff, List.mem_append, or_and_right, exists_or, or_assoc]

/-- **A step that replaces the instructions `l` by `l'`.** -/
theorem Ok.steps (h : k.Ok) (hl : k.todo.Perm (l ++ L)) (hl' : k'.todo.Perm (l' ++ L))
    (hinfo : k'.info = k.info) (hup : k.upgrading = false) (hup' : k'.upgrading = false)
    (honce : k'.executed = if k'.done then 1 else 0)
    (hsingle : k'.reported + l'.countP Instr.reports + k.executed ≤
      k.reported + l.countP Instr.reports + k'.executed)
    (hreporting : Reports k.reports l → Reports k'.reports l')
    (hfinishing : Finishes k'.write l' → Finishes k.write l)
    (hdone : k'.done = true → k.done = true ∨ Reports k'.reports l' ∨ Finishes k.write l) :
    k.Steps k' where
  ok := by
    refine ⟨honce, ?_, fun hnew => absurd (hnew.symm.trans hup') Bool.noConfusion⟩
    have hcount := h.single
    rw [hl.countP_eq, List.countP_append] at hcount
    rw [hl'.countP_eq, List.countP_append]
    omega
  info := hinfo
  upgraded := ⟨hup, hup'⟩
  reporting hk := (reports_perm hl').mpr (((reports_perm hl).mp hk).imp_left hreporting)
  finishing hk := (finishes_perm hl).mpr (((finishes_perm hl').mp hk).imp_left hfinishing)
  done hk := by
    rcases hdone hk with hk | hk | hk
    · exact Or.inl hk
    · exact Or.inr (Or.inl ((reports_perm hl').mpr (Or.inl hk)))
    · exact Or.inr (Or.inr ((finishes_perm hl).mpr (Or.inl hk)))

/-- A goroutine finds that there is nothing to do. -/
theorem Ok.dropped (h : k.Ok) {a : Instr} {g w : Goroutine} (ha : a.reports = false)
    (hl : k.todo.Perm ([a] ++ L)) (hl' : (g.todo ++ w.todo).Perm ([] ++ L)) :
    k.Steps { k with reader := g, writer := w } := by
  have hup := h.upgraded (hl.mem_iff.mpr List.mem_cons_self)
  refine h.steps hl hl' rfl hup hup h.once ?_ (fun hk => ?_) (fun hk => ?_) Or.inl
  · simp [ha]
  · refine hk.imp_right fun ⟨b, hb, hrep⟩ => ?_
    rw [List.mem_singleton.mp hb, ha] at hrep
    exact absurd hrep Bool.false_ne_true
  · exact hk.imp_right fun ⟨b, hb, _⟩ => absurd hb List.not_mem_nil

/-- `once` runs a function: `CloseOnError` reports, `CloseOnDone` follows a `CloseWriter`. -/
theorem Ok.fires (h : k.Ok) {f : Closing} {g w : Goroutine} (hd : k.done = false)
    (hl : k.todo.Perm ([.mayExecute f] ++ L)) (hl' : (g.todo ++ w.todo).Perm (f.body ++ L)) :
    k.Steps { k with done := true, executed := k.executed + 1, reader := g, writer := w } := by
  have hup := h.upgraded (hl.mem_iff.mpr List.mem_cons_self)
  have honce : k.executed = 0 := by
    rw [h.once, hd]
    rfl
  cases f with
  | onError d =>
    refine h.steps hl hl' rfl hup hup (congrArg (· + 1) honce) ?_ ?_ ?_ fun _ => ?_
    · simp [List.countP_cons, Instr.reports, Closing.body]
      omega
    · simp +contextual [Reports, Instr.reports]
    · simp +contextual [Finishes, Instr.finishes, Closing.body]
    · simp [Reports, Instr.reports, Closing.body]
  | onDone d =>
    refine h.steps hl hl' rfl hup hup (congrArg (· + 1) honce) ?_ ?_ ?_ fun _ => ?_
    · simp [Instr.reports, Closing.body]
    · simp +contextual [Reports, Instr.reports]
    · simp +contextual [Finishes, Instr.finishes, Closing.body]
    · simp [Finishes, Instr.finishes]

/-- **A goroutine does its next instruction.** -/
theorem Ok.run (h : k.Ok) {a : Instr} {g w : Goroutine} (hl : k.todo.Perm ([a] ++ L))
    (hl' : (g.todo ++ w.todo).Perm ((a.run k).1 ++ L)) :
    k.Steps { (a.run k).2 with reader := g, writer := w } := by
  have hup := h.upgraded (hl.mem_iff.mpr List.mem_cons_self)
  cases a with
  | load f =>
    cases hd : k.done with
    | true =>
      have hrun : (Instr.load f).run k = ([], k) := by simp only [Instr.run, hd, if_true]
      rw [hrun] at hl' ⊢
      exact h.dropped rfl hl hl'
    | false =>
      have hrun : (Instr.load f).run k = ([.mayExecute f], k) := by
        simp only [Instr.run, hd, Bool.false_eq_true, if_false]
      rw [hrun] at hl' ⊢
      refine h.steps hl hl' rfl hup hup h.once ?_ ?_ ?_ Or.inl
      · simp [Instr.reports]
      · simp [Reports, Instr.reports]
      · cases f <;> simp [Finishes, Instr.finishes]
  | mayExecute f =>
    cases hd : k.done with
    | true =>
      have hrun : (Instr.mayExecute f).run k = ([], k) := by simp only [Instr.run, hd, if_true]
      rw [hrun] at hl' ⊢
      exact h.dropped rfl hl hl'
    | false =>
      have hrun : (Instr.mayExecute f).run k =
          (f.body, { k with done := true, executed := k.executed + 1 }) := by
        simp only [Instr.run, hd, Bool.false_eq_true, if_false]
      rw [hrun] at hl' ⊢
      exact h.fires hd hl hl'
  | report d =>
    refine h.steps hl hl' rfl hup hup h.once ?_ ?_ ?_ Or.inl
    · simp [Instr.run, Instr.reports]
    · simp [Reports, Instr.run]
    · simp [Finishes, Instr.run, Instr.finishes]
  | close =>
    refine h.steps hl hl' rfl hup hup h.once ?_ ?_ ?_ Or.inl
    · simp [Instr.run, Instr.reports]
    · simp [Reports, Instr.run, Instr.reports]
    · simp [Finishes, Instr.run, Instr.finishes]

/-- An instruction changes what the goroutines share. -/
theorem goroutines_run (a : Instr) (k : Client) :
    (a.run k).2.reader = k.reader ∧ (a.run k).2.writer = k.writer := by
  cases a with
  | mayExecute f =>
    unfold Instr.run
    split_ifs <;> exact ⟨rfl, rfl⟩
  | _ => exact ⟨rfl, rfl⟩

/-- The writer fails, having taken what is not a `CloseWriter`. -/
theorem Ok.writeError (h : k.Ok) (hup : k.upgrading = false) (htodo : k.writer.todo = [])
    (hwrite : ∀ m, write = some m → m.IsClose → k.write = some m) (d : Disconnected) :
    k.Steps { k with write, writer := ⟨[.load (.onError d)], false⟩ } := by
  have hl : k.todo.Perm ([] ++ k.reader.todo) := .of_eq (by simp [todo, htodo])
  refine h.steps hl List.perm_append_comm rfl hup hup h.once ?_ ?_ ?_ Or.inl
  · simp [Instr.reports]
  · simp [Reports, Instr.reports]
  · rintro (⟨m, hm, hclose⟩ | ⟨a, ha, hfin⟩)
    · exact Or.inl ⟨m, hwrite m hm hclose, hclose⟩
    · rw [List.mem_singleton.mp ha] at hfin
      exact absurd hfin Bool.false_ne_true

/-- The writer takes a message: a `CloseWriter` ends it, and any other is written or not. -/
theorem Ok.write_step (h : k.Ok) {err : Option Disconnected} (hm : k.step (.write err) = some k') :
    k.Steps k' := by
  simp only [Client.step, Option.ite_none_right_eq_some, Bool.and_eq_true, Bool.not_eq_true',
    Goroutine.waits, List.isEmpty_iff] at hm
  obtain ⟨⟨hup, htodo, -⟩, hm⟩ := hm
  have hl : k.todo.Perm ([] ++ k.reader.todo) := .of_eq (by simp [todo, htodo])
  cases hw : k.write with
  | none => simp [hw] at hm
  | some x =>
    by_cases hclose : x.IsClose
    · cases x with
      | closeWriter code reason =>
        simp only [hw, Option.some.injEq] at hm
        subst hm
        refine h.steps hl List.perm_append_comm rfl hup hup h.once ?_ ?_ (fun _ => ?_) Or.inl
        · simp [Instr.reports]
        · simp [Reports, Instr.reports]
        · exact Or.inl ⟨_, hw, trivial⟩
      | _ => exact hclose.elim
    · cases err with
      | none =>
        obtain rfl : { k with write := none } = k' := by
          cases x with
          | closeWriter => exact absurd trivial hclose
          | _ => simpa only [hw, Option.some.injEq] using hm
        refine h.steps hl (.of_eq ?_) rfl hup hup h.once le_rfl id ?_ Or.inl
        · simp [todo, htodo]
        · simp [Finishes]
      | some d =>
        obtain rfl : { k with write := none, writer := ⟨[.load (.onError d)], false⟩ } = k' := by
          cases x with
          | closeWriter => exact absurd trivial hclose
          | _ => simpa only [hw, Option.some.injEq] using hm
        exact h.writeError hup htodo (fun m hm => by cases hm) d

/-- A message is put into the write channel. -/
theorem Ok.put (h : k.Ok) {x : Message} (hx : x.IsClose → k.upgrading = false) :
    Ok { k with write := some x } where
  once := h.once
  single := h.single
  fresh hup := by
    obtain ⟨htodo, hdone, hfin⟩ := h.fresh hup
    refine ⟨htodo, hdone, ?_⟩
    rintro (⟨y, hy, hclose⟩ | ha)
    · cases hy
      exact absurd (hup.symm.trans (hx hclose)) Bool.noConfusion
    · exact hfin (Or.inr ha)

/-- **Every step of a connection.** -/
theorem Ok.step (h : k.Ok) {m : ClientMove} (hm : k.step m = some k') : k.Steps k' := by
  cases m with
  | read e =>
    simp only [Client.step, Option.ite_none_right_eq_some, Bool.and_eq_true, Bool.not_eq_true',
      Option.some.injEq] at hm
    obtain ⟨⟨⟨hup, -⟩, -⟩, rfl⟩ := hm
    exact h.steps (.refl ([] ++ k.todo)) (.refl ([] ++ k.todo)) rfl hup hup h.once le_rfl id id Or.inl
  | readError d =>
    simp only [Client.step, Option.ite_none_right_eq_some, Bool.and_eq_true, Bool.not_eq_true',
      Option.some.injEq, Goroutine.waits, List.isEmpty_iff] at hm
    obtain ⟨⟨⟨hup, htodo, -⟩, -⟩, rfl⟩ := hm
    have hl : k.todo = [] ++ k.writer.todo := congrArg (· ++ k.writer.todo) htodo
    refine h.steps (.of_eq hl) (.refl _) rfl hup hup h.once ?_ ?_ ?_ Or.inl
    · simp [Instr.reports]
    · simp [Reports, Instr.reports]
    · simp [Finishes, Instr.finishes]
  | reader =>
    cases htodo : k.reader.todo with
    | nil => simp [Client.step, htodo] at hm
    | cons a rest =>
      simp only [Client.step, htodo, Option.some.injEq] at hm
      subst hm
      refine h.run (L := rest ++ k.writer.todo) (.of_eq ?_) (.of_eq ?_)
      · rw [todo, htodo]
        rfl
      · rw [(goroutines_run a k).2, List.append_assoc]
  | write err => exact h.write_step hm
  | ping d =>
    simp only [Client.step, Option.ite_none_right_eq_some, Bool.and_eq_true, Bool.not_eq_true',
      Option.some.injEq, Goroutine.waits, List.isEmpty_iff] at hm
    obtain ⟨⟨hup, htodo, -⟩, rfl⟩ := hm
    exact h.writeError hup htodo (fun m hm _ => hm) d
  | writer =>
    cases htodo : k.writer.todo with
    | nil => simp [Client.step, htodo] at hm
    | cons a rest =>
      simp only [Client.step, htodo, Option.some.injEq] at hm
      subst hm
      refine h.run (L := k.reader.todo ++ rest) ?_ ?_
      · rw [todo, htodo]
        exact List.perm_middle
      · rw [(goroutines_run a k).1]
        exact List.perm_append_comm_assoc _ _ _

end Client

end Screego
