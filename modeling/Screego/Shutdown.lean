import Screego.Lib.System

/-!
# Shutdown

`server.Start` as three goroutines: the one that serves and the one that waits for an interrupt send
their errors on one channel without a buffer, from which the caller of `Start` receives once.

* `Start`: where the three are; `Start.take`: what each may do next;
* `Start.Stuck`: a goroutine that is never rid of its error; `Start.stuck_iff`: that is one for whom
  nobody is left to receive;
* `Start.WaitsAndReports`: the property; `Start.Misses`: the steps that break it;
* **`shutdown_waits_and_reports_iff`**;
* **`Start.failed_shutdown_sticks`**: an error of `Shutdown` leaves one goroutine behind.
-/

set_option autoImplicit false

namespace Screego

open Lib

/-- The errors, as far as `waitForServerToClose` tells them apart. -/
inductive ServerError where
  | errServerClosed
  | other (text : String)
  deriving DecidableEq

/-- `waitForServerToClose`, from the error received. -/
def waitForServerToClose (err : ServerError) : Option ServerError :=
  if err = .errServerClosed then none else some err

/-- The goroutine of `startServer`. -/
inductive Serving where
  | listening
  | serving
  | sending (err : ServerError)
  | done
  deriving DecidableEq

/-- The goroutine of `shutdownOnInterruptSignal`. -/
inductive Interrupting where
  | waiting
  | received
  | shuttingDown
  | sending (err : ServerError)
  | done
  deriving DecidableEq

/-- The caller of `Start`. -/
inductive Caller where
  | starting
  | waiting
  | returned (err : Option ServerError)
  deriving DecidableEq

/-- A call of `Start`, with two notes on what has happened. -/
structure Start where
  serve : Serving
  interrupt : Interrupting
  caller : Caller
  /-- `listenAndServe` had returned when the interrupt was received. -/
  failedFirst : Bool
  /-- What `serverShutdown` has returned. -/
  shutdown : Option (Option ServerError)
  deriving DecidableEq

namespace Start

/-- Who moves next, and what the standard library answers. -/
inductive Turn where
  /-- `shutdownOnInterruptSignal` has started its goroutine. -/
  | wait
  /-- `net.Listen` has returned a listener, and `Serve` is called. -/
  | listens
  /-- `net.Listen`, or `Serve`, returns an error of its own. -/
  | fails (text : String)
  /-- `Serve` returns because `Shutdown` was called. -/
  | closes
  | interrupt
  | callShutdown
  | shutdownReturns (err : Option ServerError)
  | receiveServe
  | receiveInterrupt

/-- `Shutdown` was called. -/
def Closing (s : Start) : Prop := s.interrupt ≠ .waiting ∧ s.interrupt ≠ .received

instance (s : Start) : Decidable s.Closing := inferInstanceAs (Decidable (_ ∧ _))

/-- `Serve` may return an error of its own: not once `Shutdown` was called. -/
def MayFail (s : Start) : Prop := s.serve = .listening ∨ s.serve = .serving ∧ ¬ s.Closing

instance (s : Start) : Decidable s.MayFail := inferInstanceAs (Decidable (_ ∨ _))

/-- `listenAndServe` has returned. -/
def Served (s : Start) : Prop := s.serve ≠ .listening ∧ s.serve ≠ .serving

instance (s : Start) : Decidable s.Served := inferInstanceAs (Decidable (_ ∧ _))

/-- **A step.** A step that is not possible now changes nothing. -/
def take (s : Start) : Turn → Start
  | .wait => if s.caller = .starting then { s with caller := .waiting } else s
  | .listens => if s.serve = .listening then { s with serve := .serving } else s
  | .fails text => if s.MayFail then { s with serve := .sending (.other text) } else s
  | .closes =>
    if s.serve = .serving ∧ s.Closing then { s with serve := .sending .errServerClosed } else s
  | .interrupt =>
    -- there is nobody to receive it before the goroutine is started
    if s.interrupt = .waiting ∧ s.caller ≠ .starting then
      { s with interrupt := .received, failedFirst := decide s.Served }
    else s
  | .callShutdown =>
    if s.interrupt = .received then { s with interrupt := .shuttingDown } else s
  | .shutdownReturns err =>
    if s.interrupt = .shuttingDown then
      { s with shutdown := some err, interrupt := err.elim .done .sending }
    else s
  | .receiveServe =>
    match s.caller, s.serve with
    | .waiting, .sending err =>
      { s with serve := .done, caller := .returned (waitForServerToClose err) }
    | _, _ => s
  | .receiveInterrupt =>
    match s.caller, s.interrupt with
    | .waiting, .sending err =>
      { s with interrupt := .done, caller := .returned (waitForServerToClose err) }
    | _, _ => s

/-- `Start` has returned. -/
def Returned (s : Start) : Prop := ∃ r, s.caller = .returned r

/-- A goroutine waits for the channel to take its error. -/
def SendsServe (s : Start) : Prop := ∃ err, s.serve = .sending err

def SendsInterrupt (s : Start) : Prop := ∃ err, s.interrupt = .sending err

/-- **A goroutine is never rid of its error**, whatever comes. -/
def Stuck (s : Start) : Prop :=
  (∃ err, ∀ turns : List Turn, (turns.foldl take s).serve = .sending err) ∨
    ∃ err, ∀ turns : List Turn, (turns.foldl take s).interrupt = .sending err

/-- **The property**: after an interrupt that no failure came before, `Start` returns only once
`serverShutdown` has, and what it has; and nobody is stuck. -/
structure WaitsAndReports (s : Start) : Prop where
  reports : s.interrupt ≠ .waiting → s.failedFirst = false → ∀ r, s.caller = .returned r →
    s.shutdown = some r
  free : ¬ s.Stuck

/-- **The steps that break it.** Somebody comes to send when `Start` has returned, or is sending while
it receives from the other; or it receives, after an interrupt, the error of the serving goroutine
while `Shutdown` is still running, or an error other than `ErrServerClosed`; or it receives
`ErrServerClosed` as the error of `Shutdown`. -/
def Misses (s : Start) : Turn → Prop
  | .fails _ => s.MayFail ∧ s.Returned
  | .closes => s.serve = .serving ∧ s.Closing ∧ s.Returned
  | .shutdownReturns (some _) => s.interrupt = .shuttingDown ∧ s.Returned
  | .receiveServe => s.caller = .waiting ∧ ∃ err, s.serve = .sending err ∧
      (s.SendsInterrupt ∨ s.interrupt ≠ .waiting ∧ s.failedFirst = false ∧
        ¬ (s.shutdown = some none ∧ err = .errServerClosed))
  | .receiveInterrupt => s.caller = .waiting ∧ ∃ err, s.interrupt = .sending err ∧
      (s.SendsServe ∨ err = .errServerClosed)
  | _ => False

end Start

/-- **All interleavings** of the three. -/
def starts : Machine Start Start.Turn where
  init := ⟨.listening, .waiting, .starting, false, none⟩
  step s turn := some (s.take turn)

namespace Start

variable {s s' : Start} {turn : Turn} {err : ServerError}

/-! ## One step -/

/-- What a step does. -/
inductive Takes (s : Start) : Turn → Start → Prop
  | nothing (turn : Turn) : ¬ s.Misses turn → Takes s turn s
  | wait : s.caller = .starting → Takes s .wait { s with caller := .waiting }
  | listens : s.serve = .listening → Takes s .listens { s with serve := .serving }
  | fails (text : String) : s.MayFail →
      Takes s (.fails text) { s with serve := .sending (.other text) }
  | closes : s.serve = .serving → s.Closing →
      Takes s .closes { s with serve := .sending .errServerClosed }
  | interrupt : s.interrupt = .waiting → s.caller ≠ .starting →
      Takes s .interrupt { s with interrupt := .received, failedFirst := decide s.Served }
  | callShutdown : s.interrupt = .received →
      Takes s .callShutdown { s with interrupt := .shuttingDown }
  | succeeds : s.interrupt = .shuttingDown →
      Takes s (.shutdownReturns none) { s with shutdown := some none, interrupt := .done }
  | errs (err : ServerError) : s.interrupt = .shuttingDown →
      Takes s (.shutdownReturns (some err))
        { s with shutdown := some (some err), interrupt := .sending err }
  | receiveServe (err : ServerError) : s.caller = .waiting → s.serve = .sending err →
      Takes s .receiveServe
        { s with serve := .done, caller := .returned (waitForServerToClose err) }
  | receiveInterrupt (err : ServerError) : s.caller = .waiting → s.interrupt = .sending err →
      Takes s .receiveInterrupt
        { s with interrupt := .done, caller := .returned (waitForServerToClose err) }

theorem takes (s : Start) (turn : Turn) : Takes s turn (s.take turn) := by
  cases turn with
  | wait =>
    dsimp only [take]
    split_ifs with h
    · exact .wait h
    · exact .nothing _ not_false
  | listens =>
    dsimp only [take]
    split_ifs with h
    · exact .listens h
    · exact .nothing _ not_false
  | fails text =>
    dsimp only [take]
    split_ifs with h
    · exact .fails text h
    · exact .nothing _ fun hm => h hm.1
  | closes =>
    dsimp only [take]
    split_ifs with h
    · exact .closes h.1 h.2
    · exact .nothing _ fun hm => h ⟨hm.1, hm.2.1⟩
  | interrupt =>
    dsimp only [take]
    split_ifs with h
    · exact .interrupt h.1 h.2
    · exact .nothing _ not_false
  | callShutdown =>
    dsimp only [take]
    split_ifs with h
    · exact .callShutdown h
    · exact .nothing _ not_false
  | shutdownReturns err =>
    dsimp only [take]
    cases err with
    | none =>
      split_ifs with h
      · exact .succeeds h
      · exact .nothing _ not_false
    | some err =>
      split_ifs with h
      · exact .errs err h
      · exact .nothing _ fun hm => h hm.1
  | receiveServe =>
    dsimp only [take]
    split
    · next err hc hs => exact .receiveServe err hc hs
    · next hno =>
      refine .nothing _ ?_
      rintro ⟨hc, err, hs, -⟩
      exact hno err hc hs
  | receiveInterrupt =>
    dsimp only [take]
    split
    · next err hc hi => exact .receiveInterrupt err hc hi
    · next hno =>
      refine .nothing _ ?_
      rintro ⟨hc, err, hi, -⟩
      exact hno err hc hi

/-! ## Who is stuck -/

/-- Nobody receives once `Start` has returned. -/
theorem Takes.returned (h : Takes s turn s') {r : Option ServerError} (hr : s.caller = .returned r) :
    s'.caller = .returned r ∧ (∀ err, s.serve = .sending err → s'.serve = .sending err) ∧
      ∀ err, s.interrupt = .sending err → s'.interrupt = .sending err := by
  cases h with
  | nothing => exact ⟨hr, fun _ h => h, fun _ h => h⟩
  | wait hc | receiveServe err hc | receiveInterrupt err hc =>
    rw [hc] at hr
    cases hr
  | listens h | closes h =>
    refine ⟨hr, fun err hs => ?_, fun _ h => h⟩
    rw [h] at hs
    cases hs
  | fails text h =>
    refine ⟨hr, fun err hs => ?_, fun _ h => h⟩
    rcases h with h | h
    · rw [h] at hs
      cases hs
    · rw [h.1] at hs
      cases hs
  | interrupt h | callShutdown h | succeeds h | errs err h =>
    refine ⟨hr, fun _ h => h, fun err hs => ?_⟩
    rw [h] at hs
    cases hs

theorem returned_foldl (turns : List Turn) {r : Option ServerError} (hr : s.caller = .returned r) :
    (∀ err, s.serve = .sending err → (turns.foldl take s).serve = .sending err) ∧
      ∀ err, s.interrupt = .sending err → (turns.foldl take s).interrupt = .sending err := by
  induction turns generalizing s with
  | nil => exact ⟨fun _ h => h, fun _ h => h⟩
  | cons turn turns ih =>
    obtain ⟨hr', hserve, hinterrupt⟩ := (takes s turn).returned hr
    obtain ⟨ihs, ihi⟩ := ih hr'
    exact ⟨fun err h => ihs err (hserve err h), fun err h => ihi err (hinterrupt err h)⟩

/-- **Stuck** is who sends when `Start` has returned. -/
theorem stuck_iff : s.Stuck ↔ s.Returned ∧ (s.SendsServe ∨ s.SendsInterrupt) := by
  constructor
  · intro h
    have hsends : s.SendsServe ∨ s.SendsInterrupt := by
      rcases h with ⟨err, h⟩ | ⟨err, h⟩
      · exact Or.inl ⟨err, h []⟩
      · exact Or.inr ⟨err, h []⟩
    refine ⟨?_, hsends⟩
    cases hc : s.caller with
    | returned r => exact ⟨r, hc⟩
    | starting | waiting =>
      -- the caller receives from the one that is said to be stuck
      exfalso
      rcases h with ⟨err, h⟩ | ⟨err, h⟩
      · have hs : s.serve = .sending err := h []
        have hrecv := h [.wait, .receiveServe]
        simp [take, hc, hs] at hrecv
      · have hi : s.interrupt = .sending err := h []
        have hrecv := h [.wait, .receiveInterrupt]
        simp [take, hc, hi] at hrecv
  · rintro ⟨⟨r, hr⟩, ⟨err, h⟩ | ⟨err, h⟩⟩
    · exact Or.inl ⟨err, fun turns => (returned_foldl turns hr).1 err h⟩
    · exact Or.inr ⟨err, fun turns => (returned_foldl turns hr).2 err h⟩

/-! ## The invariant -/

/-- Where the errors are. -/
structure Ok (s : Start) : Prop where
  unshut : s.interrupt = .waiting ∨ s.interrupt = .received ∨ s.interrupt = .shuttingDown →
    s.shutdown = none
  sending : ∀ err, s.interrupt = .sending err → s.shutdown = some (some err)
  interruptDone : s.interrupt = .done →
    s.shutdown = some none ∨ s.shutdown ≠ none ∧ s.Returned ∧ s.serve ≠ .done
  serveDone : s.serve = .done → s.Returned
  returned : s.Returned → s.serve = .done ∨ s.interrupt = .done
  failedFirst : s.failedFirst = true → s.Served

theorem MayFail.serve_ne_done (h : s.MayFail) : s.serve ≠ .done := by
  intro hd
  rcases h with h | ⟨h, -⟩
  · rw [hd] at h
    cases h
  · rw [hd] at h
    cases h

/-- The serving goroutine goes on. -/
theorem Ok.serves (h : s.Ok) {x : Serving} (hs : s.serve ≠ .done) (hx : x ≠ .done)
    (hserved : s.failedFirst = true → Served { s with serve := x }) : Ok { s with serve := x } where
  unshut := h.unshut
  sending := h.sending
  interruptDone hd := (h.interruptDone hd).imp id fun hret => ⟨hret.1, hret.2.1, hx⟩
  serveDone hd := absurd hd hx
  returned hr := (h.returned hr).imp (fun hd => absurd hd hs) id
  failedFirst := hserved

theorem not_returned (hc : s.caller = .waiting) : ¬ s.Returned := by
  rintro ⟨r, hr⟩
  rw [hc] at hr
  cases hr

theorem Ok.take (h : s.Ok) (hs : Takes s turn s') : s'.Ok := by
  cases hs with
  | nothing => exact h
  | wait hc =>
    have hno : ¬ s.Returned := by
      rintro ⟨r, hr⟩
      rw [hc] at hr
      cases hr
    refine ⟨h.unshut, h.sending, fun hd => ?_, fun hd => absurd (h.serveDone hd) hno, ?_,
      h.failedFirst⟩
    · exact (h.interruptDone hd).imp id fun hret => absurd hret.2.1 hno
    · rintro ⟨r, hr⟩
      cases hr
  | listens hl => exact h.serves (by simp [hl]) (by simp) fun hf => absurd hl (h.failedFirst hf).1
  | fails text hm => exact h.serves hm.serve_ne_done (by simp) fun _ => ⟨by simp, by simp⟩
  | closes hm => exact h.serves (by simp [hm]) (by simp) fun _ => ⟨by simp, by simp⟩
  | interrupt hi =>
    refine ⟨fun _ => h.unshut (Or.inl hi), fun err he => (by cases he), fun hd => (by cases hd),
      h.serveDone, fun hr => ?_, fun hf => of_decide_eq_true hf⟩
    exact (h.returned hr).imp id fun hd => by rw [hi] at hd; cases hd
  | callShutdown hi =>
    refine ⟨fun _ => h.unshut (Or.inr (Or.inl hi)), fun err he => (by cases he),
      fun hd => (by cases hd), h.serveDone, fun hr => ?_, h.failedFirst⟩
    exact (h.returned hr).imp id fun hd => by rw [hi] at hd; cases hd
  | succeeds hi =>
    exact ⟨fun hd => by simp at hd, fun err he => (by cases he), fun _ => Or.inl rfl, h.serveDone,
      fun _ => Or.inr rfl, h.failedFirst⟩
  | errs err hi =>
    refine ⟨fun hd => by simp at hd, fun err' he => (by cases he; rfl), fun hd => (by cases hd),
      h.serveDone, fun hr => ?_, h.failedFirst⟩
    exact (h.returned hr).imp id fun hd => by rw [hi] at hd; cases hd
  | receiveServe err hc hs =>
    refine ⟨h.unshut, h.sending, fun hd => ?_, fun _ => ⟨_, rfl⟩, fun _ => Or.inl rfl,
      fun _ => ⟨by simp, by simp⟩⟩
    exact Or.inl ((h.interruptDone hd).resolve_right fun hret => not_returned hc hret.2.1)
  | receiveInterrupt err hc hi =>
    have hno : s.serve ≠ .done := fun hd => not_returned hc (h.serveDone hd)
    refine ⟨fun hd => by simp at hd, fun err he => (by cases he), fun _ => Or.inr ⟨?_, ⟨_, rfl⟩, hno⟩,
      fun _ => ⟨_, rfl⟩, fun _ => Or.inr rfl, h.failedFirst⟩
    show s.shutdown ≠ none
    rw [h.sending err hi]
    exact Option.some_ne_none _

theorem starts_ok : starts.Always Ok := by
  apply Machine.always_of_step
  · refine ⟨fun _ => rfl, fun err h => (by cases h), fun h => (by cases h), fun h => (by cases h), ?_,
      fun h => (by cases h)⟩
    rintro ⟨r, hr⟩
    cases hr
  · exact fun s turn h => ⟨_, rfl, h.take (takes s turn)⟩

/-- **An error of `Shutdown` sticks**: when the server has closed and `Start` has returned, one of the
two goroutines is stuck, whichever error came first. -/
theorem failed_shutdown_sticks : starts.Always fun s =>
    ∀ err, s.shutdown = some (some err) → s.Served → s.Returned → s.Stuck := by
  refine starts_ok.mono fun s h err herr hserved hret => ?_
  refine stuck_iff.mpr ⟨hret, ?_⟩
  cases hi : s.interrupt with
  | waiting | received | shuttingDown =>
    rw [h.unshut (by simp [hi])] at herr
    cases herr
  | sending err' => exact Or.inr ⟨err', hi⟩
  | done =>
    rcases h.interruptDone hi with hnone | ⟨-, -, hserve⟩
    · rw [hnone] at herr
      cases herr
    · -- the error of `Shutdown` was received
      refine Or.inl ?_
      cases hs : s.serve with
      | listening => exact absurd hs hserved.1
      | serving => exact absurd hs hserved.2
      | sending err' => exact ⟨err', hs⟩
      | done => exact absurd hs hserve

/-! ## The property -/

theorem waitForServerToClose_eq_none : waitForServerToClose err = none ↔ err = .errServerClosed := by
  unfold waitForServerToClose
  split_ifs with h <;> simp [h]

/-- Before `Start` returns, a server that has closed waits for the channel. -/
theorem Ok.sendsServe (h : s.Ok) (hserved : s.Served) (hno : ¬ s.Returned) : s.SendsServe := by
  cases hs : s.serve with
  | listening => exact absurd hs hserved.1
  | serving => exact absurd hs hserved.2
  | sending err => exact ⟨err, hs⟩
  | done => exact absurd (h.serveDone hs) hno

/-- Before `Start` returns, a `Shutdown` whose error is not waiting has returned none. -/
theorem Ok.result_eq_none (h : s.Ok) (hno : ¬ s.Returned) (hsends : ¬ s.SendsInterrupt)
    {r : Option ServerError} (hsome : s.shutdown = some r) : r = none := by
  cases hi : s.interrupt with
  | waiting | received | shuttingDown =>
    rw [h.unshut (by simp [hi])] at hsome
    cases hsome
  | sending err => exact absurd ⟨err, hi⟩ hsends
  | done =>
    rcases h.interruptDone hi with hnone | hret
    · rw [hnone] at hsome
      exact (Option.some.inj hsome).symm
    · exact absurd hret.2.1 hno

/-- A step that receives nothing keeps the property if it adds nobody who is stuck. -/
theorem WaitsAndReports.still (hP : s.WaitsAndReports) (hcaller : s'.caller = s.caller)
    (hreports : s'.interrupt ≠ .waiting → s'.failedFirst = false → s.Returned →
      s.interrupt ≠ .waiting ∧ s.failedFirst = false ∧ s'.shutdown = s.shutdown)
    (hstuck : s'.SendsServe ∨ s'.SendsInterrupt ↔ s.SendsServe ∨ s.SendsInterrupt) :
    s'.WaitsAndReports := by
  refine ⟨fun hi hf r hr => ?_, ?_⟩
  · rw [hcaller] at hr
    obtain ⟨hi, hf, heq⟩ := hreports hi hf ⟨r, hr⟩
    rw [heq]
    exact hP.reports hi hf r hr
  · rw [stuck_iff, hstuck, Returned, hcaller]
    exact fun h => hP.free (stuck_iff.mpr h)

/-- A step after which somebody sends keeps it if `Start` has not returned. -/
theorem waitsAndReports_sends (hcaller : s'.caller = s.caller)
    (hsends : s'.SendsServe ∨ s'.SendsInterrupt) : s'.WaitsAndReports ↔ ¬ s.Returned := by
  have hret : s'.Returned ↔ s.Returned := by rw [Returned, hcaller, Returned]
  constructor
  · exact fun h hr => h.free (stuck_iff.mpr ⟨hret.mpr hr, hsends⟩)
  · exact fun hno => ⟨fun _ _ r hr => absurd (hret.mp ⟨r, hr⟩) hno, fun hstuck =>
      hno (hret.mp (stuck_iff.mp hstuck).1)⟩

/-- `Start` receives from the serving goroutine. -/
theorem waitsAndReports_receiveServe (h : s.Ok) (hc : s.caller = .waiting)
    (hserve : s.serve = .sending err) :
    WaitsAndReports { s with serve := .done, caller := .returned (waitForServerToClose err) } ↔
      ¬ s.Misses .receiveServe := by
  constructor
  · rintro ⟨hreports, hfree⟩ ⟨-, err', herr', hmiss⟩
    rw [hserve] at herr'
    cases herr'
    have hno : ¬ s.SendsInterrupt := fun hi => hfree (stuck_iff.mpr ⟨⟨_, rfl⟩, Or.inr hi⟩)
    obtain ⟨hi, hf, hbad⟩ := hmiss.resolve_left hno
    have hsome : s.shutdown = some (waitForServerToClose err) := hreports hi hf _ rfl
    have hnone := h.result_eq_none (not_returned hc) hno hsome
    refine hbad ⟨?_, waitForServerToClose_eq_none.mp hnone⟩
    rw [hsome, hnone]
  · intro hok
    refine ⟨fun hi hf r hr => ?_, fun hstuck => ?_⟩
    · cases hr
      by_contra hne
      refine hok ⟨hc, err, hserve, Or.inr ⟨hi, hf, ?_⟩⟩
      rintro ⟨hnone, hclosed⟩
      refine hne ?_
      rw [waitForServerToClose_eq_none.mpr hclosed]
      exact hnone
    · obtain ⟨-, ⟨err', hserve'⟩ | hi⟩ := stuck_iff.mp hstuck
      · cases hserve'
      · exact hok ⟨hc, err, hserve, Or.inl hi⟩

/-- `Start` receives from the goroutine that shuts down. -/
theorem waitsAndReports_receiveInterrupt (h : s.Ok) (hc : s.caller = .waiting)
    (hi : s.interrupt = .sending err) :
    WaitsAndReports { s with interrupt := .done, caller := .returned (waitForServerToClose err) } ↔
      ¬ s.Misses .receiveInterrupt := by
  constructor
  · rintro ⟨hreports, hfree⟩ ⟨-, err', herr', hmiss⟩
    rw [hi] at herr'
    cases herr'
    have hno : ¬ s.SendsServe := fun hs => hfree (stuck_iff.mpr ⟨⟨_, rfl⟩, Or.inl hs⟩)
    have hclosed := hmiss.resolve_left hno
    have hfirst : s.failedFirst = false := by
      by_contra hf
      exact hno (h.sendsServe (h.failedFirst (by simpa using hf)) (not_returned hc))
    have hsome : s.shutdown = some (waitForServerToClose err) :=
      hreports (fun hw => by cases hw) hfirst _ rfl
    rw [h.sending err hi, waitForServerToClose_eq_none.mpr hclosed] at hsome
    cases hsome
  · intro hok
    refine ⟨fun _ _ r hr => ?_, fun hstuck => ?_⟩
    · cases hr
      have hne : ¬ err = .errServerClosed := fun hclosed =>
        hok ⟨hc, err, hi, Or.inr hclosed⟩
      show s.shutdown = _
      rw [waitForServerToClose, if_neg hne]
      exact h.sending err hi
    · obtain ⟨-, hs | ⟨err', hi'⟩⟩ := stuck_iff.mp hstuck
      · exact hok ⟨hc, err, hi, Or.inl hs⟩
      · cases hi'

/-- **What a step does to the property.** -/
theorem waitsAndReports_step (h : s.Ok) (hP : s.WaitsAndReports) (hs : Takes s turn s') :
    s'.WaitsAndReports ↔ ¬ s.Misses turn := by
  cases hs with
  | nothing _ hno => exact iff_of_true hP hno
  | wait hc =>
    have hno : ¬ Returned { s with caller := .waiting } := not_returned rfl
    refine iff_of_true ⟨fun _ _ r hr => absurd ⟨r, hr⟩ hno, fun hstuck => ?_⟩ not_false
    exact hno (stuck_iff.mp hstuck).1
  | listens hl =>
    refine iff_of_true (hP.still rfl (fun hi hf _ => ⟨hi, hf, rfl⟩) ?_) not_false
    simp [SendsServe, SendsInterrupt, hl]
  | fails text hm =>
    exact (waitsAndReports_sends rfl (Or.inl ⟨_, rfl⟩)).trans (not_congr (and_iff_right hm).symm)
  | closes hm hclosing =>
    refine (waitsAndReports_sends rfl (Or.inl ⟨_, rfl⟩)).trans (not_congr ?_)
    exact ⟨fun hr => ⟨hm, hclosing, hr⟩, fun hmiss => hmiss.2.2⟩
  | interrupt hi hc =>
    refine iff_of_true (hP.still rfl (fun _ hf hr => ?_) ?_) not_false
    · -- `Start` has returned, so the server had failed
      have hserved : s.Served := by
        rcases h.returned hr with hd | hd
        · exact ⟨by simp [hd], by simp [hd]⟩
        · rw [hi] at hd
          cases hd
      exact absurd hserved (of_decide_eq_false hf)
    · simp [SendsServe, SendsInterrupt, hi]
  | callShutdown hi =>
    refine iff_of_true (hP.still rfl (fun _ hf _ => ⟨by simp [hi], hf, rfl⟩) ?_)
      not_false
    simp [SendsServe, SendsInterrupt, hi]
  | succeeds hi =>
    refine iff_of_true (hP.still rfl (fun _ hf hr => ?_) ?_) not_false
    · obtain ⟨r, hr⟩ := hr
      have hsome := hP.reports (by simp [hi]) hf r hr
      rw [h.unshut (Or.inr (Or.inr hi))] at hsome
      cases hsome
    · simp [SendsServe, SendsInterrupt, hi]
  | errs err hi =>
    exact (waitsAndReports_sends rfl (Or.inr ⟨_, rfl⟩)).trans (not_congr (and_iff_right hi).symm)
  | receiveServe err hc hserve => exact waitsAndReports_receiveServe h hc hserve
  | receiveInterrupt err hc hi => exact waitsAndReports_receiveInterrupt h hc hi

end Start

open Start

/-- **Shutdown.** In a run, after an interrupt that no failure of the server came before, `Start`
returns only once `serverShutdown` has and with its result, and no goroutine is ever stuck on the
channel, if and only if no step is one of `Misses`. -/
theorem shutdown_waits_and_reports_iff (turns : List Turn) :
    starts.Throughout WaitsAndReports turns ↔ starts.Meets (fun s turn => ¬ s.Misses turn) turns := by
  apply Machine.meets_iff starts_ok
  · refine ⟨fun h => absurd rfl h, fun hstuck => ?_⟩
    obtain ⟨⟨r, hr⟩, -⟩ := stuck_iff.mp hstuck
    cases hr
  · intro s turn s' hok hP hs'
    obtain rfl := Option.some.inj hs'
    exact waitsAndReports_step hok hP (takes s turn)

/-- **The other order.** `Serve` returns as soon as `Shutdown` is called; `Start` receives that and
returns no error while `Shutdown` is running, and the error `Shutdown` returns later is stuck. -/
theorem start_returns_before_shutdown : ∃ s s',
    starts.run [.wait, .listens, .interrupt, .callShutdown, .closes, .receiveServe] = some s ∧
      s.failedFirst = false ∧ s.caller = .returned none ∧ s.shutdown = none ∧ ¬ s.WaitsAndReports ∧
    starts.run [.wait, .listens, .interrupt, .callShutdown, .closes, .receiveServe,
      .shutdownReturns (some (.other "context deadline exceeded"))] = some s' ∧ s'.Stuck := by
  refine ⟨_, _, rfl, rfl, rfl, rfl, fun h => ?_, rfl, ?_⟩
  · have hsome := h.reports (fun hi => by cases hi) rfl none rfl
    cases hsome
  · exact stuck_iff.mpr ⟨⟨none, rfl⟩, Or.inr ⟨_, rfl⟩⟩

end Screego
