import Screego.RoomView
import Screego.Viewers

/-!
# What is on the screen

The deployment together with the screens of the pages. A page is rendered at any time, its effects run
later, and its user presses a preview whenever he likes.

* `Screening`, `Screening.step`, `screening`; `component_screening`: the deployment runs inside it;
* `Shown`, `shown_step`: what a step does to a screen; `ScreenOk`, **`screening_ok`**;
* `Settles`, **`settles`**: a few renders and effects that settle a screen; **`stays`**;
* `OnScreen`; **`every_stream_is_on_the_screen`**.
-/

set_option autoImplicit false

namespace Screego

open Lib Outgoing UseRoom

/-! ## The pages and their screens -/

/-- **The deployment, and what is on the screens.** -/
structure Screening (P : Type) where
  deployment : Deployment P
  screens : P → Screen

/-- What happens next. -/
inductive ScreenInput (P : Type) where
  | goes (a : Happening P)
  | render (p : P)
  | runEffect (p : P)
  | choose (p : P) (j : ℕ)

section Machine

variable {P : Type} [DecidableEq P] (env : Env) (raw : String → Json) (t : String → String)

namespace Screening

def init : Screening P := ⟨Deployment.init env, fun _ => .init⟩

variable (c : Screening P)

def setScreen (p : P) (screen : Screen) : Screening P :=
  { c with screens := Function.update c.screens p screen }

/-- **One step**, if it is possible. -/
def step : ScreenInput P → Option (Screening P)
  | .goes a => (c.deployment.step env raw a).map fun d => { c with deployment := d }
  | .render p => ((c.screens p).render (c.deployment.pages p).state).map (c.setScreen p)
  | .runEffect p => (c.screens p).runEffect.map (c.setScreen p)
  | .choose p j => ((c.screens p).choose t j).map (c.setScreen p)

end Screening

variable (P) in
/-- **The machine of the screens.** -/
def screening : Machine (Screening P) (ScreenInput P) where
  init := Screening.init env
  step := Screening.step env raw t

end Machine

variable {P : Type} [DecidableEq P] {env : Env} {raw : String → Json} {t : String → String}
  {c c' : Screening P} {i : ScreenInput P} {p : P} {screen screen' : Screen}

@[simp] theorem screens_setScreen (c : Screening P) (p p' : P) (screen : Screen) :
    (c.setScreen p screen).screens p' = if p' = p then screen else c.screens p' :=
  Function.update_apply _ _ _ _

@[simp] theorem setScreen_setScreen (c : Screening P) (p : P) (screen screen' : Screen) :
    (c.setScreen p screen).setScreen p screen' = c.setScreen p screen' := by
  simp [Screening.setScreen]

theorem setScreen_self (c : Screening P) (p : P) : c.setScreen p (c.screens p) = c := by
  simp [Screening.setScreen]

/-- The deployment goes on, or stays as it is. -/
def ScreenInput.happening : ScreenInput P → Option (Happening P)
  | .goes a => some a
  | _ => none

/-- **The deployment runs inside it.** -/
theorem component_screening (env : Env) (raw : String → Json) (t : String → String) :
    (deployment P env raw).Component (screening P env raw t) Screening.deployment
      fun _ i => i.happening.toList where
  init := rfl
  step c i c' d _ hd hs _ := by
    subst hd
    cases i with
    | goes a =>
      obtain ⟨d, hd, rfl⟩ := Option.map_eq_some_iff.mp hs
      exact ⟨d, (Machine.runFrom_singleton _ _).trans hd, rfl⟩
    | render | runEffect | choose =>
      obtain ⟨screen, -, rfl⟩ := Option.map_eq_some_iff.mp hs
      exact ⟨_, rfl, rfl⟩

/-- **What a step does to the screen of a page.** -/
inductive Shown (t : String → String) (p : P) (state : Option ConnectedRoom) (screen : Screen) :
    ScreenInput P → Screen → Prop
  | same (i : ScreenInput P) : Shown t p state screen i screen
  | render {screen' : Screen} (h : screen.render state = some screen') :
      Shown t p state screen (.render p) screen'
  | runEffect {screen' : Screen} (h : screen.runEffect = some screen') :
      Shown t p state screen (.runEffect p) screen'
  | choose {screen' : Screen} {j : ℕ} (h : screen.choose t j = some screen') :
      Shown t p state screen (.choose p j) screen'

theorem shown_step (hs : c.step env raw t i = some c') (p : P) :
    Shown t p (c.deployment.pages p).state (c.screens p) i (c'.screens p) := by
  cases i with
  | goes a =>
    obtain ⟨d, -, rfl⟩ := Option.map_eq_some_iff.mp hs
    exact .same _
  | render p' =>
    obtain ⟨screen, h, rfl⟩ := Option.map_eq_some_iff.mp hs
    rw [screens_setScreen]
    split_ifs with hp
    · subst hp
      exact .render h
    · exact .same _
  | runEffect p' =>
    obtain ⟨screen, h, rfl⟩ := Option.map_eq_some_iff.mp hs
    rw [screens_setScreen]
    split_ifs with hp
    · subst hp
      exact .runEffect h
    · exact .same _
  | choose p' j =>
    obtain ⟨screen, h, rfl⟩ := Option.map_eq_some_iff.mp hs
    rw [screens_setScreen]
    split_ifs with hp
    · subst hp
      exact .choose h
    · exact .same _

/-! ### What is known of a screen -/

/-- **What is known of a screen.** -/
structure ScreenOk (b : Hook) (screen : Screen) : Prop where
  effected : screen.Effected
  mounted : screen.pending = true → screen.state.isSome
  sourced : screen.Sourced b

theorem ScreenOk.init (b : Hook) : ScreenOk b .init where
  effected _ he := nomatch he
  mounted h := nomatch h
  sourced := .init b

/-- The streams of calls are still those of calls, as the page goes on. -/
theorem sourced_step {l : List UseRoom.ClientStream} (hs : c.step env raw t i = some c')
    (h : Sourced (c.deployment.pages p) l) : Sourced (c'.deployment.pages p) l := by
  cases i with
  | goes a =>
    obtain ⟨d, hd, rfl⟩ := Option.map_eq_some_iff.mp hs
    dsimp only
    rw [pages_step hd]
    split
    · exact h.step _
    · exact h
  | render | runEffect | choose =>
    obtain ⟨screen, -, rfl⟩ := Option.map_eq_some_iff.mp hs
    exact h

/-- **One step.** -/
theorem ScreenOk.step (h : ScreenOk (c.deployment.pages p) (c.screens p))
    (hcalls : CallsOk env c.deployment p) (hs : c.step env raw t i = some c') :
    ScreenOk (c'.deployment.pages p) (c'.screens p) := by
  have hsourced : ∀ {l}, Sourced (c.deployment.pages p) l → Sourced (c'.deployment.pages p) l :=
    sourced_step hs
  have hkeep : ∀ {screen'}, screen'.state = (c.screens p).state →
      Screen.Sourced screen' (c'.deployment.pages p) := by
    intro screen' hstate
    constructor
    · intro current hcurrent
      exact hsourced (h.sourced.sourced current (hstate.symm.trans hcurrent))
    · intro current hcurrent
      exact h.sourced.ids current (hstate.symm.trans hcurrent)
  have hshown := shown_step hs p
  generalize c'.screens p = screen' at hshown ⊢
  cases hshown with
  | same => exact ⟨h.effected, h.mounted, hkeep rfl⟩
  | render hrender =>
    have heffected := Screen.effected_render hrender
    obtain ⟨-, ⟨-, rfl⟩ | ⟨current, selectedStream, hstate, -, rfl⟩⟩ := Screen.render_eq hrender
    · exact .init _
    · refine ⟨heffected, fun _ => rfl, fun current' he => ?_, fun current' he => ?_⟩
      · obtain rfl := Option.some.inj he
        exact hsourced (hcalls.sourced _ hstate)
      · obtain rfl := Option.some.inj he
        exact streams_nodup hcalls.sound hcalls.once hcalls.apart hcalls.viewed hcalls.sourced hstate
  | runEffect heffect =>
    have heffected := Screen.effected_runEffect heffect
    obtain ⟨current, -, -, rfl⟩ := Screen.runEffect_eq heffect
    exact ⟨heffected, fun hp => absurd hp Bool.false_ne_true, hkeep rfl⟩
  | choose hchoose =>
    have heffected := Screen.effected_choose hchoose
    obtain ⟨current, -, hchoose⟩ := Option.bind_eq_some_iff.mp hchoose
    obtain ⟨preview, -, hchoose⟩ := Option.bind_eq_some_iff.mp hchoose
    obtain rfl := Option.some.inj hchoose
    exact ⟨heffected, h.mounted, hkeep rfl⟩

theorem screening_ok (env : Env) (raw : String → Json) (t : String → String) (p : P) :
    (screening P env raw t).Safe fun c =>
      CallsOk env c.deployment p ∧ ScreenOk (c.deployment.pages p) (c.screens p) :=
  ((component_screening env raw t).transfer (deployment_callsOk env raw p)).and_of_step (.init _)
    fun _ _ _ hcalls h hs => h.step hcalls hs

/-! ### The screen settles -/

section Settles

variable (env raw t)

theorem step_render {state : Option ConnectedRoom} (hstate : (c.deployment.pages p).state = state)
    (h : screen.render state = some screen') : (screening P env raw t).step (c.setScreen p screen)
      (.render p) = some (c.setScreen p screen') := by
  subst hstate
  simp only [screening, Screening.step, screens_setScreen, if_true]
  rw [show (c.setScreen p screen).deployment = c.deployment from rfl, h]
  simp

theorem step_runEffect (h : screen.runEffect = some screen') :
    (screening P env raw t).step (c.setScreen p screen) (.runEffect p) =
      some (c.setScreen p screen') := by
  simp only [screening, Screening.step, screens_setScreen, if_true, h]
  simp

/-- **The page has a few renders and effects to do** before it settles. -/
def Settles (n : ℕ) (c : Screening P) (p : P) : Prop :=
  ∃ is c', is.length ≤ n ∧ (∀ i ∈ is, i = ScreenInput.render p ∨ i = .runEffect p) ∧
    (screening P env raw t).runFrom c is = some c' ∧ c'.deployment = c.deployment ∧
    (c'.screens p).Settled (c.deployment.pages p).state

/-- From a render on. -/
theorem settles_render (hpending : screen.pending = false) :
    Settles env raw t 4 (c.setScreen p screen) p := by
  cases hstate : (c.deployment.pages p).state with
  | none =>
    refine ⟨[.render p], c.setScreen p .init, by simp, by simp, ?_, rfl, ?_⟩
    · rw [Machine.runFrom_singleton]
      exact step_render env raw t hstate (Screen.render_none hpending)
    · rw [show (c.setScreen p screen).deployment = c.deployment from rfl, hstate]
      simp [Screen.Settled, Screen.init]
  | some current =>
    have h₁ := Screen.render_some hpending current
    generalize (if screen.state.isSome then screen.next else none) = sel at h₁
    have h₂ : Screen.runEffect ⟨some current, sel, sel, true⟩ =
        some ⟨some current, sel, current.effect sel, false⟩ := by
      by_cases he : current.effect sel = sel <;> simp [Screen.runEffect, he]
    -- once more, with what the effect has selected
    have h₃ := @Screen.render_some ⟨some current, sel, current.effect sel, false⟩ rfl current
    have h₄ : Screen.runEffect ⟨some current, current.effect sel, current.effect sel, true⟩ =
        some ⟨some current, current.effect sel, current.effect sel, false⟩ := by
      simp [Screen.runEffect, effect_effect]
    refine ⟨[.render p, .runEffect p, .render p, .runEffect p],
      c.setScreen p ⟨some current, current.effect sel, current.effect sel, false⟩, by simp, by simp, ?_,
      rfl, ?_⟩
    · rw [Machine.runFrom_cons, step_render env raw t hstate h₁, Option.bind_some, Machine.runFrom_cons,
        step_runEffect env raw t h₂, Option.bind_some, Machine.runFrom_cons,
        step_render env raw t hstate h₃, Option.bind_some, Machine.runFrom_singleton]
      exact step_runEffect env raw t h₄
    · rw [show (c.setScreen p screen).deployment = c.deployment from rfl, hstate]
      simp [Screen.Settled]

/-- **The screen settles.** -/
theorem settles (h : ScreenOk (c.deployment.pages p) (c.screens p)) : Settles env raw t 5 c p := by
  by_cases hpending : (c.screens p).pending = true
  · obtain ⟨current, hcurrent⟩ := Option.isSome_iff_exists.mp (h.mounted hpending)
    obtain ⟨screen, hscreen, hdone⟩ : ∃ screen, (c.screens p).runEffect = some screen ∧
        screen.pending = false := by
      simp only [Screen.runEffect, hcurrent, hpending, if_true]
      exact ⟨_, rfl, rfl⟩
    have hstep := step_runEffect env raw t (c := c) (p := p) hscreen
    rw [setScreen_self] at hstep
    obtain ⟨is, c', hlength, hmem, hrun, hrest⟩ := settles_render env raw t (c := c) (p := p) hdone
    refine ⟨.runEffect p :: is, c', Nat.succ_le_succ hlength, fun i hi => ?_, ?_, hrest⟩
    · rcases List.mem_cons.mp hi with rfl | hi
      · exact Or.inr rfl
      · exact hmem i hi
    · rw [Machine.runFrom_cons, hstep, Option.bind_some]
      exact hrun
  · have hrender := @settles_render P _ env raw t c p (c.screens p) (Bool.not_eq_true _ ▸ hpending)
    rw [setScreen_self] at hrender
    obtain ⟨is, c', hlength, hrest⟩ := hrender
    exact ⟨is, c', hlength.trans (Nat.le_succ 4), hrest⟩

end Settles

/-! ## What is on the screen -/

/-- **What is on the stage stays there**, unless the user chooses something else. -/
theorem stays {m : Media} (h : ScreenOk (c.deployment.pages p) (c.screens p))
    (h' : ScreenOk (c'.deployment.pages p) (c'.screens p))
    (hnext : (c.screens p).next = (c.screens p).selectedStream) (hstage : (c.screens p).stage = some m)
    (hs : c.step env raw t i = some c') (hi : ∀ j, i ≠ .choose p j) :
    (c'.screens p).next = (c'.screens p).selectedStream ∧
      ∀ current, (c'.screens p).state = some current → m ∈ current.media →
        (c'.screens p).stage = some m := by
  obtain ⟨state, hstate, hstage'⟩ := Option.bind_eq_some_iff.mp hstage
  have hsourced := sourced_step hs (h.sourced.sourced state hstate)
  have hnew := h'.sourced
  have hshown := shown_step hs p
  generalize c'.screens p = screen' at hshown hnew ⊢
  cases hshown with
  | same => exact ⟨hnext, fun _ _ _ => hstage⟩
  | render hrender =>
    obtain ⟨-, ⟨-, rfl⟩ | ⟨current, selectedStream, hcurrent, hsel, rfl⟩⟩ := Screen.render_eq hrender
    · exact ⟨rfl, fun _ he => nomatch he⟩
    · refine ⟨rfl, fun current' he hm => ?_⟩
      obtain rfl := Option.some.inj he
      rw [hstate, Option.isSome_some, if_pos rfl, hnext] at hsel
      subst hsel
      exact stage_stays hsourced (hnew.sourced current rfl) (hnew.ids current rfl) hstage' hm
  | runEffect heffect =>
    obtain ⟨current, hcurrent, -, rfl⟩ := Screen.runEffect_eq heffect
    obtain rfl := Option.some.inj (hstate.symm.trans hcurrent)
    refine ⟨?_, fun _ _ _ => hstage⟩
    dsimp only
    rw [if_pos (effect_of_stage hstage'), hnext]
  | choose => exact absurd rfl (hi _)

/-- **The screen of a page.** -/
structure OnScreen (env : Env) (raw : String → Json) (t : String → String) (c : Screening P) (p : P) :
    Prop where
  /-- In every render, every stream of the room is on the screen, and no stream is twice. -/
  once : ∀ current, (c.screens p).state = some current → current.media.Nodup ∧
    ((c.screens p).stage.toList ++
      (current.previews t (c.screens p).selectedStream).map Preview.stream).Perm current.media
  keys : ∀ current, (c.screens p).state = some current →
    ((current.previews t (c.screens p).selectedStream).map Preview.key).Nodup
  /-- Whatever happens, a few renders and effects settle the screen, if nothing else comes between. -/
  settles : Settles env raw t 5 c p
  /-- Then there is a stream on the stage if there is one in the room, and the header tells so. -/
  settled : ∀ current, (c.screens p).Settled (some current) →
    ((c.screens p).stage = none ↔ current.media = []) ∧
    current.status t (c.screens p).selectedStream =
      if current.hostStream.isSome then t "sharingNow"
      else if current.clientStreams = [] then t "waitingForScreen" else t "statusViewing"
  /-- What is on the stage stays there until it is gone, or the user chooses something else. -/
  stays : ∀ m i c', (c.screens p).next = (c.screens p).selectedStream → (c.screens p).stage = some m →
    c.step env raw t i = some c' → (∀ j, i ≠ .choose p j) →
    (c'.screens p).next = (c'.screens p).selectedStream ∧
      ∀ current, (c'.screens p).state = some current → m ∈ current.media →
        (c'.screens p).stage = some m

/-- The streams of a room are different ones. -/
theorem media_nodup {state : ConnectedRoom} (h : (state.clientStreams.map UseRoom.ClientStream.session).Nodup) :
    state.media.Nodup := by
  rw [ConnectedRoom.media, List.nodup_append]
  refine ⟨?_, ?_, ?_⟩
  · cases state.hostStream <;> simp
  · have hmap := h.map fun n n' (he : Media.client n = .client n') => Media.client.inj he
    rwa [List.map_map] at hmap
  · intro m hm m' hm'
    obtain ⟨stream, -, rfl⟩ := List.mem_map.mp hm
    obtain ⟨s, -, rfl⟩ := List.mem_map.mp hm'
    simp

/-- **Every stream is on the screen.** In every run of the server, the sockets, the pages and their screens:
every render of a page has every stream of its room once, on the stage or among the previews; the screen
always settles, and then the stage is empty only if the room has no stream; and what is on the stage stays
there until it is gone or the user chooses something else. -/
theorem every_stream_is_on_the_screen (env : Env) (raw : String → Json) (t : String → String) (p : P) :
    (screening P env raw t).Safe fun c => OnScreen env raw t c p := by
  intro is c hrun
  obtain ⟨hcalls, h⟩ := screening_ok env raw t p is c hrun
  have hstage : ∀ {current}, (c.screens p).state = some current →
      (c.screens p).stage = current.stage (c.screens p).selectedStream := by
    intro current hcurrent
    rw [Screen.stage, hcurrent, Option.bind_some]
  refine ⟨fun current hcurrent => ⟨?_, ?_⟩, fun current hcurrent => ?_, settles env raw t h,
    fun current hsettled => ?_, fun m i c' hnext hm hs hi => ?_⟩
  · exact media_nodup (h.sourced.sourced current hcurrent).apart
  · rw [hstage hcurrent]
    exact perm_media (h.sourced.ids current hcurrent)
  · exact nodup_keys (h.sourced.ids current hcurrent)
  · have heffect := h.effected.effect_eq hsettled hsettled.1
    rw [hstage hsettled.1]
    have hempty : current.stage (c.screens p).selectedStream = none ↔ current.media = [] := by
      refine ⟨fun hnone => stage_effect (heffect.symm ▸ hnone), fun hnone => ?_⟩
      rw [← heffect, effect_eq_none hnone]
      rfl
    refine ⟨hempty, ?_⟩
    unfold ConnectedRoom.status
    by_cases hhost : current.hostStream.isSome
    · rw [if_pos hhost, if_pos hhost]
    · have hmedia : current.media = [] ↔ current.clientStreams = [] := by
        rw [ConnectedRoom.media, Option.not_isSome_iff_eq_none.mp hhost]
        exact List.map_eq_nil_iff
      have hshows : (current.stage (c.screens p).selectedStream).isSome ↔ current.clientStreams ≠ [] := by
        rw [Option.isSome_iff_ne_none, ne_eq, hempty, hmedia]
      rw [if_neg hhost, if_neg hhost]
      by_cases hclients : current.clientStreams = []
      · rw [if_neg fun h => hshows.mp h hclients, if_pos hclients]
      · rw [if_pos (hshows.mpr hclients), if_neg hclients]
  · exact stays h (h.step hcalls hs) hnext hm hs hi

end Screego
