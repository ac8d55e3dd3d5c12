import Screego.HookCalls

/-!
# What is rendered of a room

`RouterLoadedConfig` of `ui/src/Router.tsx`, and the stage and the previews of `Room` in `ui/src/Room.tsx`:
the room as it was rendered last, the stream that is selected in it, and the effect that selects another
one.

* `Selected`, `Media`, `Preview`; `ConnectedRoom.effect`, `ConnectedRoom.stage`, `ConnectedRoom.previews`,
  `ConnectedRoom.status`: what `Room` makes of its state;
* **`perm_media`**: every stream is rendered once; **`effect_effect`**, `stage_effect`: the effect settles,
  and puts a stream on the stage;
* `Screen`, `Screen.render`, `Screen.runEffect`, `Screen.choose`: the component between two renders;
* `stage_stays`: what is on the stage in two renders with the same selection.
-/

set_option autoImplicit false

namespace Screego.UseRoom

open Lib

/-! ## A render -/

/-- `selectedStream`, if it is not `undefined`: `HostStream`, or the id of a stream. -/
inductive Selected where
  | hostStream
  | client (id : String)
deriving DecidableEq

/-- A `MediaStream` of a page: captured, or brought by a call of `clientSession`. -/
inductive Media where
  | host (stream : ℕ)
  | client (session : ℕ)
deriving DecidableEq

/-- A `PreviewButton`, with its `key`. -/
structure Preview where
  key : Option String
  label : String
  stream : Media
  onSelect : Selected
deriving DecidableEq

namespace ConnectedRoom

variable (t : String → String) (state : ConnectedRoom) (selectedStream : Option Selected)

/-- The streams of the room. -/
def media : List Media :=
  state.hostStream.toList.map .host ++ state.clientStreams.map fun s => .client s.session

/-- **The effect**: the stream that is selected after it. -/
def effect : Option Selected :=
  if selectedStream = some .hostStream ∧ state.hostStream.isSome then selectedStream
  else if state.clientStreams.any fun s => some (.client s.id) = selectedStream then selectedStream
  else if state.hostStream.isSome then some .hostStream
  else state.clientStreams.head?.map fun s => .client s.id

/-- `stream`: what is on the stage. -/
def stage : Option Media :=
  match selectedStream with
  | some .hostStream => state.hostStream.map .host
  | some (.client id) => (state.clientStreams.find? fun s => s.id = id).map fun s => .client s.session
  | none => none

/-- **The previews**; `t` looks a text up. -/
def previews : List Preview :=
  ((state.clientStreams.filter fun s => some (.client s.id) ≠ selectedStream).map fun client =>
    { key := some client.id
      label := ((state.info.users.find? fun y => client.peerID = y.id).map RoomUser.name).getD
        (t "unknownUser")
      stream := .client client.session
      onSelect := .client client.id }) ++
  match state.hostStream with
  | some stream => if selectedStream = some .hostStream then [] else [⟨none, t "you", .host stream, .hostStream⟩]
  | none => []

/-- The status in the header. -/
def status : String :=
  if state.hostStream.isSome then t "sharingNow"
  else if (state.stage selectedStream).isSome then t "statusViewing"
  else t "waitingForScreen"

end ConnectedRoom

/-! ### The streams of a render -/

section Render

variable {t : String → String} {state : ConnectedRoom} {selectedStream : Option Selected}

/-- With ids of their own, one stream is taken out. -/
theorem find_filter_perm {l : List ClientStream} (h : (l.map ClientStream.id).Nodup) (id : String) :
    ((l.find? fun s => s.id = id).toList ++ l.filter fun s => s.id ≠ id).Perm l := by
  induction l with
  | nil => exact .nil
  | cons s l ih =>
    rw [List.map_cons, List.nodup_cons] at h
    by_cases hs : s.id = id
    · have hrest : l.filter (fun s => s.id ≠ id) = l := by
        refine List.filter_eq_self.mpr fun s' hs' => ?_
        rw [decide_eq_true_eq]
        rintro rfl
        exact h.1 (hs ▸ List.mem_map_of_mem hs')
      simp only [List.find?_cons, hs, decide_true, List.filter_cons, ne_eq, not_true_eq_false,
        decide_false, Bool.false_eq_true, if_false]
      exact .of_eq (congrArg (s :: ·) hrest)
    · simp only [List.find?_cons, hs, decide_false, List.filter_cons, ne_eq, not_false_eq_true,
        decide_true, if_true]
      exact List.perm_middle.trans ((ih h.2).cons s)

theorem media_previews : (state.previews t selectedStream).map Preview.stream =
    ((state.clientStreams.filter fun s => some (.client s.id) ≠ selectedStream).map fun s =>
      .client s.session) ++
    if selectedStream = some .hostStream then [] else state.hostStream.toList.map .host := by
  unfold ConnectedRoom.previews
  rw [List.map_append, List.map_map]
  congr 1
  cases state.hostStream <;> by_cases hs : selectedStream = some .hostStream <;> simp [hs]

/-- **Every stream of the room is rendered once**, on the stage or in a preview. -/
theorem perm_media (hid : (state.clientStreams.map ClientStream.id).Nodup) :
    ((state.stage selectedStream).toList ++ (state.previews t selectedStream).map Preview.stream).Perm
      state.media := by
  rw [media_previews]
  unfold ConnectedRoom.media
  match selectedStream with
  | none =>
    simp only [ConnectedRoom.stage, Option.toList_none, List.nil_append, ne_eq, reduceCtorEq,
      not_false_eq_true, decide_true, List.filter_true, if_false]
    exact List.perm_append_comm
  | some .hostStream =>
    simp only [ConnectedRoom.stage, ne_eq, Option.some.injEq, reduceCtorEq, not_false_eq_true,
      decide_true, List.filter_true, if_true, List.append_nil]
    refine .of_eq (congrArg (· ++ _) ?_)
    cases state.hostStream <;> rfl
  | some (.client id) =>
    simp only [ConnectedRoom.stage, ne_eq, Option.some.injEq, Selected.client.injEq, reduceCtorEq,
      if_false]
    have hperm := (find_filter_perm hid id).map fun s => Media.client s.session
    rw [List.map_append] at hperm
    rw [← List.append_assoc]
    refine List.Perm.trans ?_ List.perm_append_comm
    refine List.Perm.append_right _ (List.Perm.trans (.of_eq ?_) hperm)
    congr 1
    cases state.clientStreams.find? _ <;> rfl

/-- The keys of the previews. -/
theorem nodup_keys (hid : (state.clientStreams.map ClientStream.id).Nodup) :
    ((state.previews t selectedStream).map Preview.key).Nodup := by
  unfold ConnectedRoom.previews
  rw [List.map_append, List.map_map, List.nodup_append]
  refine ⟨?_, ?_, ?_⟩
  · have hsub := (List.filter_sublist (l := state.clientStreams)
      (p := fun s => some (Selected.client s.id) ≠ selectedStream)).map ClientStream.id
    have hkeys := (hid.sublist hsub).map (Option.some_injective String)
    rwa [List.map_map] at hkeys
  · cases state.hostStream with
    | none => exact List.nodup_nil
    | some stream =>
      dsimp only
      split_ifs
      · exact List.nodup_nil
      · exact List.nodup_singleton _
  · intro key hkey key' hkey'
    obtain ⟨s, -, rfl⟩ := List.mem_map.mp hkey
    cases hstream : state.hostStream with
    | none => simp [hstream] at hkey'
    | some stream =>
      simp only [hstream] at hkey'
      split_ifs at hkey'
      · exact absurd hkey' List.not_mem_nil
      · rw [List.map_singleton, List.mem_singleton] at hkey'
        simp [hkey']

/-- The stage is empty where the effect would select something, or there is nothing. -/
theorem effect_of_stage {m : Media} (h : state.stage selectedStream = some m) :
    state.effect selectedStream = selectedStream := by
  unfold ConnectedRoom.effect
  match selectedStream, h with
  | some .hostStream, h =>
    obtain ⟨stream, hstream, -⟩ := Option.map_eq_some_iff.mp h
    rw [if_pos ⟨rfl, by rw [hstream]; rfl⟩]
  | some (.client id), h =>
    obtain ⟨s, hs, -⟩ := Option.map_eq_some_iff.mp h
    have hid : s.id = id := by simpa using List.find?_some hs
    rw [if_neg (by simp), if_pos]
    exact List.any_eq_true.mpr ⟨s, List.mem_of_find?_eq_some hs, by simp [hid]⟩

/-- **What the effect selects is on the stage**, unless there is no stream. -/
theorem stage_effect (h : state.stage (state.effect selectedStream) = none) : state.media = [] := by
  unfold ConnectedRoom.effect at h
  split_ifs at h with hhost hany hstream
  · obtain ⟨rfl, hsome⟩ := hhost
    rw [ConnectedRoom.stage, Option.map_eq_none_iff] at h
    rw [h] at hsome
    cases hsome
  · obtain ⟨s, hs, hid⟩ := List.any_eq_true.mp hany
    rw [← of_decide_eq_true hid, ConnectedRoom.stage, Option.map_eq_none_iff, List.find?_eq_none] at h
    exact absurd (decide_eq_true rfl) (h s hs)
  · rw [ConnectedRoom.stage, Option.map_eq_none_iff] at h
    rw [h] at hstream
    cases hstream
  · have hnone : state.hostStream = none := Option.not_isSome_iff_eq_none.mp hstream
    cases hclients : state.clientStreams with
    | nil => rw [ConnectedRoom.media, hnone, hclients]; rfl
    | cons s l => simp [hclients, ConnectedRoom.stage] at h

theorem effect_eq_none (h : state.media = []) (selectedStream : Option Selected) :
    state.effect selectedStream = none := by
  have hparts := List.append_eq_nil_iff.mp h
  have hhost : state.hostStream = none := by
    cases hstream : state.hostStream with
    | none => rfl
    | some stream => simp [hstream] at hparts
  have hclients : state.clientStreams = [] := List.map_eq_nil_iff.mp hparts.2
  simp [ConnectedRoom.effect, hhost, hclients]

/-- **The effect settles**: where it has run, it does nothing. -/
theorem effect_effect (state : ConnectedRoom) (selectedStream : Option Selected) :
    state.effect (state.effect selectedStream) = state.effect selectedStream := by
  cases hstage : state.stage (state.effect selectedStream) with
  | some m => exact effect_of_stage hstage
  | none => rw [effect_eq_none (stage_effect hstage), effect_eq_none (stage_effect hstage)]

end Render

/-! ## Between renders -/

/-- **What React keeps of the page.** -/
structure Screen where
  /-- The room of the last render, if `Room` is mounted. -/
  state : Option ConnectedRoom
  /-- The `selectedStream` of that render. -/
  selectedStream : Option Selected
  /-- What `setSelectedStream` has been called with since. -/
  next : Option Selected
  /-- The effect of that render is still to run. -/
  pending : Bool
deriving DecidableEq

namespace Screen

def init : Screen := ⟨none, none, none, false⟩

variable (t : String → String) (screen : Screen)

/-- **A render**: the effects of the last one have run by then. -/
def render (state : Option ConnectedRoom) : Option Screen :=
  if screen.pending then none
  else match state with
    | none => some init
    | some current =>
      -- a component that is mounted starts with `undefined`
      let selectedStream := if screen.state.isSome then screen.next else none
      some ⟨some current, selectedStream, selectedStream, true⟩

/-- The effect of the last render runs: it sets what is not set. -/
def runEffect : Option Screen :=
  match screen.state with
  | some current =>
    if screen.pending then
      let nextStream := current.effect screen.selectedStream
      some { screen with
        next := if nextStream = screen.selectedStream then screen.next else nextStream
        pending := false }
    else none
  | none => none

/-- The user presses a preview. -/
def choose (j : ℕ) : Option Screen := do
  let current ← screen.state
  let preview ← (current.previews t screen.selectedStream)[j]?
  some { screen with next := some preview.onSelect }

/-- The state has been rendered, and nothing is to be done. -/
def Settled (state : Option ConnectedRoom) : Prop :=
  screen.state = state ∧ screen.pending = false ∧ screen.next = screen.selectedStream

/-- What is on the stage. -/
def stage : Option Media := screen.state.bind fun current => current.stage screen.selectedStream

end Screen

section Screen

variable {t : String → String} {screen screen' : Screen} {state current : ConnectedRoom} {b : Hook} {m : Media}

/-- **Where nothing is to be done, the effect would do nothing.** -/
def Screen.Effected (screen : Screen) : Prop := ∀ current, screen.state = some current →
  screen.pending = false → current.effect screen.selectedStream = screen.selectedStream ∨
    screen.next ≠ screen.selectedStream

/-- A preview is of another stream than the one that is selected. -/
theorem onSelect_ne {preview : Preview} {selectedStream : Option Selected}
    (h : preview ∈ current.previews t selectedStream) : some preview.onSelect ≠ selectedStream := by
  rcases List.mem_append.mp h with h | h
  · obtain ⟨s, hs, rfl⟩ := List.mem_map.mp h
    exact of_decide_eq_true (List.mem_filter.mp hs).2
  · cases hstream : current.hostStream with
    | none => simp [hstream] at h
    | some stream =>
      simp only [hstream] at h
      split_ifs at h with hsel
      · exact absurd h List.not_mem_nil
      · obtain rfl := List.mem_singleton.mp h
        exact fun he => hsel he.symm

theorem Screen.effected_choose {j : ℕ} (h : screen.choose t j = some screen') : screen'.Effected := by
  obtain ⟨current, hcurrent, h⟩ := Option.bind_eq_some_iff.mp h
  obtain ⟨preview, hpreview, h⟩ := Option.bind_eq_some_iff.mp h
  obtain rfl := Option.some.inj h
  exact fun _ _ _ => Or.inr (onSelect_ne (List.mem_of_getElem? hpreview))

theorem Screen.runEffect_eq (h : screen.runEffect = some screen') : ∃ current,
    screen.state = some current ∧ screen.pending = true ∧ screen' = { screen with
      next := if current.effect screen.selectedStream = screen.selectedStream then screen.next
        else current.effect screen.selectedStream
      pending := false } := by
  unfold Screen.runEffect at h
  split at h
  case h_2 => cases h
  case h_1 current hcurrent =>
    split_ifs at h with hpending
    exact ⟨current, hcurrent, hpending, (Option.some.inj h).symm⟩

theorem Screen.effected_runEffect (h : screen.runEffect = some screen') : screen'.Effected := by
  obtain ⟨current, hcurrent, -, rfl⟩ := Screen.runEffect_eq h
  intro current' hcurrent' _
  obtain rfl := Option.some.inj (hcurrent.symm.trans hcurrent')
  by_cases hset : current.effect screen.selectedStream = screen.selectedStream
  · exact Or.inl hset
  · exact Or.inr (by simp [hset])

theorem Screen.render_eq {state : Option ConnectedRoom} (h : screen.render state = some screen') :
    screen.pending = false ∧ ((state = none ∧ screen' = .init) ∨ ∃ current selectedStream,
      state = some current ∧ selectedStream = (if screen.state.isSome then screen.next else none) ∧
      screen' = ⟨some current, selectedStream, selectedStream, true⟩) := by
  unfold Screen.render at h
  by_cases hpending : screen.pending = true
  · rw [if_pos hpending] at h
    cases h
  rw [if_neg hpending] at h
  refine ⟨Bool.not_eq_true _ ▸ hpending, ?_⟩
  cases state with
  | none => exact Or.inl ⟨rfl, (Option.some.inj h).symm⟩
  | some current => exact Or.inr ⟨current, _, rfl, rfl, (Option.some.inj h).symm⟩

theorem Screen.render_none (h : screen.pending = false) : screen.render none = some .init := by
  simp [Screen.render, h]

theorem Screen.render_some (h : screen.pending = false) (current : ConnectedRoom) :
    screen.render (some current) = some ⟨some current, if screen.state.isSome then screen.next else none,
      if screen.state.isSome then screen.next else none, true⟩ := by
  simp [Screen.render, h]

theorem Screen.effected_render {state : Option ConnectedRoom} (h : screen.render state = some screen') :
    screen'.Effected := by
  obtain ⟨-, ⟨-, rfl⟩ | ⟨current, selectedStream, -, -, rfl⟩⟩ := Screen.render_eq h
  · exact fun _ he => nomatch he
  · exact fun _ _ hpending => nomatch hpending

/-- A screen that is settled. -/
theorem Screen.Effected.effect_eq (h : screen.Effected) {state : Option ConnectedRoom}
    (hsettled : screen.Settled state) (hcurrent : screen.state = some current) :
    current.effect screen.selectedStream = screen.selectedStream :=
  (h current hcurrent hsettled.2.1).resolve_right fun hne => hne hsettled.2.2

/-! ### The stage stays -/

/-- The streams that were rendered are those of calls. -/
structure Screen.Sourced (screen : Screen) (b : Hook) : Prop where
  sourced : ∀ current, screen.state = some current → UseRoom.Sourced b current.clientStreams
  ids : ∀ current, screen.state = some current → (current.clientStreams.map ClientStream.id).Nodup

theorem Screen.Sourced.init (b : Hook) : Screen.Sourced .init b where
  sourced _ he := nomatch he
  ids _ he := nomatch he

/-- The stream of a call has one id. -/
theorem id_of_session {l l' : List ClientStream} (h : Sourced b l) (h' : Sourced b l')
    {s s' : ClientStream} (hs : s ∈ l) (hs' : s' ∈ l') (hsession : s.session = s'.session) :
    s.id = s'.id := by
  obtain ⟨σ, hσ, hviewed, -⟩ := h.brought s hs
  obtain ⟨σ', hσ', hviewed', -⟩ := h'.brought s' hs'
  rw [hsession, hσ'] at hσ
  obtain rfl := Option.some.inj hσ
  exact congrArg Prod.fst (Option.some.inj (hviewed.symm.trans hviewed'))

/-- **What is on the stage stays there** in another render with the same selection, if it is there still. -/
theorem stage_stays {selectedStream : Option Selected} (h : Sourced b state.clientStreams)
    (h' : Sourced b current.clientStreams) (hid : (current.clientStreams.map ClientStream.id).Nodup)
    (hstage : state.stage selectedStream = some m) (hm : m ∈ current.media) :
    current.stage selectedStream = some m := by
  match selectedStream, hstage with
  | some .hostStream, hstage =>
    obtain ⟨stream, -, rfl⟩ := Option.map_eq_some_iff.mp hstage
    rcases List.mem_append.mp hm with hm | hm
    · obtain ⟨stream', hstream', he⟩ := List.mem_map.mp hm
      rw [ConnectedRoom.stage, Option.mem_toList.mp hstream', Option.map_some, he]
    · obtain ⟨s, -, he⟩ := List.mem_map.mp hm
      cases he
  | some (.client id), hstage =>
    obtain ⟨s, hs, rfl⟩ := Option.map_eq_some_iff.mp hstage
    have hsid : s.id = id := by simpa using List.find?_some hs
    rcases List.mem_append.mp hm with hm | hm
    · obtain ⟨stream, -, he⟩ := List.mem_map.mp hm
      cases he
    obtain ⟨s', hs', he⟩ := List.mem_map.mp hm
    have hsession : s'.session = s.session := Media.client.inj he
    have hid' : s'.id = id :=
      (id_of_session h' h hs' (List.mem_of_find?_eq_some hs) hsession).trans hsid
    rw [ConnectedRoom.stage, Option.map_eq_some_iff]
    refine ⟨s', ?_, he⟩
    cases hfind : current.clientStreams.find? fun s => s.id = id with
    | none => exact absurd (decide_eq_true hid') (List.find?_eq_none.mp hfind s' hs')
    | some s₁ =>
      have hs₁ : s₁.id = id := by simpa using List.find?_some hfind
      exact congrArg some (List.inj_on_of_nodup_map hid (List.mem_of_find?_eq_some hfind) hs'
        (hs₁.trans hid'.symm))

end Screen

end Screego.UseRoom
