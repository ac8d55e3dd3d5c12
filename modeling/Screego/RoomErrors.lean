import Screego.Lib.Search
import Screego.Lib.Utf16
import Screego.Story
import Screego.Xid

/-!
# What the browser makes of a failure

A request to enter a room that fails ends the connection, with the error as the reason of the close
message. The browser tells the failures apart by words in the reason, and the reason holds the id.

* `closeReason`: the reason that arrives; `roomErrorKind`, `connectionResult` of `ui/src/useRoom.ts`;
* `handle_fail_idle`, `log_fail_idle`: what a client hears of a failed request;
* `FailuresReported`: the failures are reported as what they are, in every state of a run;
* `Misleading`: words in the id that stand for another failure;
* **`failures_reported_iff`**: the ids with which they are.
-/

set_option autoImplicit false

namespace Screego

open Lib Outgoing

/-! ## The browser -/

/-- The most bytes of a reason: 125 for the payload of a control frame, less two for the code. -/
def maxCloseReason : ℕ := 123

/-- The reason of the close event, when `writeCloseMessage` has written the reason: a message that is
too long is not sent. -/
def closeReason (reason : String) : JsString :=
  if reason.utf8ByteSize ≤ maxCloseReason then utf16 reason.toList else []

inductive RoomErrorKind where
  | alreadyExists
  | alreadyJoined
  | disconnected
  | notFound
  | tooShort
  | unauthorized
deriving DecidableEq

/-- `String.prototype.includes`. -/
def includes (s : List Char) (pattern : String) : Bool := decide (pattern.toList <:+: s)

section Browser

variable (T : CaseTable)

/-- **`roomErrorKind`.** -/
def roomErrorKind (reason : JsString) : RoomErrorKind :=
  let normalized := toLowerCase T (decode (JsString.trim reason))
  if normalized = [] then .disconnected
  else if includes normalized "not found" || includes normalized "does not exist" then .notFound
  else if includes normalized "authenticate" || includes normalized "unauthorized" ||
      includes normalized "you need to login" then .unauthorized
  else if includes normalized "already exists" || includes normalized "does already exist" then
    .alreadyExists
  else if includes normalized "already in one" then .alreadyJoined
  else if includes normalized "room id" && includes normalized "at least" then .tooShort
  else .disconnected

/-- A `RoomConnectionResult`. -/
inductive RoomConnectionResult where
  | ok
  | failed (kind : RoomErrorKind) (reason : JsString)
deriving DecidableEq

/-- `roomError`. -/
def roomError (reason : JsString) : RoomConnectionResult := .failed (roomErrorKind T reason) reason

/-- **The result of `room()`**: the first frame decides, or the close event that comes before any. -/
def connectionResult (log : List Message) : Option RoomConnectionResult :=
  match log.head? with
  | none => none
  | some (.room _) => some .ok
  | some (.closeWriter _ reason) => some (roomError T (closeReason reason))
  | some _ => some (roomError T (utf16 "received unknown event".toList))

end Browser

/-! ## The failed request -/

section Failed

variable {env : Env} {ch : Choice} {s : Rooms} {info : ClientInfo} {e : Event} {reason : String}

/-- **A request of a client in no room that fails** before it has changed anything. -/
theorem handle_fail_idle (hw : info.write = ⟨info.id⟩)
    (hc : s.connected.lookup info.id = some "")
    (hex : e.execute env ch s info = some (.fail s reason)) :
    s.handle env ch ⟨info, false, e⟩ =
      some (s.drop info.id, [Disconnected.close info.id ⟨closeNormalClosure, reason⟩]) := by
  rw [handle_eq (Finmap.mem_of_lookup_eq_some hc), hex]
  simp only [Outcome.fail, Option.map_some, executeNoError_idle hw hc, List.nil_append]

/-- **All that the client hears**: the close, with the error as its reason. -/
theorem log_fail_idle {w w' : World} (h : w.Ok env) (hl : LogOk w) {c : XID}
    (hinfo : w.clients.lookup c = some info) (hc : w.rooms.connected.lookup c = some "")
    {he : e.fromClient = true} (hex : e.execute env ch w.rooms info = some (.fail w.rooms reason))
    (hs : w.step env (ch, .receive c e he) = some w') :
    w'.log c = [.closeWriter closeNormalClosure reason] := by
  obtain ⟨rfl, hw⟩ := h.info c info hinfo
  simp only [World.step, hinfo, handle_fail_idle hw hc hex, Option.map_some, Option.some.injEq] at hs
  rw [← hs, log_after, hl.idle _ hc, List.nil_append, heard_close, if_pos rfl]
  rfl

end Failed

/-! ## The reason and its words -/

/-- The words that `roomErrorKind` looks for before it looks for those of an existing room. -/
def earlierWords : List String :=
  ["not found", "does not exist", "authenticate", "unauthorized", "you need to login"]

/-- **The id has words that stand for another failure**, whatever the case of their letters. -/
def Misleading (R : String) : Prop :=
  ∃ p ∈ earlierWords, p.toList <:+: R.toList.map Char.toLower

instance (R : String) : Decidable (Misleading R) :=
  inferInstanceAs (Decidable (∃ p ∈ earlierWords, p.toList <:+: R.toList.map Char.toLower))

/-- The error of `Create.Execute` for a room that exists. -/
def existsError (R : String) : String := "room with id " ++ R ++ " does already exist"

/-- The error of `Join.Execute` for a room that does not. -/
def missingError (R : String) : String := "room with id " ++ R ++ " does not exist"

section Words

variable {T : CaseTable} {R : String}

/-- A text from `r` to `t` is its own trimmed form. -/
theorem trim_utf16 (l : List Char) :
    JsString.trim (utf16 ('r' :: (l ++ ['t']))) = utf16 ('r' :: (l ++ ['t'])) := by
  have hsplit : utf16 ('r' :: (l ++ ['t'])) = 0x72 :: (utf16 l ++ [0x74]) := by
    simp only [utf16, List.flatMap_cons, List.flatMap_append, List.flatMap_nil, List.append_nil]
    rfl
  rw [hsplit]
  refine JsString.trim_iff.mp ⟨fun u hu => ?_, fun u hu => ?_⟩
  · cases hu
    decide
  · rw [← List.cons_append, List.getLast?_concat] at hu
    cases hu
    decide

/-- What `roomErrorKind` looks at, for a reason that arrives. -/
theorem normalized_eq {l : List Char} {reason : String} (hl : reason.toList = 'r' :: (l ++ ['t']))
    (hsize : reason.utf8ByteSize ≤ maxCloseReason) :
    decode (JsString.trim (closeReason reason)) = reason.toList := by
  rw [closeReason, if_pos hsize, hl, trim_utf16, decode_utf16]

/-- A word in the reason. -/
theorem includes_iff {p : String} (hp : Plainly p.toList) (hne : p.toList ≠ []) (l : List Char) :
    includes (toLowerCase T l) p = true ↔ p.toList <:+: l.map Char.toLower := by
  rw [includes, decide_eq_true_eq, infix_toLowerCase hp hne]

/-- A reason that is lost. -/
theorem roomErrorKind_lost {reason : String} (hsize : ¬ reason.utf8ByteSize ≤ maxCloseReason) :
    roomErrorKind T (closeReason reason) = .disconnected := by
  rw [closeReason, if_neg hsize]
  rfl

theorem toLowerCase_ne_nil {l : List Char} (hl : l ≠ []) : toLowerCase T l ≠ [] := by
  obtain ⟨c, l, rfl⟩ := List.exists_cons_of_ne_nil hl
  rw [toLowerCase, lowerFrom]
  exact fun h => T.lower_ne_nil _ _ _ (List.append_eq_nil_iff.mp h).1

theorem toList_existsError (R : String) : (existsError R).toList =
    "room with id ".toList ++ R.toList ++ " does already exist".toList := by
  simp only [existsError, String.toList_append]

theorem toList_missingError (R : String) : (missingError R).toList =
    "room with id ".toList ++ R.toList ++ " does not exist".toList := by
  simp only [missingError, String.toList_append]

/-- The words around the id are in lower case, and no earlier word can reach into them. -/
theorem earlier_word {p : String} (hp : p ∈ earlierWords) (R : String) :
    includes (toLowerCase T (existsError R).toList) p = true ↔
      p.toList <:+: R.toList.map Char.toLower := by
  have hall : earlierWords.all (fun p => decide (Plainly p.toList) && decide (p.toList ≠ []) &&
      apart "room with id ".toList p.toList &&
      apart " does already exist".toList.reverse p.toList.reverse) = true := by
    decide
  have hword := List.all_eq_true.mp hall p hp
  simp only [Bool.and_eq_true, decide_eq_true_eq] at hword
  obtain ⟨⟨⟨hplain, hne⟩, hleft⟩, hright⟩ := hword
  have hbefore : "room with id ".toList.map Char.toLower = "room with id ".toList := by decide
  have hafter : " does already exist".toList.map Char.toLower = " does already exist".toList := by
    decide
  rw [includes_iff hplain hne, toList_existsError, List.map_append, List.map_append, hbefore, hafter]
  exact infix_between hleft hright

/-- The order of the tests, when the reason has the words of an existing room. -/
theorem kind_of_words : ∀ a b c d e : Bool,
    ((if (a || b) = true then RoomErrorKind.notFound
      else if (c || d || e) = true then .unauthorized else .alreadyExists) = .alreadyExists ↔
    ¬ (a = true ∨ b = true ∨ c = true ∨ d = true ∨ e = true)) := by
  decide

/-- **The kind of a failed `Create`.** -/
theorem roomErrorKind_exists (T : CaseTable) (R : String) :
    roomErrorKind T (closeReason (existsError R)) = .alreadyExists ↔
      R.utf8ByteSize ≤ 91 ∧ ¬ Misleading R := by
  have hbytes : (existsError R).utf8ByteSize = 13 + R.utf8ByteSize + 19 := by
    rw [existsError, String.utf8ByteSize_append, String.utf8ByteSize_append]
    rfl
  by_cases hsize : (existsError R).utf8ByteSize ≤ maxCloseReason
  · have hfit : R.utf8ByteSize ≤ 91 := by
      rw [hbytes, maxCloseReason] at hsize
      omega
    have hl : (existsError R).toList =
        'r' :: ("oom with id ".toList ++ R.toList ++ " does already exis".toList ++ ['t']) := by
      rw [toList_existsError]
      simp
    have hne : toLowerCase T (existsError R).toList ≠ [] := by
      refine toLowerCase_ne_nil ?_
      rw [hl]
      exact List.cons_ne_nil _ _
    have hlast : includes (toLowerCase T (existsError R).toList) "does already exist" = true := by
      refine (includes_iff (by decide) (by decide) _).mpr ?_
      rw [toList_existsError, List.map_append]
      exact List.IsInfix.trans ⟨[' '], [], by decide⟩ (List.suffix_append _ _).isInfix
    have hwords : Misleading R ↔ ∃ p ∈ earlierWords,
        includes (toLowerCase T (existsError R).toList) p = true :=
      exists_congr fun p => and_congr_right fun hp => (earlier_word hp R).symm
    rw [and_iff_right hfit, hwords]
    simp only [roomErrorKind, normalized_eq hl hsize, hne, if_false, hlast, Bool.or_true, if_true,
      earlierWords, List.mem_cons, List.not_mem_nil, or_false, exists_eq_or_imp, exists_eq_left]
    exact kind_of_words _ _ _ _ _
  · have hlong : ¬ R.utf8ByteSize ≤ 91 := by
      rw [hbytes, maxCloseReason] at hsize
      omega
    rw [roomErrorKind_lost hsize]
    exact iff_of_false (by decide) fun h => hlong h.1

/-- **The kind of a failed `Join`.** -/
theorem roomErrorKind_missing (T : CaseTable) (R : String) :
    roomErrorKind T (closeReason (missingError R)) = .notFound ↔ R.utf8ByteSize ≤ 95 := by
  have hbytes : (missingError R).utf8ByteSize = 13 + R.utf8ByteSize + 15 := by
    rw [missingError, String.utf8ByteSize_append, String.utf8ByteSize_append]
    rfl
  by_cases hsize : (missingError R).utf8ByteSize ≤ maxCloseReason
  · have hfit : R.utf8ByteSize ≤ 95 := by
      rw [hbytes, maxCloseReason] at hsize
      omega
    have hl : (missingError R).toList =
        'r' :: ("oom with id ".toList ++ R.toList ++ " does not exis".toList ++ ['t']) := by
      rw [toList_missingError]
      simp
    have hne : toLowerCase T (missingError R).toList ≠ [] := by
      refine toLowerCase_ne_nil ?_
      rw [hl]
      exact List.cons_ne_nil _ _
    have hlast : includes (toLowerCase T (missingError R).toList) "does not exist" = true := by
      refine (includes_iff (by decide) (by decide) _).mpr ?_
      rw [toList_missingError, List.map_append]
      exact List.IsInfix.trans ⟨[' '], [], by decide⟩ (List.suffix_append _ _).isInfix
    rw [iff_true_right hfit]
    simp only [roomErrorKind, normalized_eq hl hsize, hne, if_false, hlast, Bool.or_true, if_true]
  · have hlong : ¬ R.utf8ByteSize ≤ 95 := by
      rw [hbytes, maxCloseReason] at hsize
      omega
    rw [roomErrorKind_lost hsize]
    exact iff_of_false (by decide) hlong

end Words

/-! ## Every run -/

/-- **The failures are reported as what they are**, in every state of a run of any server: a client in
no room that creates the room `R` with `JoinIfExist` off, or joins it. -/
def FailuresReported (T : CaseTable) (R : String) : Prop :=
  ∀ env : Env, (server env).Always fun w => ∀ ch c w', w.rooms.connected.lookup c = some "" →
    (∀ q : Create, normalizeRoomID q.id = .ok R → q.joinIfExist = false → R ∈ w.rooms.rooms →
      w.step env (ch, .create c q) = some w' →
      ∃ reason, connectionResult T (w'.log c) = some (.failed .alreadyExists reason)) ∧
    ∀ j : Join, normalizeRoomID j.id = .ok R → R ∉ w.rooms.rooms →
      w.step env (ch, .join c j) = some w' →
      ∃ reason, connectionResult T (w'.log c) = some (.failed .notFound reason)

section Every

variable {T : CaseTable} {env : Env} {ch : Choice} {w w' : World} {c : XID} {R : String}

/-- The result of a failed `Create`. -/
theorem connectionResult_exists (h : w.Ok env) (hl : LogOk w)
    (hc : w.rooms.connected.lookup c = some "") {q : Create} (hq : normalizeRoomID q.id = .ok R)
    (hjoin : q.joinIfExist = false) (hR : R ∈ w.rooms.rooms)
    (hs : w.step env (ch, .create c q) = some w') : connectionResult T (w'.log c) =
      some (roomError T (closeReason (existsError R))) := by
  obtain ⟨info, hinfo⟩ := Finmap.mem_iff.mp (h.known c (Finmap.mem_of_lookup_eq_some hc))
  have hid := (h.info c info hinfo).1
  rw [log_fail_idle h hl hinfo hc
    (execute_create_exists env ch (hid.symm ▸ hc) hq hR (by rw [hjoin]; exact Bool.false_ne_true)) hs]
  rfl

/-- The result of a failed `Join`. -/
theorem connectionResult_missing (h : w.Ok env) (hl : LogOk w)
    (hc : w.rooms.connected.lookup c = some "") {j : Join} (hj : normalizeRoomID j.id = .ok R)
    (hR : R ∉ w.rooms.rooms) (hs : w.step env (ch, .join c j) = some w') :
    connectionResult T (w'.log c) = some (roomError T (closeReason (missingError R))) := by
  obtain ⟨info, hinfo⟩ := Finmap.mem_iff.mp (h.known c (Finmap.mem_of_lookup_eq_some hc))
  have hid := (h.info c info hinfo).1
  rw [log_fail_idle h hl hinfo hc (execute_join_missing env ch (hid.symm ▸ hc) hj hR) hs]
  rfl

/-- A new connection is a client in no room, and changes no room. -/
theorem idle_after_upgrade (h : w.Ok env) {addr : IP} {user : String} {authenticated : Bool}
    (hs : w.step env (ch, .upgrade addr user authenticated) = some w') :
    w'.rooms.rooms = w.rooms.rooms ∧ ∃ c, w'.rooms.connected.lookup c = some "" ∧
      w'.clients.lookup c = some (newClientInfo c addr user authenticated) := by
  cases h.change_of_step hs
  exact ⟨rfl, _, Finmap.lookup_insert _, Finmap.lookup_insert _⟩

/-- A room that was created is there. -/
theorem mem_rooms_after_create (h : w.Ok env) (hc : w.rooms.connected.lookup c = some "")
    {info : ClientInfo} (hinfo : w.clients.lookup c = some info) {q : Create}
    (hq : normalizeRoomID q.id = .ok R) (hR : R ∉ w.rooms.rooms) (ha : q.authError env info = none)
    (hs : w.step env (ch, .create c q) = some w') : R ∈ w'.rooms.rooms := by
  obtain ⟨rfl, hw⟩ := h.info c info hinfo
  simp only [World.step, Input.create, hinfo, handle_eq (Finmap.mem_of_lookup_eq_some hc),
    execute_create ch hc hq hR ha, Option.map_some, Option.some.injEq] at hs
  rw [← hs]
  exact Finmap.mem_insert.mpr (Or.inl rfl)

/-- The request to create the room `id`. -/
def createRequest (id : String) : Create := ⟨id, connectionLocal, false, "", "", false⟩

/-- **Some run leads to a room of any id**, with a client in no room. -/
theorem exists_room {id : String} (hR : normalizeRoomID id = .ok R) :
    ∃ is w c, (server openServer).run is = some w ∧ R ∈ w.rooms.rooms ∧
      w.rooms.connected.lookup c = some "" := by
  have hok := server_ok openServer
  obtain ⟨w₁, hr₁, h₁⟩ := hok ([] ++ [(Choice.plain, .upgrade [] "" false)])
  have hs₁ : (World.init openServer).step openServer (Choice.plain, .upgrade [] "" false) = some w₁ :=
    by simpa only [Machine.run_concat, Machine.run_nil, Option.bind_some, server] using hr₁
  obtain ⟨hrooms, c, hidle, hinfo⟩ := idle_after_upgrade World.Ok.init hs₁
  have hnew : R ∉ w₁.rooms.rooms := by
    rw [hrooms]
    exact Finmap.notMem_empty
  obtain ⟨w₂, hr₂, h₂⟩ := hok ([] ++ [(Choice.plain, .upgrade [] "" false)] ++
    [(Choice.plain, .create c (createRequest id))])
  have hs₂ : w₁.step openServer (Choice.plain, .create c (createRequest id)) = some w₂ := by
    rwa [Machine.run_concat, hr₁, Option.bind_some] at hr₂
  have hmem := mem_rooms_after_create h₁ hidle hinfo (q := createRequest id) hR hnew rfl hs₂
  obtain ⟨w₃, hr₃, h₃⟩ := hok ([] ++ [(Choice.plain, .upgrade [] "" false)] ++
    [(Choice.plain, .create c (createRequest id))] ++ [(Choice.plain, .upgrade [] "" false)])
  have hs₃ : w₂.step openServer (Choice.plain, .upgrade [] "" false) = some w₃ := by
    rwa [Machine.run_concat, hr₂, Option.bind_some] at hr₃
  obtain ⟨hrooms', c', hidle', -⟩ := idle_after_upgrade h₂ hs₃
  exact ⟨_, w₃, c', hr₃, hrooms' ▸ hmem, hidle'⟩

/-- The failed `Create` is reported only if its reason is understood. -/
theorem FailuresReported.kind {id : String} (h : FailuresReported T R)
    (hR : normalizeRoomID id = .ok R) :
    roomErrorKind T (closeReason (existsError R)) = .alreadyExists := by
  obtain ⟨is, w, c, hrun, hmem, hidle⟩ := exists_room hR
  obtain ⟨hok, hl, -⟩ := (server_storyOk openServer).of_run hrun
  obtain ⟨w', hs, -⟩ := hok.step_change Choice.plain (.create c (createRequest id))
  obtain ⟨reason, hresult⟩ :=
    ((h openServer).of_run hrun Choice.plain c w' hidle).1 (createRequest id) hR rfl hmem hs
  rw [connectionResult_exists hok hl hidle (q := createRequest id) hR rfl hmem hs, roomError]
    at hresult
  exact (RoomConnectionResult.failed.inj (Option.some.inj hresult)).1

/-- **Failures are reported as what they are** exactly for ids of at most 91 bytes without words that
stand for another failure. -/
theorem failures_reported_iff (T : CaseTable) {id R : String} (hR : normalizeRoomID id = .ok R) :
    FailuresReported T R ↔ R.utf8ByteSize ≤ 91 ∧ ¬ Misleading R := by
  constructor
  · exact fun h => (roomErrorKind_exists T R).mp (h.kind hR)
  · intro hR env
    refine (server_storyOk env).mono fun w hw ch c w' hc => ⟨fun q hq hjoin hmem hs => ?_,
      fun j hj hmem hs => ?_⟩
    · rw [connectionResult_exists hw.1 hw.2.1 hc hq hjoin hmem hs, roomError,
        (roomErrorKind_exists T R).mpr hR]
      exact ⟨_, rfl⟩
    · rw [connectionResult_missing hw.1 hw.2.1 hc hj hmem hs, roomError,
        (roomErrorKind_missing T R).mpr (hR.1.trans (by decide))]
      exact ⟨_, rfl⟩

/-- A plain id. -/
theorem failures_reported_room :
    FailuresReported CaseTable.plain "room" ↔ "room".utf8ByteSize ≤ 91 ∧ ¬ Misleading "room" :=
  failures_reported_iff CaseTable.plain
    (show normalizeRoomID " room " = .ok "room" by decide +kernel)

/-- **An id that misleads the browser**: that the room `not found` exists is reported as not found. -/
theorem not_found_misleads :
    roomErrorKind CaseTable.plain (closeReason (existsError "not found")) = .notFound ∧
      ¬ ∀ id R, normalizeRoomID id = .ok R → FailuresReported CaseTable.plain R := by
  have hkind : roomErrorKind CaseTable.plain (closeReason (existsError "not found")) = .notFound := by
    decide +kernel
  have hok : normalizeRoomID "not found" = .ok "not found" :=
    normalizeRoomID_eq_ok.mpr ⟨by decide, by decide⟩
  refine ⟨hkind, fun hall => ?_⟩
  have h := (hall _ _ hok).kind hok
  rw [hkind] at h
  cases h

end Every

end Screego
