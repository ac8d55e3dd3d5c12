import Screego.Lib.Utf16
import Screego.Room

/-!
# Room ids in the browser and on the server

`validateRoomId` of `ui/src/RoomManage.tsx` and `normalizeRoomID` of `ws/room_id.go` both ask for at
least four characters after trimming. One counts UTF-16 units, the other bytes, and they trim
different white space.

* `validateRoomId`; `received`: the text the server reads of a string the browser sends;
* `trimSpace_received`: the server trims `U+0085` alone of what the browser has trimmed;
* `Agree`: the two agree on a string, and with the stated rule;
* **`agree_iff`**: exactly when.
-/

set_option autoImplicit false

namespace Screego

open Lib

/-! ## The two checks -/

/-- The `minRoomIdLength` of the browser. -/
def minRoomIdLength : ℕ := 4

/-- What `validateRoomId` shows under the field. -/
inductive IdError where
  | fieldRequired
  | roomIdTooShort (min : ℕ)
deriving DecidableEq

/-- **`validateRoomId`**: the id that is sent, or the error that is shown. -/
def validateRoomId (id : JsString) : Except IdError JsString :=
  let trimmedId := JsString.trim id
  if trimmedId = [] then .error .fieldRequired
  else if trimmedId.length < minRoomIdLength then .error (.roomIdTooShort minRoomIdLength)
  else .ok trimmedId

/-- The text that `encoding/json` reads of a string the browser sends. -/
def received (s : JsString) : String := String.ofList (decode s)

/-- The browser accepts the id. -/
def BrowserAccepts (id : JsString) : Prop := ∃ t, validateRoomId id = .ok t

/-- The server accepts the id. -/
def ServerAccepts (id : String) : Prop := ∃ R, normalizeRoomID id = .ok R

theorem validateRoomId_eq_ok {id t : JsString} :
    validateRoomId id = .ok t ↔ JsString.trim id = t ∧ minRoomIdLength ≤ t.length := by
  simp only [validateRoomId]
  constructor
  · intro h
    split_ifs at h with hnil hlen
    cases h
    exact ⟨rfl, Nat.not_lt.mp hlen⟩
  · rintro ⟨rfl, hlen⟩
    have hne : JsString.trim id ≠ [] := fun e => by
      rw [e] at hlen
      exact absurd hlen (by decide)
    rw [if_neg hne, if_neg (Nat.not_lt.mpr hlen)]

theorem browserAccepts_iff {id : JsString} :
    BrowserAccepts id ↔ minRoomIdLength ≤ (JsString.trim id).length := by
  simp [BrowserAccepts, validateRoomId_eq_ok]

theorem serverAccepts_iff {id : String} :
    ServerAccepts id ↔ minRoomIDLength ≤ (trimSpace id).utf8ByteSize := by
  simp [ServerAccepts, normalizeRoomID_eq_ok]

/-! ## Characters, units and bytes -/

/-- A text has at least as many bytes as characters. -/
theorem length_le_utf8ByteSize (s : String) : s.toList.length ≤ s.utf8ByteSize := by
  have hlist : ∀ l : List Char, l.length ≤ (String.ofList l).utf8ByteSize := by
    intro l
    induction l with
    | nil => exact Nat.zero_le _
    | cons c l ih =>
      have hsize := c.utf8Size_pos
      have hcons : (String.ofList (c :: l)).utf8ByteSize =
          c.utf8Size + (String.ofList l).utf8ByteSize := by
        rw [String.ofList_cons, String.utf8ByteSize_append, String.utf8ByteSize_singleton]
      rw [hcons, List.length_cons]
      omega
  rw [← String.ofList_toList (s := s)]
  simpa using hlist s.toList

/-- White space for the server is white space for the browser, or `U+0085`. -/
theorem jsSpace_of_isSpace {c : Char} (hc : isSpace c = true) (u : UInt16) (hu : u.toNat = c.toNat) :
    jsSpace u = true ∨ u.toNat = 0x85 := by
  simp only [isSpace, Bool.or_eq_true, Bool.and_eq_true, decide_eq_true_eq, beq_iff_eq] at hc
  simp only [jsSpace, Bool.or_eq_true, Bool.and_eq_true, decide_eq_true_eq, beq_iff_eq, hu]
  omega

/-- White space is a unit of its own. -/
theorem plain_of_isSpace {c : Char} (hc : isSpace c = true) : Plain c := by
  simp only [isSpace, Bool.or_eq_true, Bool.and_eq_true, decide_eq_true_eq, beq_iff_eq] at hc
  rw [Plain]
  omega

/-- **The string neither begins nor ends with `U+0085`**, which is white space for the server only. -/
structure NoNextLine (t : JsString) : Prop where
  head : ∀ u, t.head? = some u → u.toNat ≠ 0x85
  last : ∀ u, t.getLast? = some u → u.toNat ≠ 0x85

/-- **What the browser has trimmed** the server leaves alone, unless `U+0085` is at an end. -/
theorem trimSpace_received {t : JsString} (ht : JsString.Trim t) (hline : NoNextLine t) :
    trimSpace (received t) = received t := by
  rw [trimSpace_eq_self_iff]
  simp only [received, String.toList_ofList]
  constructor
  · intro c hc
    by_contra hspace
    have hspace : isSpace c = true := by simpa using hspace
    obtain ⟨u, hu, hcu⟩ := head_decode hc (plain_of_isSpace hspace)
    rcases jsSpace_of_isSpace hspace u hcu with hjs | hnl
    · exact Bool.false_ne_true ((ht.head u hu).symm.trans hjs)
    · exact hline.head u hu hnl
  · intro c hc
    by_contra hspace
    have hspace : isSpace c = true := by simpa using hspace
    obtain ⟨u, hu, hcu⟩ := getLast_decode hc (plain_of_isSpace hspace)
    rcases jsSpace_of_isSpace hspace u hcu with hjs | hnl
    · exact Bool.false_ne_true ((ht.last u hu).symm.trans hjs)
    · exact hline.last u hu hnl

/-- The units of a trimmed text have no `U+0085` at an end. -/
theorem noNextLine_of_trimmed {R : String} (hR : trimSpace R = R) : NoNextLine (utf16 R.toList) := by
  obtain ⟨hhead, hlast⟩ := (trimSpace_eq_self_iff R).mp hR
  have hunit : ∀ u : UInt16, u.toNat = 0x85 →
      isHigh u = false ∧ isLow u = false ∧ isSpace (unitChar u) = true := by
    intro u hu
    obtain rfl : u = 0x85 := UInt16.toNat_inj.mp hu
    decide
  refine ⟨fun u hu h85 => ?_, fun u hu h85 => ?_⟩
  · obtain ⟨hh, hl, hspace⟩ := hunit u h85
    have hd := head_decode_of_unit hu hh
    rw [decode_utf16] at hd
    exact Bool.false_ne_true ((hhead _ hd).symm.trans hspace)
  · obtain ⟨hh, hl, hspace⟩ := hunit u h85
    have hd := getLast_decode_of_unit hu hl
    rw [decode_utf16] at hd
    exact Bool.false_ne_true ((hlast _ hd).symm.trans hspace)

/-! ## Agreement -/

/-- **Browser and server agree** on what the user has typed: one accepts it if and only if the other
accepts what the first would send, the id is stored as it was sent, and both count characters. -/
structure Agree (id : JsString) : Prop where
  accepts : BrowserAccepts id ↔ ServerAccepts (received (JsString.trim id))
  stored : ∀ t R, validateRoomId id = .ok t → normalizeRoomID (received t) = .ok R →
    utf16 R.toList = t
  browser : BrowserAccepts id ↔ 4 ≤ (decode (JsString.trim id)).length
  server : ServerAccepts (received (JsString.trim id)) ↔
    4 ≤ (trimSpace (received (JsString.trim id))).toList.length

/-- Well-formed text of four characters or more, with no `U+0085` at an end. -/
theorem agree_of_long {id : JsString} (hchars : 4 ≤ (decode (JsString.trim id)).length)
    (hwf : JsString.WellFormed (JsString.trim id)) (hline : NoNextLine (JsString.trim id)) :
    Agree id := by
  have htrim : trimSpace (received (JsString.trim id)) = received (JsString.trim id) :=
    trimSpace_received (JsString.trim_trim id) hline
  have hlist : (received (JsString.trim id)).toList = decode (JsString.trim id) :=
    String.toList_ofList
  have hbrowser : BrowserAccepts id :=
    browserAccepts_iff.mpr (hchars.trans (length_decode_le (JsString.trim id)))
  have hserver : ServerAccepts (received (JsString.trim id)) := by
    have hbytes := length_le_utf8ByteSize (received (JsString.trim id))
    rw [hlist] at hbytes
    exact serverAccepts_iff.mpr (htrim.symm ▸ hchars.trans hbytes)
  refine ⟨iff_of_true hbrowser hserver, fun t R ht hR => ?_, iff_of_true hbrowser hchars,
    iff_of_true hserver ?_⟩
  · obtain ⟨rfl, -⟩ := validateRoomId_eq_ok.mp ht
    obtain ⟨rfl, -⟩ := normalizeRoomID_eq_ok.mp hR
    rw [htrim, hlist]
    exact hwf
  · rw [htrim, hlist]
    exact hchars

/-- Text that is short in units and in bytes. -/
theorem agree_of_short {id : JsString} (hshort : (JsString.trim id).length ≤ 3)
    (hsmall : (trimSpace (received (JsString.trim id))).utf8ByteSize ≤ 3) : Agree id := by
  have hunits := length_decode_le (JsString.trim id)
  have hbytes := length_le_utf8ByteSize (trimSpace (received (JsString.trim id)))
  have hbrowser : ¬ BrowserAccepts id := by
    rw [browserAccepts_iff, minRoomIdLength]
    omega
  have hserver : ¬ ServerAccepts (received (JsString.trim id)) := by
    rw [serverAccepts_iff, minRoomIDLength]
    omega
  refine ⟨iff_of_false hbrowser hserver, fun t R ht => absurd ⟨t, ht⟩ hbrowser,
    iff_of_false hbrowser ?_, iff_of_false hserver ?_⟩ <;> omega

/-- **When they agree**: on well-formed text of four characters or more with no `U+0085` at an end,
and on text that is short in units and in bytes. -/
theorem agree_iff (id : JsString) : Agree id ↔
    (4 ≤ (decode (JsString.trim id)).length ∧ JsString.WellFormed (JsString.trim id) ∧
      NoNextLine (JsString.trim id)) ∨
    ((JsString.trim id).length ≤ 3 ∧
      (trimSpace (received (JsString.trim id))).utf8ByteSize ≤ 3) := by
  constructor
  · intro h
    by_cases hacc : BrowserAccepts id
    · refine Or.inl ⟨h.browser.mp hacc, ?_⟩
      have hsize := serverAccepts_iff.mp (h.accepts.mp hacc)
      have hstored := h.stored _ _ (validateRoomId_eq_ok.mpr ⟨rfl, browserAccepts_iff.mp hacc⟩)
        (normalizeRoomID_eq_ok.mpr ⟨rfl, hsize⟩)
      have hline := noNextLine_of_trimmed (trimSpace_idem (received (JsString.trim id)))
      rw [hstored] at hline
      exact ⟨hstored ▸ wellFormed_utf16 _, hline⟩
    · have hno := mt h.accepts.mpr hacc
      rw [browserAccepts_iff, minRoomIdLength] at hacc
      rw [serverAccepts_iff, minRoomIDLength] at hno
      exact Or.inr ⟨by omega, by omega⟩
  · rintro (⟨hchars, hwf, hline⟩ | ⟨hshort, hsmall⟩)
    · exact agree_of_long hchars hwf hline
    · exact agree_of_short hshort hsmall

/-- **Two Chinese characters** are six bytes and two units: the server accepts the id, the browser
does not. -/
theorem two_characters_disagree : ¬ Agree (utf16 "会议".toList) := fun h => by
  have hserver : ServerAccepts (received (JsString.trim (utf16 "会议".toList))) :=
    serverAccepts_iff.mpr (by decide)
  have hbrowser : ¬ BrowserAccepts (utf16 "会议".toList) := fun hb =>
    absurd (browserAccepts_iff.mp hb) (by decide)
  exact hbrowser (h.accepts.mpr hserver)

end Screego
