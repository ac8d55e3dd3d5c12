import Screego.Lib.Url
import Screego.Room

/-!
# The link of a room

`ui/src/useRoomID.ts`: the id of the room is written into the address of the page as it is, and read
back from the query of the address as it is. In between the browser encodes it.

* `getFromURL`, `getRoomFromURL`, `roomReference`, `setRoomID`;
* `mem_of_getFromURL`: what is read stands in the query, without separators;
* `LinkSafe`: the characters that stand for themselves in a query and separate nothing;
* **`room_link_iff`**: the ids whose link leads to the room;
* `LinkPage`, `LinkMove`: what `useRoomID` remembers, and the address, which `leaveRoom` of
  `ui/src/Room.tsx` moves past it; `Lost`: where the two part, **`LinkPage.leads_iff`**.
-/

set_option autoImplicit false

namespace Screego

open Lib

/-! ## Reader and writer -/

/-- `getFromURL`. -/
def getFromURL (key search : String) : Option String :=
  (((search.toList.drop 1).splitOn '&').find? fun param =>
    (key ++ "=").toList.isPrefixOf param).bind fun param =>
      (param.splitOn '=')[1]?.map String.ofList

/-- `getRoomFromURL`, on a page with this address. -/
def getRoomFromURL (location : Address) : Option String :=
  getFromURL "room" (String.ofList location.search)

/-- What the setter of `useRoomID` hands to `pushState`. -/
def roomReference (id : Option String) : String :=
  match id with
  | some id => if id = "" then "?" else "?room=" ++ id
  | none => "?"

/-- The address of the page after the setter of `useRoomID`. -/
def setRoomID (oldId id : Option String) (location : Address) : Address :=
  if oldId ≠ id then location.resolveQuery (roomReference id).toList else location

/-! ## What is read -/

theorem mem_splitOn {α : Type} [DecidableEq α] {a : α} {l x : List α} (hx : x ∈ l.splitOn a) {c : α}
    (hc : c ∈ x) : c ∈ l ∧ c ≠ a := by
  induction l generalizing x with
  | nil =>
    rw [List.splitOn_nil, List.mem_singleton] at hx
    rw [hx] at hc
    exact absurd hc List.not_mem_nil
  | cons b l ih =>
    rw [List.splitOn_cons_eq_if_modifyHead] at hx
    split_ifs at hx with hb
    · rcases List.mem_cons.mp hx with rfl | hx
      · exact absurd hc List.not_mem_nil
      · exact ⟨List.mem_cons_of_mem _ (ih hx hc).1, (ih hx hc).2⟩
    · cases hs : l.splitOn a with
      | nil => exact absurd hs (List.splitOn_ne_nil a l)
      | cons y ys =>
        rw [hs, List.modifyHead_cons] at hx
        rcases List.mem_cons.mp hx with rfl | hx
        · rcases List.mem_cons.mp hc with rfl | hc
          · exact ⟨List.mem_cons_self, by simpa using hb⟩
          · have h := ih (hs ▸ List.mem_cons_self) hc
            exact ⟨List.mem_cons_of_mem _ h.1, h.2⟩
        · have h := ih (hs ▸ List.mem_cons_of_mem _ hx) hc
          exact ⟨List.mem_cons_of_mem _ h.1, h.2⟩

/-- **What is read** stands in the query, and has no separator. -/
theorem mem_of_getFromURL {key search v : String} (h : getFromURL key search = some v) {c : Char}
    (hc : c ∈ v.toList) : c ∈ search.toList.drop 1 ∧ c ≠ '&' ∧ c ≠ '=' := by
  obtain ⟨param, hparam, hv⟩ := Option.bind_eq_some_iff.mp h
  obtain ⟨x, hx, rfl⟩ := Option.map_eq_some_iff.mp hv
  rw [String.toList_ofList] at hc
  have heq := mem_splitOn (List.mem_of_getElem? hx) hc
  have hamp := mem_splitOn (List.mem_of_find?_eq_some hparam) heq.1
  exact ⟨hamp.1, hamp.2, heq.2⟩

/-- **What is written as it is** is read back, if it has no separator. -/
theorem getFromURL_room {R : String} (h : ∀ c ∈ R.toList, c ≠ '&' ∧ c ≠ '=') :
    getFromURL "room" ("?room=" ++ R) = some R := by
  have hdrop : ("?room=" ++ R).toList.drop 1 = "room".toList ++ '=' :: R.toList := by
    rw [String.toList_append]
    rfl
  have hamp : '&' ∉ "room".toList ++ '=' :: R.toList := by
    intro hmem
    rcases List.mem_append.mp hmem with hmem | hmem
    · exact absurd hmem (by decide)
    · rcases List.mem_cons.mp hmem with hmem | hmem
      · exact absurd hmem (by decide)
      · exact (h _ hmem).1 rfl
  have heq : '=' ∉ R.toList := fun hmem => (h _ hmem).2 rfl
  have hprefix : ("room" ++ "=").toList.isPrefixOf ("room".toList ++ '=' :: R.toList) = true :=
    List.isPrefixOf_iff_prefix.mpr ⟨R.toList, by simp⟩
  rw [getFromURL, hdrop, List.splitOn_eq_singleton hamp, List.find?_singleton, if_pos hprefix,
    Option.bind_some, List.splitOn_append_cons_self_of_not_mem (by decide),
    List.splitOn_eq_singleton heq]
  exact congrArg some String.ofList_toList

/-! ## The link -/

/-- **The character stands for itself in a query, and separates nothing**: printable ASCII other than
`"`, `#`, `&`, `'`, `<`, `=`, `>`. -/
def LinkSafe (c : Char) : Prop :=
  0x20 < c.toNat ∧ c.toNat < 0x7F ∧ c ∉ ['"', '#', '&', '\'', '<', '=', '>']

instance : DecidablePred LinkSafe := fun _ => inferInstanceAs (Decidable (_ ∧ _))

theorem linkSafe_iff (c : Char) : LinkSafe c ↔ querySet c = false ∧ c ≠ '&' ∧ c ≠ '=' := by
  simp only [LinkSafe, querySet, List.mem_cons, List.not_mem_nil, or_false, not_or,
    Bool.or_eq_false_iff, decide_eq_false_iff_not, beq_eq_false_iff_ne, not_le, not_lt]
  constructor
  · rintro ⟨h1, h2, h3, h4, h5, h6, h7, h8, h9⟩
    exact ⟨⟨⟨⟨⟨⟨⟨h1, by omega⟩, h3⟩, h4⟩, h7⟩, h9⟩, h6⟩, h5, h8⟩
  · rintro ⟨⟨⟨⟨⟨⟨⟨h1, h2⟩, h3⟩, h4⟩, h7⟩, h9⟩, h6⟩, h5, h8⟩
    exact ⟨h1, by omega, h3, h4, h5, h6, h7, h8, h9⟩

variable {R : String} {location : Address} {oldId : Option String}

/-- The address that is written for an id of such characters. -/
theorem resolveQuery_room (h : ∀ c ∈ R.toList, LinkSafe c) (location : Address) :
    location.resolveQuery ("?room=" ++ R).toList =
      ⟨location.base, some ("room=".toList ++ R.toList), none⟩ := by
  have hlist : ("?room=" ++ R).toList = '?' :: ("room=".toList ++ R.toList) := by
    rw [String.toList_append]
    rfl
  have hsafe : ∀ c ∈ "room=".toList ++ R.toList, querySet c = false := by
    intro c hc
    rcases List.mem_append.mp hc with hc | hc
    · have hall : "room=".toList.all (fun c => !querySet c) = true := by decide
      simpa using List.all_eq_true.mp hall c hc
    · exact ((linkSafe_iff c).mp (h c hc)).1
  have hclean : clean ('?' :: ("room=".toList ++ R.toList)) = '?' :: ("room=".toList ++ R.toList) := by
    refine clean_eq_self fun c hc => ?_
    rcases List.mem_cons.mp hc with rfl | hc
    · decide
    · exact lt_of_querySet (hsafe c hc)
  have hhash : ∀ c ∈ "room=".toList ++ R.toList, c ≠ '#' := by
    rintro c hc rfl
    exact absurd (hsafe _ hc) (by decide)
  obtain ⟨htake, hdrop⟩ := takeWhile_hash hhash none
  rw [Address.hash, List.append_nil] at htake hdrop
  simp only [Address.resolveQuery, hlist, hclean, Address.parseTail, if_true, htake, hdrop,
    encodeQuery_eq_self hsafe]
  rfl

/-- The address that is written for such an id is read back. -/
theorem getRoomFromURL_written (h : ∀ c ∈ R.toList, LinkSafe c) (location : Address) :
    getRoomFromURL (location.resolveQuery ("?room=" ++ R).toList) = some R := by
  have hsearch : String.ofList (location.resolveQuery ("?room=" ++ R).toList).search =
      "?room=" ++ R := by
    rw [resolveQuery_room h location]
    apply String.toList_inj.mp
    rw [String.toList_ofList, String.toList_append]
    rfl
  rw [getRoomFromURL, hsearch]
  exact getFromURL_room fun c hc => ((linkSafe_iff c).mp (h c hc)).2

/-- **The link of a room leads to the room** exactly when every character of the id stands for itself
and separates nothing. -/
theorem room_link_iff {id : String} (hR : normalizeRoomID id = .ok R) (hloc : Serialised location)
    (hold : oldId ≠ some R) :
    (getFromURL "room" ("?room=" ++ R) = some R ∧
      getRoomFromURL (Address.parse (setRoomID oldId (some R) location).href) = some R) ↔
    ∀ c ∈ R.toList, LinkSafe c := by
  have hne : R ≠ "" := by
    rintro rfl
    exact absurd (normalizeRoomID_eq_ok.mp hR).2 (by decide)
  have hset : setRoomID oldId (some R) location = location.resolveQuery ("?room=" ++ R).toList := by
    simp only [setRoomID, hold, ne_eq, not_false_eq_true, if_true, roomReference, hne, if_false]
  rw [hset, (hloc.resolveQuery _).parse_href]
  constructor
  · rintro ⟨-, hread⟩ c hc
    obtain ⟨hmem, hamp, heq⟩ := mem_of_getFromURL hread hc
    rw [String.toList_ofList] at hmem
    refine (linkSafe_iff c).mpr ⟨?_, hamp, heq⟩
    have hser := hloc.resolveQuery ("?room=" ++ R).toList
    unfold Address.search at hmem
    cases hq : (location.resolveQuery ("?room=" ++ R).toList).query with
    | none =>
      rw [hq] at hmem
      exact absurd hmem List.not_mem_nil
    | some q =>
      rw [hq] at hmem
      simp only at hmem
      split_ifs at hmem
      · exact absurd hmem List.not_mem_nil
      · exact hser.query q hq c hmem
  · intro hsafe
    refine ⟨getFromURL_room fun c hc => ?_, getRoomFromURL_written hsafe location⟩
    exact ((linkSafe_iff c).mp (hsafe c hc)).2

/-- The page of a server, before a room is entered. -/
def landingPage : Address := ⟨"http://localhost:5050/".toList, none, none⟩

theorem serialised_landingPage : Serialised landingPage where
  base c hc := by
    have hall : landingPage.base.all (fun c => decide (0x20 < c.toNat) && !Address.ends c) = true := by
      decide
    simpa using List.all_eq_true.mp hall c hc
  query q hq := by cases hq
  fragment f hf := by cases hf

/-- The link of a room with a plain id. -/
theorem room_link_plain :
    (getFromURL "room" ("?room=" ++ "room-1") = some "room-1" ∧
      getRoomFromURL (Address.parse (setRoomID none (some "room-1") landingPage).href) =
        some "room-1") ↔ ∀ c ∈ "room-1".toList, LinkSafe c :=
  room_link_iff (show normalizeRoomID " room-1 " = .ok "room-1" by decide +kernel) serialised_landingPage (by decide)

/-- **A link that leads elsewhere**: the id of two Chinese characters is read back encoded. -/
theorem chinese_link_leads_elsewhere : normalizeRoomID "会议" = .ok "会议" ∧
    getRoomFromURL (Address.parse (setRoomID none (some "会议") landingPage).href) =
      some "%E4%BC%9A%E8%AE%AE" ∧
    ¬ ∀ (id R : String) (location : Address) (oldId : Option String),
      normalizeRoomID id = .ok R → Serialised location → oldId ≠ some R →
        getFromURL "room" ("?room=" ++ R) = some R ∧
          getRoomFromURL (Address.parse (setRoomID oldId (some R) location).href) = some R := by
  have hread : getRoomFromURL (Address.parse (setRoomID none (some "会议") landingPage).href) =
      some "%E4%BC%9A%E8%AE%AE" := by decide +kernel
  have hok : normalizeRoomID "会议" = .ok "会议" := normalizeRoomID_eq_ok.mpr ⟨by decide, by decide⟩
  refine ⟨hok, hread, fun hall => ?_⟩
  have h := (hall "会议" "会议" landingPage none hok serialised_landingPage (by decide)).2
  rw [hread] at h
  exact absurd h (by decide)

/-! ## A page -/

/-- **A page**: what `useRoomID` remembers, and the address. -/
structure LinkPage where
  roomID : Option String
  location : Address

/-- **What moves the page.** -/
inductive LinkMove where
  /-- The hook is in a room: it calls the setter of `useRoomID`. -/
  | enter (id : String)
  /-- `leaveRoom`, which hands `?` to `pushState` and does not call the setter. -/
  | leave
  /-- `popstate`: back or forward to an address. -/
  | travel (location : Address)

namespace LinkPage

/-- `useRoomID`, on a page with this address. -/
def mount (location : Address) : LinkPage := ⟨getRoomFromURL location, location⟩

def move (p : LinkPage) : LinkMove → LinkPage
  | .enter id => ⟨some id, setRoomID p.roomID (some id) p.location⟩
  | .leave => { p with location := p.location.resolveQuery "?".toList }
  | .travel location => mount location

/-- The page after some moves. -/
def after (location : Address) (ms : List LinkMove) : LinkPage := ms.foldl move (mount location)

/-- **The address has lost the room**: the page was left while `useRoomID` remembered it, and since then has
entered no other and not travelled. -/
def Lost (location : Address) (R : String) (ms : List LinkMove) : Prop :=
  ∃ pre post, ms = pre ++ .leave :: post ∧ (after location pre).roomID = some R ∧
    ∀ m ∈ post, m = .leave ∨ m = .enter R

variable {ms : List LinkMove} {m : LinkMove}

theorem after_concat (location : Address) (ms : List LinkMove) (m : LinkMove) :
    after location (ms ++ [m]) = (after location ms).move m := List.foldl_concat _ _ _ _

/-- The addresses stay such as a parser makes. -/
theorem serialised_after (hloc : Serialised location)
    (htravel : ∀ l, .travel l ∈ ms → Serialised l) : Serialised (after location ms).location := by
  induction ms using List.reverseRecOn with
  | nil => exact hloc
  | append_singleton ms m ih =>
    have ih := ih fun l hl => htravel l (List.mem_append_left _ hl)
    rw [after_concat]
    cases m with
    | enter id =>
      show Serialised (setRoomID _ _ _)
      unfold setRoomID
      split_ifs
      · exact ih.resolveQuery _
      · exact ih
    | leave => exact ih.resolveQuery _
    | travel l => exact htravel l (List.mem_append_right _ (List.mem_singleton_self _))

/-- When the address has lost the room after one more move. -/
theorem lost_concat : Lost location R (ms ++ [m]) ↔
    (m = .leave ∧ (after location ms).roomID = some R) ∨
      (Lost location R ms ∧ (m = .leave ∨ m = .enter R)) := by
  constructor
  · rintro ⟨pre, post, heq, hroom, hpost⟩
    rcases List.eq_nil_or_concat post with rfl | ⟨post, m', rfl⟩
    · obtain ⟨rfl, hm⟩ := List.append_inj' heq rfl
      exact Or.inl ⟨List.singleton_inj.mp hm, hroom⟩
    · rw [List.concat_eq_append] at heq hpost
      rw [← List.cons_append, ← List.append_assoc] at heq
      obtain ⟨rfl, hm⟩ := List.append_inj' heq rfl
      obtain rfl := List.singleton_inj.mp hm
      refine Or.inr ⟨⟨pre, post, rfl, hroom, fun m' hm' => ?_⟩, ?_⟩
      · exact hpost m' (List.mem_append_left _ hm')
      · exact hpost m (List.mem_append_right _ (List.mem_singleton_self _))
  · rintro (⟨rfl, hroom⟩ | ⟨⟨pre, post, rfl, hroom, hpost⟩, hm⟩)
    · exact ⟨ms, [], rfl, hroom, fun _ h => absurd h List.not_mem_nil⟩
    · refine ⟨pre, post ++ [m], by simp, hroom, fun m' hm' => ?_⟩
      rcases List.mem_append.mp hm' with hm' | hm'
      · exact hpost m' hm'
      · rw [List.mem_singleton.mp hm']
        exact hm

/-- What is left in the address when a room is left. -/
theorem getRoomFromURL_left (location : Address) :
    getRoomFromURL (location.resolveQuery "?".toList) = none := by
  have hclean : clean "?".toList = ['?'] := by decide
  have hsearch : (location.resolveQuery "?".toList).search = [] := by
    simp only [Address.resolveQuery, hclean]
    rfl
  rw [getRoomFromURL, hsearch]
  rfl

/-- **Where the two part**: `useRoomID` remembers a room and the address leads elsewhere. -/
theorem lost_iff (hsafe : ∀ c ∈ R.toList, LinkSafe c) (hne : R ≠ "") : Lost location R ms ↔
    (after location ms).roomID = some R ∧ getRoomFromURL (after location ms).location ≠ some R := by
  induction ms using List.reverseRecOn with
  | nil =>
    refine iff_of_false ?_ fun h => h.2 h.1
    rintro ⟨pre, post, heq, -⟩
    exact List.append_ne_nil_of_right_ne_nil _ (List.cons_ne_nil _ _) heq.symm
  | append_singleton ms m ih =>
    rw [lost_concat, after_concat]
    cases m with
    | enter id =>
      have henter : Lost location R ms ∧ id = R ↔
          id = R ∧ getRoomFromURL (setRoomID (after location ms).roomID (some id)
            (after location ms).location) ≠ some R := by
        rw [and_comm, ih]
        refine and_congr_right fun hid => ?_
        subst hid
        by_cases hold : (after location ms).roomID = some id
        · simp only [setRoomID, hold, true_and, ne_eq, not_true_eq_false, if_false]
        · have hread := getRoomFromURL_written hsafe (after location ms).location
          refine iff_of_false (fun h => hold h.1) fun h => h ?_
          rw [setRoomID, if_pos hold, roomReference, if_neg hne, hread]
      simpa [move] using henter
    | leave =>
      have hleft := getRoomFromURL_left (after location ms).location
      simp only [move, hleft, true_and, true_or, and_true]
      refine ⟨fun h => ⟨h.elim id fun h => (ih.mp h).1, nofun⟩, fun h => Or.inl h.1⟩
    | travel l =>
      refine iff_of_false ?_ fun h => h.2 h.1
      rintro (⟨h, -⟩ | ⟨-, h | h⟩) <;> cases h

/-- **The address of a page that has entered a room leads there**, unless it had lost the room before. -/
theorem leads_iff (hsafe : ∀ c ∈ R.toList, LinkSafe c) (hne : R ≠ "") (hloc : Serialised location)
    (htravel : ∀ l, .travel l ∈ ms → Serialised l) :
    getRoomFromURL (Address.parse (after location (ms ++ [.enter R])).location.href) = some R ↔
      ¬ Lost location R ms := by
  have hser : Serialised (after location (ms ++ [.enter R])).location := by
    refine serialised_after hloc fun l hl => htravel l ?_
    simpa using hl
  have hlost : Lost location R (ms ++ [.enter R]) ↔ _ := lost_iff hsafe hne
  have hroom : (after location (ms ++ [.enter R])).roomID = some R := by
    rw [after_concat]
    rfl
  rw [hser.parse_href, ← not_iff_not, not_not]
  calc getRoomFromURL (after location (ms ++ [.enter R])).location ≠ some R
      ↔ Lost location R (ms ++ [.enter R]) := by rw [hlost, hroom]; exact (and_iff_right rfl).symm
    _ ↔ Lost location R ms := by simp [lost_concat]

-- a room that is left and entered again is not in the address
example : getRoomFromURL (after landingPage [.enter "room-1", .leave, .enter "room-1"]).location = none := by
  decide +kernel

end LinkPage

end Screego
