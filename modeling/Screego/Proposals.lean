import Screego.RoomIds
import Screego.RoomLink

/-!
# The rooms that are proposed

`NewRoomName` of `util/sillyname.go` and `createRoomId` of `ui/src/RoomManage.tsx`: the id that the server or
the browser thinks up.

* `stamp`, `newRoomName`, `createRoomId`: from the bytes that are drawn to the id; `newRoomName_eq_iff`;
* `PlainId`: an id that the form, the server and the address of the page take as it is;
* **`proposed_ids_travel`**: from the bytes to the link of the room.
-/

set_option autoImplicit false

namespace Screego

open Lib

/-! ## Ids -/

/-- The sixteen bytes of an id. -/
abbrev IdBytes : Type := Vector UInt8 16

/-- The bits that tell the version and the variant of a UUID are set. -/
def stamp (bytes : IdBytes) : IdBytes :=
  (bytes.set 6 (bytes[6] &&& 0x0f ||| 0x40)).set 8 (bytes[8] &&& 0x3f ||| 0x80)

/-- A byte under the verb `%x`. -/
def hexByte (b : UInt8) : List Char := [Nat.digitChar (b.toNat / 16), Nat.digitChar (b.toNat % 16)]

/-- A part of an array. -/
def slice {α : Type} (l : List α) (i j : ℕ) : List α := (l.take j).drop i

/-- **`util.NewRoomName`**, from the bytes that are drawn. -/
def newRoomName (bytes : IdBytes) : String :=
  let bytes := (stamp bytes).toList
  String.ofList (['-'].intercalate
    [(slice bytes 0 4).flatMap hexByte, (slice bytes 4 6).flatMap hexByte, (slice bytes 6 8).flatMap hexByte,
      (slice bytes 8 10).flatMap hexByte, (slice bytes 10 16).flatMap hexByte])

/-- `value.toString(16).padStart(2, '0')`. -/
def padHex (value : UInt8) : List Char :=
  let digits := Nat.toDigits 16 value.toNat
  List.replicate (2 - digits.length) '0' ++ digits

/-- **`createRoomId`**, from the bytes that are drawn; `crypto.randomUUID` does the same. -/
def createRoomId (bytes : IdBytes) : JsString :=
  let hex := (stamp bytes).toList.map padHex
  utf16 (['-'].intercalate
    [(slice hex 0 4).flatten, (slice hex 4 6).flatten, (slice hex 6 8).flatten, (slice hex 8 10).flatten,
      (hex.drop 10).flatten])

/-! ### Groups -/

section Groups

variable {α : Type} {l : List α} {i j k : ℕ}

theorem slice_append (hij : i ≤ j) (hjk : j ≤ k) : slice l i j ++ slice l j k = slice l i k := by
  have hj : (l.take k).take j = l.take j := by rw [List.take_take, Nat.min_eq_left hjk]
  calc slice l i j ++ slice l j k
      = ((l.take k).take j).drop i ++ ((l.take k).drop i).drop (j - i) := by
        rw [slice, slice, hj, List.drop_drop, Nat.add_sub_cancel' hij]
    _ = slice l i k := by
        rw [List.drop_take, List.take_append_drop, slice]

theorem slice_all (hl : l.length ≤ k) : slice l 0 k = l := by
  rw [slice, List.take_of_length_le hl, List.drop_zero]

theorem slice_drop (hl : l.length ≤ k) : slice l i k = l.drop i := by
  rw [slice, List.take_of_length_le hl]

theorem slice_map {β : Type} (f : α → β) : slice (l.map f) i j = (slice l i j).map f := by
  rw [slice, slice, ← List.map_take, ← List.map_drop]

/-- Separators that no group has can be taken out. -/
theorem filter_intercalate [DecidableEq α] {a : α} {groups : List (List α)} (h : ∀ g ∈ groups, a ∉ g) :
    ([a].intercalate groups).filter (· ≠ a) = groups.flatten := by
  induction groups with
  | nil => rfl
  | cons g rest ih =>
    have hg : g.filter (· ≠ a) = g := by
      refine List.filter_eq_self.mpr fun c hc => decide_eq_true ?_
      rintro rfl
      exact h g List.mem_cons_self hc
    have ih := ih fun g' hg' => h g' (List.mem_cons_of_mem _ hg')
    cases rest with
    | nil => rw [List.intercalate_singleton, hg, List.flatten_cons, List.flatten_nil, List.append_nil]
    | cons g' rest =>
      rw [List.intercalate_cons_cons, List.filter_append, List.filter_append, hg, ih, List.flatten_cons]
      simp

theorem mem_intercalate {a c : α} {groups : List (List α)} (h : c ∈ [a].intercalate groups) :
    c = a ∨ c ∈ groups.flatten := by
  induction groups with
  | nil => cases h
  | cons g rest ih =>
    cases rest with
    | nil =>
      rw [List.intercalate_singleton] at h
      exact Or.inr (List.mem_flatten_of_mem List.mem_cons_self h)
    | cons g' rest =>
      rw [List.intercalate_cons_cons, List.append_assoc, List.mem_append, List.mem_append] at h
      rcases h with h | h | h
      · exact Or.inr (List.mem_flatten_of_mem List.mem_cons_self h)
      · exact Or.inl (List.mem_singleton.mp h)
      · refine (ih h).imp_right fun h => ?_
        rw [List.flatten_cons]
        exact List.mem_append_right _ h

end Groups

/-! ### Their characters -/

variable {bytes bytes' : IdBytes}

theorem padHex_eq (b : UInt8) : padHex b = hexByte b := by
  have hall : ∀ n < 256, (let digits := Nat.toDigits 16 n
      List.replicate (2 - digits.length) '0' ++ digits) =
        [Nat.digitChar (n / 16), Nat.digitChar (n % 16)] := by decide +kernel
  exact hall b.toNat b.toNat_lt

/-- The characters of an id. -/
def IdChar (c : Char) : Prop := c ∈ "0123456789abcdef-".toList

theorem idChar_digitChar : ∀ n < 16, IdChar (Nat.digitChar n) ∧ Nat.digitChar n ≠ '-' := by
  unfold IdChar
  decide

theorem mem_hexByte {b : UInt8} {c : Char} (h : c ∈ hexByte b) : IdChar c ∧ c ≠ '-' := by
  have hb := b.toNat_lt
  rcases List.mem_pair.mp h with rfl | rfl
  · exact idChar_digitChar _ (by omega)
  · exact idChar_digitChar _ (by omega)

theorem IdChar.plain {c : Char} (h : IdChar c) : LinkSafe c ∧ c.toLower = c ∧ c ≠ 't' := by
  have hall : "0123456789abcdef-".toList.all
      (fun c => decide (LinkSafe c) && decide (c.toLower = c) && decide (c ≠ 't')) = true := by
    decide +kernel
  have hc := List.all_eq_true.mp hall c h
  simpa only [Bool.and_eq_true, decide_eq_true_eq, and_assoc] using hc

/-- The groups of an id. -/
def idGroups (bytes : IdBytes) : List (List Char) :=
  let bytes := (stamp bytes).toList
  [(slice bytes 0 4).flatMap hexByte, (slice bytes 4 6).flatMap hexByte, (slice bytes 6 8).flatMap hexByte,
    (slice bytes 8 10).flatMap hexByte, (slice bytes 10 16).flatMap hexByte]

theorem toList_newRoomName (bytes : IdBytes) :
    (newRoomName bytes).toList = ['-'].intercalate (idGroups bytes) := String.toList_ofList

theorem flatten_idGroups (bytes : IdBytes) :
    (idGroups bytes).flatten = (stamp bytes).toList.flatMap hexByte := by
  have hlen : (stamp bytes).toList.length ≤ 16 := le_of_eq (stamp bytes).size_toArray
  show _ ++ (_ ++ (_ ++ (_ ++ (_ ++ [])))) = _
  rw [List.append_nil, ← List.flatMap_append, ← List.flatMap_append, ← List.flatMap_append,
    ← List.flatMap_append, slice_append (by omega) (by omega), slice_append (by omega) (by omega),
    slice_append (by omega) (by omega), slice_append (by omega) (by omega), slice_all hlen]

theorem mem_idGroups {c : Char} (h : c ∈ (idGroups bytes).flatten) : IdChar c ∧ c ≠ '-' := by
  rw [flatten_idGroups] at h
  obtain ⟨b, -, hc⟩ := List.mem_flatMap.mp h
  exact mem_hexByte hc

theorem idChar_of_mem {c : Char} (h : c ∈ (newRoomName bytes).toList) : IdChar c := by
  rw [toList_newRoomName] at h
  rcases mem_intercalate h with rfl | hc
  · exact (by decide : '-' ∈ "0123456789abcdef-".toList)
  · exact (mem_idGroups hc).1

/-- **The browser writes an id** as the server does. -/
theorem createRoomId_eq (bytes : IdBytes) : createRoomId bytes = utf16 (newRoomName bytes).toList := by
  have hpad : padHex = hexByte := funext padHex_eq
  have hlen : ((stamp bytes).toList.map hexByte).length ≤ 16 := by
    rw [List.length_map]
    exact le_of_eq (stamp bytes).size_toArray
  rw [toList_newRoomName, createRoomId, hpad]
  simp only [← slice_drop hlen, slice_map, ← List.flatMap_def, idGroups]

/-! ### What is drawn -/

theorem hexByte_injective : Function.Injective hexByte := by
  intro b b' h
  have hdigit : ∀ n < 16, ∀ m < 16, Nat.digitChar n = Nat.digitChar m → n = m := by decide
  have hb := b.toNat_lt
  have hb' := b'.toNat_lt
  obtain ⟨hhigh, hlow⟩ := List.cons.inj h
  have hhigh := hdigit _ (by omega) _ (by omega) hhigh
  have hlow := hdigit _ (by omega) _ (by omega) (List.cons.inj hlow).1
  refine UInt8.toNat_inj.mp ?_
  omega

/-- The bytes can be read back. -/
theorem flatMap_hexByte_injective : Function.Injective (List.flatMap hexByte) := by
  intro l
  induction l with
  | nil =>
    intro l' h
    cases l' with
    | nil => rfl
    | cons b' l' => cases h
  | cons b l ih =>
    intro l' h
    cases l' with
    | nil => cases h
    | cons b' l' =>
      obtain ⟨hb, hl⟩ := List.append_inj h rfl
      rw [hexByte_injective hb, ih hl]

/-- The bits of a byte that are drawn. -/
def drawnBits (i : ℕ) : UInt8 := if i = 6 then 0x0f else if i = 8 then 0x3f else 0xff

/-- The bits of a byte that are set. -/
def fixedBits (i : ℕ) : UInt8 := if i = 6 then 0x40 else if i = 8 then 0x80 else 0

theorem stamp_getElem (bytes : IdBytes) {i : ℕ} (hi : i < 16) :
    (stamp bytes)[i] = bytes[i] &&& drawnBits i ||| fixedBits i := by
  rw [stamp, Vector.getElem_set, Vector.getElem_set, drawnBits, fixedBits]
  by_cases h8 : 8 = i
  · subst h8
    rfl
  · by_cases h6 : 6 = i
    · subst h6
      rfl
    · rw [if_neg h8, if_neg h6, if_neg (Ne.symm h6), if_neg (Ne.symm h8), if_neg (Ne.symm h6),
        if_neg (Ne.symm h8), UInt8.or_zero]
      exact UInt8.and_neg_one.symm

theorem fixed_and_drawn (i : ℕ) : fixedBits i &&& drawnBits i = 0 := by
  unfold fixedBits drawnBits
  split_ifs <;> rfl

theorem or_fixed_and_drawn (b : UInt8) (i : ℕ) :
    (b &&& drawnBits i ||| fixedBits i) &&& drawnBits i = b &&& drawnBits i := by
  have hdistrib : (b &&& drawnBits i ||| fixedBits i) &&& drawnBits i =
      b &&& drawnBits i &&& drawnBits i ||| fixedBits i &&& drawnBits i :=
    UInt8.toBitVec_inj.mp BitVec.and_or_distrib_right
  rw [hdistrib, UInt8.and_assoc, UInt8.and_self, fixed_and_drawn, UInt8.or_zero]

/-- **Two ids are the same** only if the same bits are drawn. -/
theorem newRoomName_eq_iff : newRoomName bytes = newRoomName bytes' ↔
    ∀ i (hi : i < 16), bytes[i] &&& drawnBits i = bytes'[i] &&& drawnBits i := by
  have hread : ∀ bytes : IdBytes, (newRoomName bytes).toList.filter (· ≠ '-') =
      (stamp bytes).toList.flatMap hexByte := by
    intro bytes
    rw [toList_newRoomName, filter_intercalate, flatten_idGroups]
    exact fun g hg hmem => (mem_idGroups (List.mem_flatten_of_mem hg hmem)).2 rfl
  have hmask : ∀ (bytes : IdBytes) i (hi : i < 16),
      (stamp bytes)[i] &&& drawnBits i = bytes[i] &&& drawnBits i := by
    intro bytes i hi
    rw [stamp_getElem bytes hi, or_fixed_and_drawn]
  constructor
  · intro h i hi
    have hstamp : stamp bytes = stamp bytes' :=
      Vector.toList_inj.mp (flatMap_hexByte_injective (by rw [← hread, h, hread]))
    rw [← hmask bytes i hi, hstamp, hmask]
  · intro h
    have hstamp : stamp bytes = stamp bytes' := by
      ext i hi
      rw [stamp_getElem bytes hi, stamp_getElem bytes' hi, h i hi]
    rw [newRoomName, hstamp, newRoomName]

/-! ### Their size -/

theorem length_flatMap_hexByte (l : List UInt8) : (l.flatMap hexByte).length = 2 * l.length := by
  induction l with
  | nil => rfl
  | cons b l ih =>
    rw [List.flatMap_cons, List.length_append, ih, List.length_cons, hexByte, List.length_cons,
      List.length_singleton]
    omega

theorem length_intercalate {α : Type} {a : α} (g : List α) (groups : List (List α)) :
    ([a].intercalate (g :: groups)).length = (g :: groups).flatten.length + groups.length := by
  induction groups generalizing g with
  | nil => rw [List.intercalate_singleton, List.flatten_cons, List.flatten_nil, List.append_nil]; rfl
  | cons g' groups ih =>
    rw [List.intercalate_cons_cons, List.length_append, List.length_append, ih g',
      List.flatten_cons (l := g), List.length_append, List.length_singleton, List.length_cons]
    omega

theorem length_newRoomName (bytes : IdBytes) : (newRoomName bytes).toList.length = 36 := by
  have hlen : (stamp bytes).toList.length = 16 := (stamp bytes).size_toArray
  rw [toList_newRoomName, idGroups, length_intercalate, ← idGroups]
  show (idGroups bytes).flatten.length + 4 = 36
  rw [flatten_idGroups, length_flatMap_hexByte, hlen]

/-! ## Plain ids -/

namespace LinkSafe

variable {c : Char}

/-- It is no white space on the server, -/
theorem isSpace_eq (h : LinkSafe c) : isSpace c = false := by
  obtain ⟨hlow, hhigh, -⟩ := h
  simp only [isSpace, Bool.or_eq_false_iff, Bool.and_eq_false_iff, decide_eq_false_iff_not,
    beq_eq_false_iff_ne]
  omega

/-- and none in the browser, -/
theorem jsSpace_eq (h : LinkSafe c) : jsSpace (UInt16.ofNat c.toNat) = false := by
  obtain ⟨hlow, hhigh, -⟩ := h
  have hnat : (UInt16.ofNat c.toNat).toNat = c.toNat := UInt16.toNat_ofNat_of_lt' (hhigh.trans (by decide))
  simp only [jsSpace, hnat, Bool.or_eq_false_iff, Bool.and_eq_false_iff, decide_eq_false_iff_not,
    beq_eq_false_iff_ne]
  omega

/-- where it is one unit; -/
theorem utf16Char_eq (h : LinkSafe c) : utf16Char c = [UInt16.ofNat c.toNat] := by
  obtain ⟨-, hhigh, -⟩ := h
  exact if_pos (by omega)

/-- and it is one byte. -/
theorem utf8Size_eq (h : LinkSafe c) : c.utf8Size = 1 := by
  obtain ⟨-, hhigh, -⟩ := h
  refine if_pos ?_
  show c.val ≤ 0x7f
  rw [UInt32.le_iff_toNat_le]
  show c.toNat ≤ 127
  omega

end LinkSafe

/-- **A plain id**: every character stands for itself in a link, and it is neither too short nor too long. -/
structure PlainId (R : String) : Prop where
  safe : ∀ c ∈ R.toList, LinkSafe c
  long : minRoomIdLength ≤ R.toList.length

namespace PlainId

variable {R : String}

theorem utf16_eq (h : PlainId R) : utf16 R.toList = R.toList.map fun c => UInt16.ofNat c.toNat := by
  rw [utf16, List.flatMap_congr fun c hc => (h.safe c hc).utf16Char_eq, List.map_eq_flatMap]

theorem utf8ByteSize_eq (h : PlainId R) : R.utf8ByteSize = R.toList.length := by
  have hlist : ∀ l : List Char, (∀ c ∈ l, LinkSafe c) → (String.ofList l).utf8ByteSize = l.length := by
    intro l
    induction l with
    | nil => exact fun _ => rfl
    | cons c l ih =>
      intro hl
      rw [String.ofList_cons, String.utf8ByteSize_append, String.utf8ByteSize_singleton,
        (hl c List.mem_cons_self).utf8Size_eq, ih fun c' hc' => hl c' (List.mem_cons_of_mem _ hc'),
        List.length_cons, Nat.add_comm]
  have hR := hlist R.toList h.safe
  rwa [String.ofList_toList] at hR

/-- The server takes the id as it is, -/
theorem normalizeRoomID_eq (h : PlainId R) : normalizeRoomID R = .ok R :=
  normalizeRoomID_eq_ok.mpr ⟨trimSpace_eq_self fun c hc => (h.safe c hc).isSpace_eq,
    h.long.trans (length_le_utf8ByteSize R)⟩

/-- and so does the form. -/
theorem validateRoomId_eq (h : PlainId R) :
    validateRoomId (utf16 R.toList) = .ok (utf16 R.toList) := by
  have hspace : ∀ u ∈ utf16 R.toList, jsSpace u = false := by
    intro u hu
    rw [h.utf16_eq] at hu
    obtain ⟨c, hc, rfl⟩ := List.mem_map.mp hu
    exact (h.safe c hc).jsSpace_eq
  refine validateRoomId_eq_ok.mpr ⟨JsString.trim_iff.mp ⟨fun u hu => ?_, fun u hu => ?_⟩, ?_⟩
  · exact hspace u (List.mem_of_head? hu)
  · exact hspace u (List.mem_of_getLast? hu)
  · rw [h.utf16_eq, List.length_map]
    exact h.long

theorem received_eq (R : String) : received (utf16 R.toList) = R := by
  rw [received, decode_utf16, String.ofList_toList]

theorem ne_empty (h : PlainId R) : R ≠ "" := by
  rintro rfl
  exact absurd h.long (by decide)

end PlainId

/-- The ids that are proposed are plain. -/
theorem plainId_newRoomName (bytes : IdBytes) : PlainId (newRoomName bytes) where
  safe c hc := (idChar_of_mem hc).plain.1
  long := by
    rw [length_newRoomName]
    decide

/-- **Proposed ids travel.** Whatever is drawn: the server and the browser write the same id, the form and
the server take it as it is, the address of a page that has entered the room leads there unless it had lost
the room before, and another draw makes the same id only if the bits that are not fixed are the same. -/
theorem proposed_ids_travel (bytes : IdBytes) {location : Address} (hloc : Serialised location)
    {ms : List LinkMove} (htravel : ∀ l, .travel l ∈ ms → Serialised l) :
    let id := newRoomName bytes
    createRoomId bytes = utf16 id.toList ∧
    validateRoomId (createRoomId bytes) = .ok (createRoomId bytes) ∧
    received (createRoomId bytes) = id ∧ normalizeRoomID id = .ok id ∧
    (getRoomFromURL (Address.parse (LinkPage.after location (ms ++ [.enter id])).location.href) = some id ↔
      ¬ LinkPage.Lost location id ms) ∧
    ∀ bytes' : IdBytes, newRoomName bytes' = id ↔
      ∀ i (hi : i < 16), bytes'[i] &&& drawnBits i = bytes[i] &&& drawnBits i := by
  intro id
  have hid : PlainId id := plainId_newRoomName bytes
  have heq := createRoomId_eq bytes
  have hlink := LinkPage.leads_iff hid.safe hid.ne_empty hloc htravel
  refine ⟨heq, ?_, ?_, hid.normalizeRoomID_eq, hlink, fun bytes' => newRoomName_eq_iff⟩
  · rw [heq]
    exact hid.validateRoomId_eq
  · rw [heq]
    exact PlainId.received_eq id

/-- A page that has gone back and enters the room it was in. -/
theorem proposed_ids_travel_landingPage :
    let id := newRoomName (Vector.replicate 16 0)
    id = "00000000-0000-4000-8000-000000000000" ∧
    getRoomFromURL (Address.parse (LinkPage.after landingPage
      ([.enter id, .leave, .travel landingPage] ++ [.enter id])).location.href) = some id := by
  intro id
  have hid : id = "00000000-0000-4000-8000-000000000000" := by
    show newRoomName (Vector.replicate 16 0) = _
    decide +kernel
  have htravel : ∀ l, .travel l ∈ [LinkMove.enter id, .leave, .travel landingPage] → Serialised l := by
    intro l hl
    have hlanding : l = landingPage := by simpa using hl
    exact hlanding ▸ serialised_landingPage
  obtain ⟨-, -, -, -, hlink, -⟩ :=
    proposed_ids_travel (Vector.replicate 16 0) serialised_landingPage htravel
  refine ⟨hid, hlink.mpr fun hlost => ?_⟩
  have hlost : LinkPage.Lost landingPage id ([.enter id, .leave] ++ [.travel landingPage]) := hlost
  rcases LinkPage.lost_concat.mp hlost with ⟨h, -⟩ | ⟨-, h | h⟩ <;> cases h

end Screego
