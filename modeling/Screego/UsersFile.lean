import Mathlib.Data.List.Forall2
import Screego.Lib.Csv
import Screego.Lib.Map

/-!
# The users file

The lines that `screego hash` prints, and what `auth.ReadPasswordsFile` makes of a file of such lines.

* `Bcrypt`: the package, by what is promised of it;
* `hashCmd`, `Printed`: a run of the command that printed a line;
* `Auth.read`, `Auth.readPasswordsFile`, `Auth.Users.validate`;
* `ReadsBack`: the file is read as it was printed; `PlainName`: the names that need no quotes;
* **`users_file_round_trip_iff`**.
-/

set_option autoImplicit false

namespace Screego

open Lib

/-! ## The code -/

/-- The characters of hashes: `$./A-Za-z0-9`. -/
def IsHashChar (c : Rune) : Prop :=
  ∃ ch : Char, c = .char ch ∧ (ch ∈ ['$', '.', '/'] ∨ ch.isAlphanum = true)

/-- **The package `bcrypt`.** -/
structure Bcrypt where
  /-- `GenerateFromPassword`, with the salt it draws. -/
  generate : (salt : List UInt8) → (password : GoString) → (cost : ℕ) → Except String GoString
  /-- `CompareHashAndPassword` returns no error. -/
  accepts : (hashedPassword password : GoString) → Bool
  chars : ∀ salt password cost hash, generate salt password cost = .ok hash → ∀ c ∈ hash, IsHashChar c
  accepts_generate : ∀ salt password cost hash, generate salt password cost = .ok hash →
    accepts hash password = true

/-- A run of `screego hash`: the flags, what `term.ReadPassword` returns, and the salt drawn. -/
structure HashRun where
  name : GoString
  pass : GoString
  typed : Except String GoString
  salt : List UInt8

/-- The password: without the flag, the one typed. -/
def HashRun.password (c : HashRun) : Except String GoString :=
  if c.pass = [] then c.typed else .ok c.pass

/-- `hashCmd`: the fatal message, or what is printed. -/
def hashCmd (b : Bcrypt) (c : HashRun) : Except String GoString :=
  if c.name = [] then .error "--name must be set"
  else
    match c.password with
    | .error _ => .error "could not read stdin"
    | .ok pass =>
      match b.generate c.salt pass 12 with
      | .error _ => .error "could not generate password"
      | .ok hashedPw => .ok (c.name ++ .char ':' :: hashedPw ++ [.char '\n'])

namespace Auth

structure UserPW where
  name : GoString
  pass : GoString
  deriving DecidableEq

/-- The errors of `read`. -/
inductive ReadError where
  | csv (err : Csv.ParseError)
  /-- "malformed users file" -/
  | malformed
  deriving DecidableEq

/-- The reader as `read` sets it up. -/
def reader : Csv.Reader where
  comma := .char ':'
  comment := .char '#'
  comma_ne_quote := by decide
  comma_ne_newline := by decide
  comma_ne_ret := by decide
  comma_ne_comment := by decide
  comment_ne_newline := by decide
  comma_visible := by decide

def userOf (record : List GoString) : Except ReadError UserPW :=
  match record with
  | [name, pass] => .ok ⟨name, pass⟩
  | _ => .error .malformed

def read (text : GoString) : Except ReadError (List UserPW) :=
  match reader.readAll text with
  | .error err => .error (.csv err)
  | .ok records => records.mapM userOf

/-- `Users`, without the session store. -/
structure Users where
  lookup : GoMap GoString GoString

/-- The errors of `ReadPasswordsFile`. -/
inductive FileError where
  | os (err : String)
  | read (err : ReadError)

/-- The loop of `ReadPasswordsFile`. -/
def lookupOf (userPws : List UserPW) : GoMap GoString GoString :=
  userPws.foldl (fun lookup record => lookup.insert record.name record.pass) ∅

/-- `ReadPasswordsFile`, from what the files hold. -/
def readPasswordsFile (file : String → Except String GoString) (path : String) :
    Users × Option FileError :=
  if path = "" then (⟨∅⟩, none)
  else
    match file path with
    | .error err => (⟨∅⟩, some (.os err))
    | .ok text =>
      match Auth.read text with
      | .error err => (⟨∅⟩, some (.read err))
      | .ok userPws => (⟨lookupOf userPws⟩, none)

/-- `Users.Validate`. -/
def Users.validate (u : Users) (b : Bcrypt) (user password : GoString) : Bool :=
  match u.lookup.lookup user with
  | some realPassword => b.accepts realPassword password
  | none => false

end Auth

open Auth

/-! ## Files of printed lines -/

/-- A run that printed a line. -/
structure Printed (b : Bcrypt) where
  run : HashRun
  password : GoString
  hash : GoString
  line : GoString
  password_eq : run.password = .ok password
  hash_eq : b.generate run.salt password 12 = .ok hash
  line_eq : hashCmd b run = .ok line

variable {b : Bcrypt}

def Printed.name (p : Printed b) : GoString := p.run.name

def usersFile (runs : List (Printed b)) : GoString := runs.flatMap Printed.line

/-- **The file is read as it was printed**: the names with their hashes, in order; every name has the
hash of its last line, and the password that was hashed there is valid. -/
structure ReadsBack (runs : List (Printed b)) : Prop where
  read : Auth.read (usersFile runs) = .ok (runs.map fun p => ⟨p.name, p.hash⟩)
  lookup : ∀ file path, path ≠ "" → file path = .ok (usersFile runs) →
    ∃ users, readPasswordsFile file path = (users, none) ∧
      ∀ before p after, runs = before ++ p :: after → (∀ q ∈ after, q.name ≠ p.name) →
        users.lookup.lookup p.name = some p.hash ∧ users.validate b p.name p.password = true

/-- The names that need no quotes. -/
def PlainName (name : GoString) : Prop :=
  (∀ c ∈ name, c ≠ .char ':' ∧ c ≠ .char '"' ∧ c ≠ .char '\n') ∧
    ∀ c ∈ name.head?, c ≠ .char '#' ∧ c.isSpace = false

/-- What is printed. -/
theorem Printed.line_spec (p : Printed b) : p.name ≠ [] ∧ p.line = reader.line [p.name, p.hash] := by
  have hline := p.line_eq
  unfold hashCmd at hline
  split_ifs at hline with hname
  rw [p.password_eq] at hline
  dsimp only at hline
  rw [p.hash_eq] at hline
  refine ⟨hname, ?_⟩
  rw [Csv.Reader.line, List.intercalate_cons_cons, List.intercalate_singleton, ← Except.ok.inj hline]
  simp [Printed.name, reader, Csv.newline]

/-- The codes of the characters of hashes. -/
theorem IsHashChar.toNat {ch : Char} (h : IsHashChar (.char ch)) :
    ch.toNat = 36 ∨ (46 ≤ ch.toNat ∧ ch.toNat ≤ 57) ∨ (65 ≤ ch.toNat ∧ ch.toNat ≤ 90) ∨
      (97 ≤ ch.toNat ∧ ch.toNat ≤ 122) := by
  obtain ⟨ch', heq, h⟩ := h
  cases heq
  rcases h with h | h
  · simp only [List.mem_cons, List.not_mem_nil, or_false] at h
    rcases h with rfl | rfl | rfl <;> decide
  · unfold Char.isAlphanum Char.isAlpha Char.isUpper Char.isLower Char.isDigit at h
    simp only [Bool.or_eq_true, Bool.and_eq_true, decide_eq_true_eq, UInt32.le_iff_toNat_le] at h
    change (65 ≤ ch.toNat ∧ ch.toNat ≤ 90 ∨ 97 ≤ ch.toNat ∧ ch.toNat ≤ 122) ∨
      48 ≤ ch.toNat ∧ ch.toNat ≤ 57 at h
    omega

/-- The characters of hashes mean nothing to the reader. -/
theorem IsHashChar.plain {c : Rune} (h : IsHashChar c) :
    (c ≠ .char ':' ∧ c ≠ .char '"' ∧ c ≠ .char '\n') ∧ c ≠ .char '\r' ∧ c.isSpace = false := by
  have hne : ∀ d : Char, c = .char d → d.toNat = 36 ∨ (46 ≤ d.toNat ∧ d.toNat ≤ 57) ∨
      (65 ≤ d.toNat ∧ d.toNat ≤ 90) ∨ (97 ≤ d.toNat ∧ d.toNat ≤ 122) := fun d hd =>
    (hd ▸ h).toNat
  refine ⟨⟨fun hc => ?_, fun hc => ?_, fun hc => ?_⟩, fun hc => ?_, ?_⟩
  · exact absurd (hne _ hc) (by decide)
  · exact absurd (hne _ hc) (by decide)
  · exact absurd (hne _ hc) (by decide)
  · exact absurd (hne _ hc) (by decide)
  · obtain ⟨ch, rfl, -⟩ := h
    have hcode := hne ch rfl
    simp only [Rune.isSpace, isSpace, Bool.or_eq_false_iff, Bool.and_eq_false_iff,
      decide_eq_false_iff_not, beq_eq_false_iff_ne]
    omega

/-- **A printed line reads back** if and only if its name is plain. -/
theorem Printed.plainRecord_iff (p : Printed b) :
    reader.PlainRecord [p.name, p.hash] ↔ PlainName p.name := by
  have hhash : ∀ c ∈ p.hash, IsHashChar c := b.chars _ _ _ _ p.hash_eq
  constructor
  · intro h
    have hname := h.plain p.name List.mem_cons_self
    exact ⟨hname.chars, fun c hc => ⟨h.first c hc, hname.head c hc⟩⟩
  · rintro ⟨hchars, hhead⟩
    refine ⟨⟨by simp, fun field hfield => ?_, fun c hc => (hhead c hc).1⟩, by simp, fun hlast => ?_⟩
    · rcases List.mem_pair.mp hfield with rfl | rfl
      · exact ⟨hchars, fun c hc => (hhead c hc).2⟩
      · refine ⟨fun c hc => (hhash c hc).plain.1, fun c hc => ?_⟩
        exact (hhash c (List.mem_of_head? hc)).plain.2.2
    · exact (hhash _ (List.mem_of_getLast? hlast)).plain.2.1 rfl

/-! ## Reading -/

theorem userOf_eq_ok {record : List GoString} {u : UserPW} :
    userOf record = .ok u ↔ record = [u.name, u.pass] := by
  constructor
  · intro h
    unfold userOf at h
    split at h
    · cases h
      rfl
    · cases h
  · rintro rfl
    rfl

theorem mapM_eq_ok {ε α β : Type} {f : α → Except ε β} {as : List α} {bs : List β} :
    as.mapM f = .ok bs ↔ List.Forall₂ (fun a b => f a = .ok b) as bs := by
  induction as generalizing bs with
  | nil =>
    rw [List.mapM_nil, List.forall₂_nil_left_iff]
    exact ⟨fun h => (Except.ok.inj h).symm, fun h => by rw [h]; rfl⟩
  | cons a as ih =>
    rw [List.mapM_cons, List.forall₂_cons_left_iff]
    constructor
    · intro h
      cases ha : f a with
      | error err =>
        rw [ha] at h
        cases h
      | ok b =>
        cases has : as.mapM f with
        | error err =>
          rw [ha, has] at h
          cases h
        | ok bs' =>
          rw [ha, has] at h
          cases h
          exact ⟨b, bs', rfl, ih.mp has, rfl⟩
    · rintro ⟨b, bs', ha, has, rfl⟩
      rw [ha, ih.mpr has]
      rfl

theorem mapM_userOf_eq_ok {records : List (List GoString)} {userPws : List UserPW} :
    records.mapM userOf = .ok userPws ↔ records = userPws.map fun u => [u.name, u.pass] := by
  have hfields : (fun record u => userOf record = .ok u) =
      fun (record : List GoString) (u : UserPW) => record = [u.name, u.pass] := by
    funext record u
    exact propext userOf_eq_ok
  have heq : records = userPws.map (fun u => [u.name, u.pass]) ↔
      List.Forall₂ Eq records (userPws.map fun u => [u.name, u.pass]) := by
    rw [List.forall₂_eq_eq_eq]
  rw [mapM_eq_ok, hfields, heq, List.forall₂_map_right_iff]

theorem read_eq_ok {text : GoString} {userPws : List UserPW} :
    Auth.read text = .ok userPws ↔ reader.readAll text = .ok (userPws.map fun u => [u.name, u.pass]) := by
  unfold Auth.read
  cases reader.readAll text with
  | error err => exact iff_of_false (fun h => by cases h) fun h => by cases h
  | ok records =>
    rw [Except.ok.injEq]
    exact mapM_userOf_eq_ok

/-- The entry of the last line of a name. -/
theorem lookup_lookupOf (before after : List UserPW) (u : UserPW)
    (hlast : ∀ v ∈ after, v.name ≠ u.name) :
    (lookupOf (before ++ u :: after)).lookup u.name = some u.pass := by
  rw [lookupOf, List.foldl_append, List.foldl_cons]
  -- the lines behind it leave the entry as it is
  have hkeep : ∀ m : GoMap GoString GoString, m.lookup u.name = some u.pass →
      Finmap.lookup u.name (after.foldl
        (fun lookup record => lookup.insert record.name record.pass) m) = some u.pass := by
    induction after with
    | nil => exact fun m h => h
    | cons v after ih =>
      intro m h
      rw [List.foldl_cons]
      refine ih (fun w hw => hlast w (List.mem_cons_of_mem _ hw)) _ ?_
      rw [GoMap.lookup_insert_ite, if_neg (hlast v List.mem_cons_self).symm]
      exact h
  exact hkeep _ (Finmap.lookup_insert _)

/-- **The users file.** The file of the lines that `screego hash` has printed is read as it was
printed if and only if none of the names needs quotes. -/
theorem users_file_round_trip_iff (b : Bcrypt) (runs : List (Printed b)) :
    ReadsBack runs ↔ ∀ p ∈ runs, PlainName p.name := by
  have hfile : usersFile runs = (runs.map fun p => [p.name, p.hash]).flatMap reader.line := by
    rw [usersFile, List.flatMap_map]
    exact List.flatMap_congr fun p _ => p.line_spec.2
  have hread : Auth.read (usersFile runs) = .ok (runs.map fun p => ⟨p.name, p.hash⟩) ↔
      ∀ p ∈ runs, PlainName p.name := by
    rw [read_eq_ok, List.map_map, hfile]
    have hlen : ∀ record ∈ runs.map fun p => [p.name, p.hash], record.length = 1 + 1 := by
      intro record hrecord
      obtain ⟨p, -, rfl⟩ := List.mem_map.mp hrecord
      rfl
    refine (Csv.Reader.readAll_lines_iff hlen).trans (List.forall_mem_map.trans ?_)
    exact forall₂_congr fun p _ => p.plainRecord_iff
  constructor
  · exact fun h => hread.mp h.read
  · intro h
    have hok := hread.mpr h
    refine ⟨hok, fun file path hpath htext => ?_⟩
    refine ⟨⟨lookupOf (runs.map fun p => ⟨p.name, p.hash⟩)⟩, ?_, fun before p after heq hlast => ?_⟩
    · rw [readPasswordsFile, if_neg hpath, htext]
      dsimp only
      rw [hok]
    · have hlookup : (lookupOf (runs.map fun p => ⟨p.name, p.hash⟩)).lookup p.name = some p.hash := by
        rw [heq, List.map_append, List.map_cons]
        refine lookup_lookupOf _ _ ⟨p.name, p.hash⟩ fun v hv => ?_
        obtain ⟨q, hq, rfl⟩ := List.mem_map.mp hv
        exact hlast q hq
      refine ⟨hlookup, ?_⟩
      rw [Users.validate]
      dsimp only
      rw [hlookup]
      exact b.accepts_generate _ _ _ _ p.hash_eq

/-- A hash of `abc123xyz`. -/
def knownHash : String := "$2a$12$R9h/cIPz0gi.URNNX3kh2OPST9/PgBkqquzi.Ss7KIUgO2t0jWMUW"

/-- A package that knows one password and its hash. -/
def onePassword : Bcrypt where
  generate _ password _ :=
    if password = goString "abc123xyz" then .ok (goString knownHash) else .error "unknown password"
  accepts hashedPassword password :=
    decide (password = goString "abc123xyz" ∧ hashedPassword = goString knownHash)
  chars salt password cost hash h c hc := by
    split_ifs at h
    cases h
    obtain ⟨ch, hch, rfl⟩ := List.mem_map.mp hc
    have hall : knownHash.toList.all (fun ch => ['$', '.', '/'].elem ch || ch.isAlphanum) = true := by
      decide +kernel
    refine ⟨ch, rfl, ?_⟩
    simpa using List.all_eq_true.mp hall ch hch
  accepts_generate salt password cost hash h := by
    split_ifs at h with hpassword
    cases h
    exact decide_eq_true ⟨hpassword, rfl⟩

/-- `screego hash --name eu:ops --pass abc123xyz`. -/
def colonRun : Printed onePassword where
  run := ⟨goString "eu:ops", goString "abc123xyz", .error "no terminal", []⟩
  password := goString "abc123xyz"
  hash := goString knownHash
  line := goString ("eu:ops:" ++ knownHash ++ "\n")
  password_eq := by decide +kernel
  hash_eq := by decide +kernel
  line_eq := by decide +kernel

/-- **A name with a colon** makes a line of three fields, and the whole file malformed. -/
theorem name_with_colon_is_malformed :
    Auth.read (usersFile [colonRun]) = .error .malformed ∧ ¬ ReadsBack [colonRun] := by
  have hread : Auth.read (usersFile [colonRun]) = .error .malformed := by decide +kernel
  refine ⟨hread, fun h => ?_⟩
  have hok := h.read
  rw [hread] at hok
  cases hok

end Screego
