import Screego.Lib.Text

/-!
# Comma-separated values

The reader of Go's `encoding/csv`, character by character, with a comment character, without spaces
at the start of fields and with as many fields in each record as in the first. The lines that a
writer without quotes makes, and which of them read back.

* `Reader.step`, `Reader.readAll`;
* `Reader.line`: the writer; `Reader.PlainRecord`: the records it may be given;
* **`Reader.readAll_lines_iff`**: a table reads back if and only if its records are plain.

Every character of a line stands for one character of a field or for the end of one; a reader that
skips or unquotes loses some of them. So the lines read back only if nothing was skipped.
-/

set_option autoImplicit false

namespace Screego.Lib

namespace Csv

def quote : Rune := .char '"'
def newline : Rune := .char '\n'
def ret : Rune := .char '\r'

/-- A reader with `TrimLeadingSpace`; `validDelim` is what the package demands of the two. -/
structure Reader where
  comma : Rune
  comment : Rune
  comma_ne_quote : comma ≠ quote
  comma_ne_newline : comma ≠ newline
  comma_ne_ret : comma ≠ ret
  comma_ne_comment : comma ≠ comment
  comment_ne_newline : comment ≠ newline
  comma_visible : comma.isSpace = false

inductive ParseError where
  | errBareQuote
  | errQuote
  | errFieldCount
  deriving DecidableEq

/-- Where the reader is. -/
inductive State where
  /-- At the start of a record. -/
  | start
  | comment
  /-- Behind `fields`, before the next one. -/
  | space (fields : List GoString)
  | bare (fields : List GoString) (field : GoString)
  | quoted (fields : List GoString) (field : GoString)
  /-- Behind a quote in a quoted field. -/
  | closed (fields : List GoString) (field : GoString)
  deriving DecidableEq

/-- The records read, and where the reader is. -/
structure Scan where
  records : List (List GoString)
  state : State
  deriving DecidableEq

/-- The end of a record: `FieldsPerRecord` is the number of fields of the first. -/
def emit (records : List (List GoString)) (record : List GoString) : Except ParseError Scan :=
  if ∀ first ∈ records.head?, first.length = record.length then .ok ⟨records ++ [record], .start⟩
  else .error .errFieldCount

/-- `\r\n` ends a line as `\n` does, and a last `\r` is dropped. -/
def normalise : GoString → GoString
  | [] => []
  | c :: text =>
    if c = ret ∧ (text = [] ∨ text.head? = some newline) then normalise text
    else c :: normalise text

namespace Reader

variable (r : Reader)

/-- A character at the start of a field. -/
def fieldStart (records : List (List GoString)) (fields : List GoString) (c : Rune) :
    Except ParseError Scan :=
  -- the end of a line is a space, too: what it ends is an empty field
  if c = newline then emit records (fields ++ [[]])
  else if c.isSpace then .ok ⟨records, .space fields⟩
  else if c = quote then .ok ⟨records, .quoted fields []⟩
  else if c = r.comma then .ok ⟨records, .space (fields ++ [[]])⟩
  else .ok ⟨records, .bare fields [c]⟩

/-- **One character.** -/
def step (s : Scan) (c : Rune) : Except ParseError Scan :=
  match s.state with
  | .start =>
    if c = r.comment then .ok ⟨s.records, .comment⟩
    else if c = newline then .ok s
    else r.fieldStart s.records [] c
  | .comment => .ok ⟨s.records, if c = newline then .start else .comment⟩
  | .space fields => r.fieldStart s.records fields c
  | .bare fields field =>
    if c = newline then emit s.records (fields ++ [field])
    else if c = r.comma then .ok ⟨s.records, .space (fields ++ [field])⟩
    else if c = quote then .error .errBareQuote
    else .ok ⟨s.records, .bare fields (field ++ [c])⟩
  | .quoted fields field =>
    if c = quote then .ok ⟨s.records, .closed fields field⟩
    else .ok ⟨s.records, .quoted fields (field ++ [c])⟩
  | .closed fields field =>
    if c = quote then .ok ⟨s.records, .quoted fields (field ++ [quote])⟩
    else if c = r.comma then .ok ⟨s.records, .space (fields ++ [field])⟩
    else if c = newline then emit s.records (fields ++ [field])
    else .error .errQuote

/-- The end of the file. -/
def eof (s : Scan) : Except ParseError (List (List GoString)) :=
  match s.state with
  | .start | .comment => .ok s.records
  | .space fields => (emit s.records (fields ++ [[]])).map (·.records)
  | .bare fields field | .closed fields field => (emit s.records (fields ++ [field])).map (·.records)
  | .quoted _ _ => .error .errQuote

def scan (s : Scan) (text : GoString) : Except ParseError Scan := text.foldlM r.step s

/-- **`ReadAll`.** -/
def readAll (text : GoString) : Except ParseError (List (List GoString)) :=
  (r.scan ⟨[], .start⟩ (normalise text)).bind eof

/-! ## Lines without quotes -/

/-- The line that a writer without quotes makes of a record. -/
def line (record : List GoString) : GoString := [r.comma].intercalate record ++ [newline]

/-- The field has no character that ends it or is a quote, and does not start with a space. -/
structure Plain (field : GoString) : Prop where
  chars : ∀ c ∈ field, c ≠ r.comma ∧ c ≠ quote ∧ c ≠ newline
  head : ∀ c ∈ field.head?, c.isSpace = false

/-- Fields as the reader finds them where it has skipped nothing. -/
structure Unquoted (fields : List GoString) : Prop where
  ne : fields ≠ []
  plain : ∀ field ∈ fields, r.Plain field
  first : ∀ c ∈ fields.head?.bind List.head?, c ≠ r.comment

/-- The records that read back: an empty line is skipped, and a `\r` before the end of a line. -/
structure PlainRecord (record : List GoString) : Prop extends r.Unquoted record where
  blank : record ≠ [[]]
  last : ret ∉ record.getLast?.bind List.getLast?

end Reader

/-! ## What is read weighs no more than the text -/

/-- The characters of a record and the ends of its fields. -/
def weight : List GoString → ℕ
  | [] => 0
  | field :: record => field.length + 1 + weight record

@[simp] theorem weight_append (a b : List GoString) : weight (a ++ b) = weight a + weight b := by
  induction a with
  | nil => exact (Nat.zero_add _).symm
  | cons field a ih =>
    rw [List.cons_append, weight, weight, ih]
    omega

@[simp] theorem weight_singleton (field : GoString) : weight [field] = field.length + 1 := rfl

def State.weight : State → ℕ
  | .start | .comment => 0
  | .space fields => Csv.weight fields
  | .bare fields field | .quoted fields field | .closed fields field =>
    Csv.weight fields + field.length

def Scan.weight (s : Scan) : ℕ := Csv.weight s.records.flatten + s.state.weight

namespace Reader

variable {r : Reader} {s s' : Scan} {c : Rune} {records : List (List GoString)}
  {fields : List GoString} {field : GoString} {text : GoString}

variable (r) in
/-- Where the reader is if it has skipped nothing. -/
def PlainState : State → Prop
  | .start => True
  | .space fields => r.Unquoted fields
  | .bare fields field => field ≠ [] ∧ r.Unquoted (fields ++ [field])
  | _ => False

variable (r) in
/-- The reader has skipped nothing. -/
structure Tight (s : Scan) : Prop where
  records : ∀ record ∈ s.records, r.Unquoted record ∧ record ≠ [[]]
  state : r.PlainState s.state

theorem Plain.nil : r.Plain [] :=
  ⟨fun _ h => absurd h List.not_mem_nil, fun _ h => by cases h⟩

theorem Unquoted.concat (h : r.Unquoted fields) (hf : r.Plain field) :
    r.Unquoted (fields ++ [field]) := by
  refine ⟨by simp, fun g hg => ?_, ?_⟩
  · rcases List.mem_append.mp hg with hg | hg
    · exact h.plain g hg
    · rw [List.mem_singleton.mp hg]
      exact hf
  · rw [List.head?_append_of_ne_nil _ h.ne]
    exact h.first

/-- A field goes on with one more character. -/
theorem Unquoted.push (h : r.Unquoted (fields ++ [field])) (hne : field ≠ [])
    (hc : c ≠ r.comma ∧ c ≠ quote ∧ c ≠ newline) : r.Unquoted (fields ++ [field ++ [c]]) := by
  have hf : r.Plain (field ++ [c]) := by
    obtain ⟨hchars, hhead⟩ := h.plain field (by simp)
    refine ⟨fun d hd => ?_, ?_⟩
    · rcases List.mem_append.mp hd with hd | hd
      · exact hchars d hd
      · rw [List.mem_singleton.mp hd]
        exact hc
    · rwa [List.head?_append_of_ne_nil _ hne]
  refine ⟨by simp, fun g hg => ?_, ?_⟩
  · rcases List.mem_append.mp hg with hg | hg
    · exact h.plain g (List.mem_append_left _ hg)
    · rw [List.mem_singleton.mp hg]
      exact hf
  · cases fields with
    | nil =>
      have hfirst := h.first
      simp only [List.nil_append, List.head?_cons, Option.bind_some] at hfirst ⊢
      rwa [List.head?_append_of_ne_nil _ hne]
    | cons f fields => exact h.first

theorem emit_eq_ok {record : List GoString} (h : emit records record = .ok s') :
    s' = ⟨records ++ [record], .start⟩ := by
  unfold emit at h
  split_ifs at h
  cases h
  rfl

/-- A record is complete. -/
theorem Tight.emit (hrecords : ∀ record ∈ records, r.Unquoted record ∧ record ≠ [[]])
    {record : List GoString} (hrecord : r.Unquoted record) (hne : record ≠ [[]]) :
    r.Tight ⟨records ++ [record], .start⟩ := by
  refine ⟨fun record' hmem => ?_, trivial⟩
  rcases List.mem_append.mp hmem with hmem | hmem
  · exact hrecords record' hmem
  · rw [List.mem_singleton.mp hmem]
    exact ⟨hrecord, hne⟩

theorem fieldStart_eq_ok (h : r.fieldStart records fields c = .ok s') :
    (s' = ⟨records ++ [fields ++ [[]]], .start⟩ ∧ c = newline) ∨ s' = ⟨records, .space fields⟩ ∨
      s' = ⟨records, .quoted fields []⟩ ∨ (s' = ⟨records, .space (fields ++ [[]])⟩ ∧ c = r.comma) ∨
      (s' = ⟨records, .bare fields [c]⟩ ∧ r.Plain [c]) := by
  unfold fieldStart at h
  split_ifs at h with hnewline hspace hquote hcomma
  · exact Or.inl ⟨emit_eq_ok h, hnewline⟩
  · cases h
    exact Or.inr (Or.inl rfl)
  · cases h
    exact Or.inr (Or.inr (Or.inl rfl))
  · cases h
    exact Or.inr (Or.inr (Or.inr (Or.inl ⟨rfl, hcomma⟩)))
  · cases h
    refine Or.inr (Or.inr (Or.inr (Or.inr ⟨rfl, fun d hd => ?_, fun d hd => ?_⟩)))
    · obtain rfl := List.mem_singleton.mp hd
      exact ⟨hcomma, hquote, hnewline⟩
    · cases hd
      simpa using hspace

variable (r) in
/-- A step that weighs at most one, and less if the reader skips its character. -/
structure Weighs (s s' : Scan) : Prop where
  le : s'.weight ≤ s.weight + 1
  tight : s'.weight = s.weight + 1 → r.Tight s → r.Tight s'

theorem Weighs.skip (h : s'.weight ≤ s.weight) : r.Weighs s s' :=
  ⟨by omega, fun hw => by omega⟩

theorem Weighs.read (h : s'.weight = s.weight + 1) (ht : r.Tight s → r.Tight s') : r.Weighs s s' :=
  ⟨h.le, fun _ => ht⟩

/-- The first character of a record. -/
theorem fieldStart_weighs_start (hcomment : c ≠ r.comment) (hnewline : c ≠ newline)
    (h : r.fieldStart records [] c = .ok s') : r.Weighs ⟨records, .start⟩ s' := by
  rcases fieldStart_eq_ok h with ⟨-, hc⟩ | rfl | rfl | ⟨rfl, -⟩ | ⟨rfl, hplain⟩
  · exact absurd hc hnewline
  · exact .skip le_rfl
  · exact .skip le_rfl
  · refine .read rfl fun ht => ⟨ht.records, by simp, fun f hf => ?_, fun d hd => by cases hd⟩
    rw [List.mem_singleton.mp hf]
    exact Plain.nil
  · refine .read rfl fun ht => ⟨ht.records, by simp, by simp, fun f hf => ?_, fun d hd => ?_⟩
    · rw [List.mem_singleton.mp hf]
      exact hplain
    · cases hd
      exact hcomment

/-- The first character of a later field. -/
theorem fieldStart_weighs_space (h : r.fieldStart records fields c = .ok s') :
    r.Weighs ⟨records, .space fields⟩ s' := by
  rcases fieldStart_eq_ok h with ⟨rfl, -⟩ | rfl | rfl | ⟨rfl, -⟩ | ⟨rfl, hplain⟩
  · refine .read (by simp [Scan.weight, State.weight]; omega) fun ht => ?_
    have hfields : r.Unquoted fields := ht.state
    refine .emit ht.records (hfields.concat .nil) fun heq => hfields.ne ?_
    exact List.append_left_eq_self.mp heq
  · exact .skip le_rfl
  · exact .skip le_rfl
  · refine .read (by simp [Scan.weight, State.weight]; omega) fun ht => ⟨ht.records, ?_⟩
    exact Unquoted.concat ht.state .nil
  · refine .read rfl fun ht => ⟨ht.records, by simp, ?_⟩
    exact Unquoted.concat ht.state hplain

/-- **One character.** -/
theorem step_weighs (h : r.step s c = .ok s') : r.Weighs s s' := by
  obtain ⟨records, state⟩ := s
  cases state with
  | start =>
    simp only [step] at h
    split_ifs at h with hcomment hnewline
    · cases h
      exact .skip le_rfl
    · cases h
      exact .skip le_rfl
    · exact fieldStart_weighs_start hcomment hnewline h
  | comment =>
    simp only [step] at h
    cases h
    refine .skip ?_
    split_ifs <;> exact le_rfl
  | space fields => exact fieldStart_weighs_space h
  | bare fields field =>
    simp only [step] at h
    split_ifs at h with hnewline hcomma hquote
    · rw [emit_eq_ok h]
      refine .read (by simp [Scan.weight, State.weight]; omega) fun ht => ?_
      refine .emit ht.records ht.state.2 fun heq => ht.state.1 ?_
      obtain ⟨-, heq⟩ | ⟨-, heq⟩ := List.append_eq_singleton_iff.mp heq
      · exact List.singleton_inj.mp heq
      · cases heq
    · cases h
      exact .read (by simp [Scan.weight, State.weight]; omega) fun ht => ⟨ht.records, ht.state.2⟩
    · cases h
      refine .read (by simp [Scan.weight, State.weight]; omega) fun ht => ⟨ht.records, by simp, ?_⟩
      exact ht.state.2.push ht.state.1 ⟨hcomma, hquote, hnewline⟩
  | quoted fields field =>
    refine ⟨?_, fun _ ht => absurd ht.state id⟩
    simp only [step] at h
    split_ifs at h
    · cases h
      exact Nat.le_succ _
    · cases h
      simp [Scan.weight, State.weight]
      omega
  | closed fields field =>
    refine ⟨?_, fun _ ht => absurd ht.state id⟩
    simp only [step] at h
    split_ifs at h
    · cases h
      simp [Scan.weight, State.weight]
      omega
    · cases h
      simp [Scan.weight, State.weight]
      omega
    · rw [emit_eq_ok h]
      simp [Scan.weight, State.weight]
      omega

theorem scan_cons_eq_ok :
    r.scan s (c :: text) = .ok s' ↔ ∃ s₁, r.step s c = .ok s₁ ∧ r.scan s₁ text = .ok s' := by
  rw [scan, List.foldlM_cons]
  cases r.step s c with
  | error err =>
    refine iff_of_false (fun h => by cases h) ?_
    rintro ⟨s₁, h, -⟩
    cases h
  | ok s₁ =>
    refine ⟨fun h => ⟨s₁, rfl, h⟩, ?_⟩
    rintro ⟨s₂, h, hscan⟩
    cases h
    exact hscan

/-- **A text** weighs no more than its characters, and less if the reader skips one. -/
theorem scan_weight (h : r.scan s text = .ok s') : s'.weight ≤ s.weight + text.length ∧
    (s'.weight = s.weight + text.length → r.Tight s → r.Tight s') := by
  induction text generalizing s with
  | nil =>
    cases h
    exact ⟨le_rfl, fun _ ht => ht⟩
  | cons c text ih =>
    obtain ⟨s₁, hs₁, h⟩ := scan_cons_eq_ok.mp h
    obtain ⟨hle, htight⟩ := step_weighs hs₁
    obtain ⟨hle', htight'⟩ := ih h
    rw [List.length_cons]
    exact ⟨by omega, fun hw ht => htight' (by omega) (htight (by omega) ht)⟩

/-- A line without quotes ends what is read of it. -/
theorem step_newline (h : r.step s newline = .ok s') :
    s'.state = .start ∨ ∃ fields field, s'.state = .quoted fields field := by
  obtain ⟨records, state⟩ := s
  have hquote : newline ≠ quote := by decide
  have hstart : ∀ {fields}, r.fieldStart records fields newline = .ok s' → s'.state = .start :=
    fun hs => by
      rw [fieldStart, if_pos rfl] at hs
      rw [emit_eq_ok hs]
  cases state with
  | start =>
    simp only [step] at h
    rw [if_neg r.comment_ne_newline.symm, if_pos trivial] at h
    cases h
    exact Or.inl rfl
  | comment =>
    simp only [step] at h
    cases h
    exact Or.inl (by rw [if_pos trivial])
  | space fields => exact Or.inl (hstart h)
  | bare fields field =>
    simp only [step, if_true] at h
    rw [emit_eq_ok h]
    exact Or.inl rfl
  | quoted fields field =>
    simp only [step, if_neg hquote] at h
    cases h
    exact Or.inr ⟨_, _, rfl⟩
  | closed fields field =>
    simp only [step, if_neg hquote, if_neg r.comma_ne_newline.symm, if_true] at h
    rw [emit_eq_ok h]
    exact Or.inl rfl

/-! ## Line ends -/

theorem newline_ne_ret : newline ≠ ret := by decide

theorem normalise_sublist (text : GoString) : (normalise text).Sublist text := by
  induction text with
  | nil => exact .slnil
  | cons c text ih =>
    unfold normalise
    split_ifs
    · exact ih.cons c
    · exact ih.cons_cons c

/-- The end of the last line stays. -/
theorem normalise_concat (text : GoString) :
    ∃ front, normalise (text ++ [newline]) = front ++ [newline] := by
  induction text with
  | nil => exact ⟨[], rfl⟩
  | cons c text ih =>
    obtain ⟨front, heq⟩ := ih
    rw [List.cons_append, normalise, heq]
    split_ifs
    · exact ⟨front, rfl⟩
    · exact ⟨c :: front, rfl⟩

/-- Nothing is dropped from a line that does not end in `\r`. -/
theorem normalise_line (hnewline : newline ∉ text) (hret : ret ∉ text.getLast?) (rest : GoString) :
    normalise (text ++ newline :: rest) = text ++ newline :: normalise rest := by
  induction text with
  | nil =>
    have hkeep : ¬ (newline = ret ∧ (rest = [] ∨ rest.head? = some newline)) := fun h =>
      newline_ne_ret h.1
    rw [List.nil_append, List.nil_append, normalise, if_neg hkeep]
  | cons c text ih =>
    rw [List.cons_append, normalise]
    cases text with
    | nil =>
      have hkeep : ¬ c = ret := fun h => hret (by rw [h]; rfl)
      rw [if_neg (fun h => hkeep h.1), ih List.not_mem_nil (by simp), List.cons_append]
    | cons d text =>
      have hkeep : ¬ (c = ret ∧ (d :: text ++ newline :: rest = [] ∨
          (d :: text ++ newline :: rest).head? = some newline)) := by
        rintro ⟨-, h | h⟩
        · cases h
        · cases h
          exact hnewline (by simp)
      rw [if_neg hkeep, ih (fun h => hnewline (List.mem_cons_of_mem _ h)) hret]
      rfl

/-- A line that ends in `\r` is not left as it is. -/
theorem normalise_ne_self (pre post : GoString) :
    normalise (pre ++ ret :: newline :: post) ≠ pre ++ ret :: newline :: post := by
  induction pre with
  | nil =>
    intro h
    rw [List.nil_append, normalise, if_pos ⟨rfl, Or.inr rfl⟩] at h
    have hle := (normalise_sublist (newline :: post)).length_le
    rw [h, List.length_cons] at hle
    omega
  | cons c pre ih =>
    intro h
    rw [List.cons_append, normalise] at h
    split_ifs at h
    · have hle := (normalise_sublist (pre ++ ret :: newline :: post)).length_le
      rw [h, List.length_cons] at hle
      omega
    · exact ih (List.cons.inj h).2

/-! ## Reading plain lines -/

theorem scan_append (s : Scan) (a b : GoString) :
    r.scan s (a ++ b) = (r.scan s a).bind fun s' => r.scan s' b :=
  List.foldlM_append

/-- Where the reader is behind a field without quotes. -/
def behind (fields : List GoString) (field : GoString) : State :=
  if field = [] then .space fields else .bare fields field

theorem scan_bare (hf : ∀ c ∈ text, c ≠ r.comma ∧ c ≠ quote ∧ c ≠ newline) (field : GoString) :
    r.scan ⟨records, .bare fields field⟩ text = .ok ⟨records, .bare fields (field ++ text)⟩ := by
  induction text generalizing field with
  | nil => rw [List.append_nil]; rfl
  | cons c text ih =>
    obtain ⟨hcomma, hquote, hnewline⟩ := hf c List.mem_cons_self
    refine scan_cons_eq_ok.mpr ⟨⟨records, .bare fields (field ++ [c])⟩, ?_, ?_⟩
    · simp only [step, if_neg hnewline, if_neg hcomma, if_neg hquote]
    · rw [ih (fun d hd => hf d (List.mem_cons_of_mem _ hd)), List.append_assoc]
      rfl

theorem scan_plain (hf : r.Plain field) :
    r.scan ⟨records, .space fields⟩ field = .ok ⟨records, behind fields field⟩ := by
  cases field with
  | nil => rfl
  | cons c text =>
    obtain ⟨hcomma, hquote, hnewline⟩ := hf.chars c List.mem_cons_self
    have hspace : ¬ c.isSpace = true := by simpa using hf.head c rfl
    refine scan_cons_eq_ok.mpr ⟨⟨records, .bare fields [c]⟩, ?_, ?_⟩
    · simp only [step, fieldStart, if_neg hnewline, if_neg hspace, if_neg hquote, if_neg hcomma]
    · exact scan_bare (fun d hd => hf.chars d (List.mem_cons_of_mem _ hd)) [c]

theorem step_behind_newline :
    r.step ⟨records, behind fields field⟩ newline = emit records (fields ++ [field]) := by
  unfold behind
  split_ifs with h
  · rw [h]
    simp [step, fieldStart]
  · simp [step]

theorem step_behind_comma :
    r.step ⟨records, behind fields field⟩ r.comma = .ok ⟨records, .space (fields ++ [field])⟩ := by
  unfold behind
  split_ifs with h
  · rw [h]
    simp [step, fieldStart, r.comma_ne_newline, r.comma_ne_quote, r.comma_visible]
  · simp [step, r.comma_ne_newline]

/-- The rest of a line. -/
theorem scan_fields (record : List GoString) (hne : record ≠ [])
    (hrecord : ∀ field ∈ record, r.Plain field) :
    r.scan ⟨records, .space fields⟩ (r.line record) = emit records (fields ++ record) := by
  have hlast : ∀ field, r.Plain field → ∀ fields rest,
      r.scan ⟨records, .space fields⟩ (field ++ rest) =
        r.scan ⟨records, behind fields field⟩ rest := fun field hf fields rest => by
    rw [scan_append, scan_plain hf]
    rfl
  induction record generalizing fields with
  | nil => exact absurd rfl hne
  | cons field record ih =>
    have hf := hrecord field List.mem_cons_self
    cases record with
    | nil =>
      rw [line, List.intercalate_singleton, hlast field hf]
      rw [scan, List.foldlM_cons, step_behind_newline]
      exact bind_pure _
    | cons field' record =>
      rw [line, List.intercalate_cons_cons, List.append_assoc, List.append_assoc, hlast field hf,
        List.singleton_append]
      rw [scan, List.foldlM_cons, step_behind_comma]
      have hrest : r.scan ⟨records, .space (fields ++ [field])⟩ (r.line (field' :: record)) =
          emit records (fields ++ [field] ++ field' :: record) :=
        ih (List.cons_ne_nil _ _) fun g hg => hrecord g (List.mem_cons_of_mem _ hg)
      rw [List.append_assoc] at hrest
      exact hrest

/-- **A line.** -/
theorem scan_line {record : List GoString} (hrecord : r.PlainRecord record) :
    r.scan ⟨records, .start⟩ (r.line record) = emit records record := by
  -- the first character neither starts a comment nor ends the line
  have hstart : ∀ c rest, c ≠ r.comment → c ≠ newline →
      r.scan ⟨records, .start⟩ (c :: rest) = r.scan ⟨records, .space []⟩ (c :: rest) := by
    intro c rest hcomment hnewline
    rw [scan, scan, List.foldlM_cons, List.foldlM_cons]
    simp only [step, if_neg hcomment, if_neg hnewline]
  have hline : r.scan ⟨records, .start⟩ (r.line record) =
      r.scan ⟨records, .space []⟩ (r.line record) := by
    cases record with
    | nil => exact absurd rfl hrecord.ne
    | cons field record =>
      cases field with
      | cons c field =>
        have hc := (hrecord.plain _ List.mem_cons_self).chars c List.mem_cons_self
        rw [line, List.intercalate_cons_cons_left]
        exact hstart c _ (hrecord.first c rfl) hc.2.2
      | nil =>
        cases record with
        | nil => exact absurd rfl hrecord.blank
        | cons field' record =>
          rw [line, List.intercalate_cons_cons]
          exact hstart r.comma _ r.comma_ne_comment r.comma_ne_newline
  rw [hline, scan_fields record hrecord.ne hrecord.plain, List.nil_append]

/-- **The lines of a table.** -/
theorem scan_lines {n : ℕ} (table : List (List GoString)) (hplain : ∀ record ∈ table, r.PlainRecord record)
    (hlen : ∀ record ∈ records ++ table, record.length = n) :
    r.scan ⟨records, .start⟩ (table.flatMap r.line) = .ok ⟨records ++ table, .start⟩ := by
  induction table generalizing records with
  | nil => rw [List.append_nil]; rfl
  | cons record table ih =>
    have hemit : emit records record = .ok ⟨records ++ [record], .start⟩ := by
      refine if_pos fun first hfirst => ?_
      rw [hlen first (List.mem_append_left _ (List.mem_of_head? hfirst)), hlen record (by simp)]
    rw [List.flatMap_cons, scan_append, scan_line (hplain record List.mem_cons_self), hemit]
    have hrest : r.scan ⟨records ++ [record], .start⟩ (table.flatMap r.line) =
        .ok ⟨records ++ [record] ++ table, .start⟩ :=
      ih (fun record' h => hplain record' (List.mem_cons_of_mem _ h)) (by rwa [List.append_assoc])
    rw [List.append_assoc] at hrest
    exact hrest

/-! ## Tables -/

theorem length_line {record : List GoString} (hne : record ≠ []) :
    (r.line record).length = weight record := by
  induction record with
  | nil => exact absurd rfl hne
  | cons field record ih =>
    cases record with
    | nil => rw [line, List.intercalate_singleton, List.length_append]; rfl
    | cons field' record =>
      have hrest := ih (List.cons_ne_nil _ _)
      have hweight : weight (field :: field' :: record) = field.length + 1 + weight (field' :: record) :=
        rfl
      rw [line, List.length_append] at hrest
      rw [line, List.intercalate_cons_cons, hweight, ← hrest]
      simp only [List.length_append, List.length_cons, List.length_nil]
      omega

theorem newline_not_mem_line {record : List GoString} (hplain : ∀ field ∈ record, r.Plain field) :
    newline ∉ [r.comma].intercalate record := by
  intro h
  obtain h | ⟨field, hf, h⟩ := mem_intercalate h
  · exact r.comma_ne_newline h.symm
  · exact ((hplain field hf).chars newline h).2.2 rfl

/-- The lines of plain records are left as they are. -/
theorem normalise_lines (table : List (List GoString)) (hplain : ∀ record ∈ table, r.PlainRecord record) :
    normalise (table.flatMap r.line) = table.flatMap r.line := by
  induction table with
  | nil => rfl
  | cons record table ih =>
    have hrecord := hplain record List.mem_cons_self
    have hret : ret ∉ ([r.comma].intercalate record).getLast? := by
      rw [getLast?_intercalate r.comma_ne_ret.symm]
      exact hrecord.last
    rw [List.flatMap_cons, line, List.append_assoc, List.singleton_append,
      normalise_line (newline_not_mem_line hrecord.plain) hret,
      ih fun record' h => hplain record' (List.mem_cons_of_mem _ h)]

theorem length_lines {table : List (List GoString)} (hne : ∀ record ∈ table, record ≠ []) :
    (table.flatMap r.line).length = weight table.flatten := by
  induction table with
  | nil => rfl
  | cons record table ih =>
    rw [List.flatMap_cons, List.length_append, List.flatten_cons, weight_append,
      length_line (hne record List.mem_cons_self),
      ih fun record' h => hne record' (List.mem_cons_of_mem _ h)]

/-- A text that ends with the end of a line leaves no record for the end of the file. -/
theorem scan_concat_newline {front : GoString} (hscan : r.scan s (front ++ [newline]) = .ok s')
    (heof : eof s' = .ok records) : s'.state = .start ∧ s'.records = records := by
  have hstate : s'.state = .start := by
    rw [scan_append] at hscan
    cases hmid : r.scan s front with
    | error err =>
      rw [hmid] at hscan
      cases hscan
    | ok mid =>
      rw [hmid] at hscan
      obtain ⟨s₁, hs₁, hnil⟩ := scan_cons_eq_ok.mp hscan
      cases hnil
      refine (step_newline hs₁).resolve_right ?_
      rintro ⟨fields, field, hquoted⟩
      rw [eof, hquoted] at heof
      cases heof
  refine ⟨hstate, ?_⟩
  rw [eof, hstate] at heof
  exact Except.ok.inj heof

/-- What reads back weighs as much as its lines: the reader has skipped nothing. -/
theorem tight_of_readAll {n : ℕ} {table : List (List GoString)}
    (hlen : ∀ record ∈ table, record.length = n + 1)
    (h : r.readAll (table.flatMap r.line) = .ok table) :
    (∀ record ∈ table, r.Unquoted record ∧ record ≠ [[]]) ∧
      normalise (table.flatMap r.line) = table.flatMap r.line := by
  rcases List.eq_nil_or_concat table with rfl | ⟨init, last, rfl⟩
  · exact ⟨fun _ h => absurd h List.not_mem_nil, rfl⟩
  rw [List.concat_eq_append] at hlen h ⊢
  have hlength : ((init ++ [last]).flatMap r.line).length = weight (init ++ [last]).flatten := by
    refine length_lines fun record hrecord hnil => ?_
    have hzero := hlen record hrecord
    rw [hnil] at hzero
    cases hzero
  obtain ⟨front, hfront⟩ : ∃ front, normalise ((init ++ [last]).flatMap r.line) = front ++ [newline] := by
    rw [List.flatMap_append, List.flatMap_singleton, line, ← List.append_assoc]
    exact normalise_concat _
  unfold readAll at h
  cases hscan : r.scan ⟨[], .start⟩ (normalise ((init ++ [last]).flatMap r.line)) with
  | error err =>
    rw [hscan] at h
    cases h
  | ok s =>
    rw [hscan] at h
    have heof : eof s = .ok (init ++ [last]) := h
    obtain ⟨hstate, hrecords⟩ := scan_concat_newline (hfront ▸ hscan) heof
    have hweight : s.weight = ((init ++ [last]).flatMap r.line).length := by
      rw [Scan.weight, hstate, hrecords, hlength]
      rfl
    obtain ⟨hle, htight⟩ := scan_weight hscan
    have hsub := normalise_sublist ((init ++ [last]).flatMap r.line)
    have hzero : Scan.weight ⟨[], .start⟩ = 0 := rfl
    have hnorm := hsub.eq_of_length_le (by omega)
    rw [hnorm] at hle htight
    refine ⟨fun record hrecord => ?_, hnorm⟩
    exact (htight (by omega) ⟨fun _ h => absurd h List.not_mem_nil, trivial⟩).records record
      (by rw [hrecords]; exact hrecord)

/-- **Tables.** The lines of a table read back as the table if and only if its records are plain. -/
theorem readAll_lines_iff {n : ℕ} {table : List (List GoString)}
    (hlen : ∀ record ∈ table, record.length = n + 1) :
    r.readAll (table.flatMap r.line) = .ok table ↔ ∀ record ∈ table, r.PlainRecord record := by
  constructor
  · intro h record hmem
    obtain ⟨hrecords, hnorm⟩ := tight_of_readAll hlen h
    obtain ⟨hunquoted, hblank⟩ := hrecords record hmem
    refine ⟨hunquoted, hblank, fun hlast => ?_⟩
    rw [← getLast?_intercalate r.comma_ne_ret.symm] at hlast
    obtain ⟨text, htext⟩ := List.getLast?_eq_some_iff.mp (Option.mem_def.mp hlast)
    obtain ⟨before, after, rfl⟩ := List.append_of_mem hmem
    refine normalise_ne_self (before.flatMap r.line ++ text) (after.flatMap r.line) ?_
    rw [List.flatMap_append, List.flatMap_cons, line, htext] at hnorm
    simpa [List.append_assoc] using hnorm
  · intro hplain
    rw [readAll, normalise_lines table hplain, scan_lines table hplain hlen]
    rfl

end Reader

end Csv

end Screego.Lib
