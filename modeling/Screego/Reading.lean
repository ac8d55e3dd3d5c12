import Screego.Connections
import Screego.Frames
import Screego.Lib.JsonText
import Screego.Lib.Unmarshal
import Screego.Relay
import Screego.Xid

/-!
# What the server reads

`ReadTypedIncoming` of `ws/readwrite.go` with the registered events, and the messages of the browser, the
`OutgoingMessage` of `message.ts`.

* `rawText`, `rawValue`: a `json.RawMessage`; `XidReader`: how an id is read;
* `provider`, `readTypedIncoming`;
* `OutgoingMessage`, `Spells`: a message of the browser, and its text;
* **`browser_is_understood`**: what the server reads, of any text and of a text of the browser;
* **`signals_arrive_unchanged`**: a signalling message from one browser to the other.
-/

set_option autoImplicit false

namespace Screego

open Lib Outgoing

/-! ## Raw values and ids -/

/-- A `json.RawMessage` holds the text of a value. -/
def rawText (j : Json) : String := String.ofList (j.print fun _ => false)

/-- The value of a `json.RawMessage`. One that was never set is `null`. -/
def rawValue (text : String) : Json := ((Json.parse text.toList).map Prod.fst).getD .null

theorem rawValue_rawText (j : Json) : rawValue (rawText j) = j := by
  have hparse := Json.parse_print (fun _ => false) j fun _ _ => Json.stops_nil
  rw [List.append_nil] at hparse
  rw [rawValue, rawText, String.toList_ofList, hparse]
  rfl

/-- **`xid.ID.UnmarshalJSON`**: it is given the text of a value. -/
structure XidReader (env : Env) where
  unmarshalJSON : String → Option XID
  unmarshalJSON_text : ∀ id, unmarshalJSON (rawText (.str (env.xidString id))) = some id

/-! ## Events -/

section Provider

variable {env : Env} (X : XidReader env)

/-- The fields of `Create`. -/
def createFields : List (GoField Create) :=
  [.string "id" fun s e => { e with id := s }, .string "mode" fun s e => { e with mode := s },
    .bool "closeOnOwnerLeave" fun b e => { e with closeOnOwnerLeave := b },
    .string "username" fun s e => { e with userName := s },
    .string "visitorId" fun s e => { e with visitorID := s },
    .bool "joinIfExist" fun b e => { e with joinIfExist := b }]

/-- The fields of `Join`. -/
def joinFields : List (GoField Join) :=
  [.string "id" fun s e => { e with id := s }, .string "username" fun s e => { e with userName := s },
    .string "visitorId" fun s e => { e with visitorID := s }]

/-- The field of `Name`. -/
def nameFields : List (GoField String) := [.string "username" fun s _ => s]

/-- The fields of `P2PMessage`. -/
def p2pFields : List (GoField P2PMessage) :=
  [⟨"sid", fun j => (X.unmarshalJSON (rawText j)).map fun sid m => { m with sid := sid }⟩,
    ⟨"value", fun j => some fun m => { m with value := rawText j }⟩]

/-- `Create{}` and the like: the values that events are read into. -/
def createZero : Create := ⟨"", "", false, "", "", false⟩

def joinZero : Join := ⟨"", "", ""⟩

/-- The id is `nilID`. -/
def p2pZero : P2PMessage := ⟨default, ""⟩

/-- A payload read into a `P2PMessage`. -/
def readP2P (j : Json) : Option P2PMessage := unmarshalStruct (p2pFields X) p2pZero j

/-- **`provider`**: the registered types, and the event that a payload is read as. -/
def provider : List (String × (Json → Option Event)) :=
  [("clientanswer", fun j => (readP2P X j).map .clientAnswer),
    ("clientice", fun j => (readP2P X j).map .clientICE),
    ("create", fun j => (unmarshalStruct createFields createZero j).map .create),
    ("hostice", fun j => (readP2P X j).map .hostICE),
    ("hostoffer", fun j => (readP2P X j).map .hostOffer),
    ("join", fun j => (unmarshalStruct joinFields joinZero j).map .join),
    ("name", fun j => (unmarshalStruct nameFields "" j).map .name),
    ("share", fun j => (unmarshalStruct [] () j).map fun _ => .startShare),
    ("stopshare", fun j => (unmarshalStruct [] () j).map fun _ => .stopShare)]

/-- The fields of `Typed`: a payload is kept as it is. -/
def typedFields : List (GoField (String × Option Json)) :=
  [.string "type" fun s t => (s, t.2), ⟨"payload", fun j => some fun t => (t.1, some j)⟩]

/-- How reading ends without an event. -/
inductive ReadError where
  /-- No `Typed`. -/
  | decode
  /-- `cannot handle`, and the type. -/
  | cannotHandle (type : String)
  /-- `incoming payload`. -/
  | payload

/-- **`ReadTypedIncoming`.** What comes behind the first value of the text is not read. -/
def readTypedIncoming (text : List Char) : Except ReadError Event :=
  match Json.parse text with
  | none => .error .decode
  | some (j, _) =>
    match unmarshalStruct typedFields ("", none) j with
    | none => .error .decode
    | some (type, payload) =>
      match (provider X).lookup type with
      | none => .error (.cannotHandle type)
      | some read =>
        -- the text of a payload that is missing is empty
        match payload.bind read with
        | none => .error .payload
        | some e => .ok e

end Provider

/-- Where `xid.New` counts, an id is read from the text that `xidText` gives it. -/
def XidReader.counting (config : Config) : XidReader (Env.counting config) where
  unmarshalJSON text :=
    match rawValue text with
    | .null => some ⟨0⟩
    | .str s => if xidText ⟨xidSerial s⟩ = s then some ⟨xidSerial s⟩ else none
    | _ => none
  unmarshalJSON_text id := by
    simp only [rawValue_rawText, Env.counting, xidSerial_xidText, if_true]

/-! ## The browser -/

/-- **`OutgoingMessage`** of `message.ts`, with ids for their texts. -/
inductive OutgoingMessage where
  | create (id : Option String) (closeOnOwnerLeave : Option Bool) (mode : String)
      (username visitorId : Option String) (joinIfExist : Option Bool)
  | join (id : String) (password username visitorId : Option String)
  | name (username : String)
  | share
  | stopshare
  | signal (k : Signal) (sid : XID) (value : Option Json)

namespace OutgoingMessage

/-- The type of a signalling message. -/
def signalType : Signal → String
  | .hostOffer => "hostoffer"
  | .hostICE => "hostice"
  | .clientAnswer => "clientanswer"
  | .clientICE => "clientice"

def type : OutgoingMessage → String
  | create .. => "create"
  | join .. => "join"
  | name _ => "name"
  | share => "share"
  | stopshare => "stopshare"
  | signal k _ _ => signalType k

/-- A property: `JSON.stringify` leaves out what is undefined. -/
def property (key : String) (x : Option Json) : List (String × Json) :=
  (x.map fun j => (key, j)).toList

/-- The properties of the payload. -/
def payload (env : Env) : OutgoingMessage → List (String × Json)
  | create id closeOnOwnerLeave mode username visitorId joinIfExist =>
    property "id" (id.map .str) ++ property "closeOnOwnerLeave" (closeOnOwnerLeave.map .bool) ++
      property "mode" (some (.str mode)) ++ property "username" (username.map .str) ++
      property "visitorId" (visitorId.map .str) ++ property "joinIfExist" (joinIfExist.map .bool)
  | join id password username visitorId =>
    property "id" (some (.str id)) ++ property "password" (password.map .str) ++
      property "username" (username.map .str) ++ property "visitorId" (visitorId.map .str)
  | name username => property "username" (some (.str username))
  | share => []
  | stopshare => []
  | signal _ sid value => property "sid" (some (.str (env.xidString sid))) ++ property "value" value

/-- The event it is meant to be. -/
def event : OutgoingMessage → Event
  | create id closeOnOwnerLeave mode username visitorId joinIfExist =>
    .create ⟨id.getD "", mode, closeOnOwnerLeave.getD false, username.getD "", visitorId.getD "",
      joinIfExist.getD false⟩
  | join id _ username visitorId => .join ⟨id, username.getD "", visitorId.getD ""⟩
  | name username => .name username
  | share => .startShare
  | stopshare => .stopShare
  | signal k sid value => k.event ⟨sid, (value.map rawText).getD ""⟩

/-- **The text spells the message**: an object with its type and its payload, whose properties are in any
order, and anything behind it. -/
def Spells (env : Env) (m : OutgoingMessage) (text : List Char) : Prop :=
  ∃ esc kvs payload rest, text = (Json.obj kvs).print esc ++ rest ∧
    kvs.Perm [("type", .str m.type), ("payload", .obj payload)] ∧ payload.Perm (m.payload env)

end OutgoingMessage

/-! ## What is read of a struct -/

section Fields

variable {α : Type} {fields : List (GoField α)}

/-- An object, with its properties in any order. -/
theorem unmarshalStruct_perm (h : Fields fields) {kvs kvs' : List (String × Json)} (hperm : kvs.Perm kvs')
    (hnodup : (kvs'.map Prod.fst).Nodup)
    (hnames : ∀ key ∈ kvs'.map Prod.fst, key ∈ fields.map GoField.name ∨ fieldOf fields key = none)
    (zero : α) : unmarshalStruct fields zero (.obj kvs) = unmarshalFields fields kvs' zero :=
  (unmarshalFields_perm h hperm.symm hnodup hnames zero).symm

end Fields

/-! ## The fields of the events -/

open GoField in
theorem fields_create : Fields createFields where
  names := by decide
  apart := by
    have hs := @sets_string Create
    have hb := @sets_bool Create
    simp only [createFields, List.pairwise_cons, List.mem_cons, List.not_mem_nil, or_false,
      forall_eq_or_imp, forall_eq, false_imp_iff, implies_true, List.Pairwise.nil, and_true]
    -- a pair is of two strings, of a string and a boolean, or of two booleans
    refine ⟨⟨?_, ?_, ?_, ?_, ?_⟩, ⟨?_, ?_, ?_, ?_⟩, ⟨?_, ?_, ?_⟩, ⟨?_, ?_⟩, ?_⟩ <;>
      first
      | exact (hs _ _).apart (hs _ _) fun _ _ _ => rfl
      | exact (hs _ _).apart (hb _ _) fun _ _ _ => rfl
      | exact (hb _ _).apart (hs _ _) fun _ _ _ => rfl
      | exact (hb _ _).apart (hb _ _) fun _ _ _ => rfl

open GoField in
theorem fields_join : Fields joinFields where
  names := by decide
  apart := by
    have hs := @sets_string Join
    simp only [joinFields, List.pairwise_cons, List.mem_cons, List.not_mem_nil, or_false,
      forall_eq_or_imp, forall_eq, false_imp_iff, implies_true, List.Pairwise.nil, and_true]
    exact ⟨⟨(hs _ _).apart (hs _ _) fun _ _ _ => rfl, (hs _ _).apart (hs _ _) fun _ _ _ => rfl⟩,
      (hs _ _).apart (hs _ _) fun _ _ _ => rfl⟩

theorem fields_typed : Fields typedFields where
  names := by decide
  apart := by
    have hpayload : GoField.Sets (α := String × Option Json)
        ⟨"payload", fun j => some fun t => (t.1, some j)⟩ fun j t => (t.1, some j) :=
      fun j u h => .inr ⟨j, (Option.some.inj h).symm⟩
    exact List.pairwise_pair.mpr ((GoField.sets_string _ _).apart hpayload fun _ _ _ => rfl)

variable {env : Env} (X : XidReader env)

theorem fields_p2p : Fields (p2pFields X) where
  names := by simp [p2pFields]
  apart := by
    have hsid : GoField.Sets (α := P2PMessage)
        ⟨"sid", fun j => (X.unmarshalJSON (rawText j)).map fun sid m => { m with sid := sid }⟩
        fun sid m => { m with sid := sid } := by
      intro j u h
      obtain ⟨sid, -, rfl⟩ := Option.map_eq_some_iff.mp h
      exact .inr ⟨sid, rfl⟩
    have hvalue : GoField.Sets (α := P2PMessage)
        ⟨"value", fun j => some fun m => { m with value := rawText j }⟩
        fun j m => { m with value := rawText j } := fun j u h => .inr ⟨j, (Option.some.inj h).symm⟩
    exact List.pairwise_pair.mpr (hsid.apart hvalue fun _ _ _ => rfl)

namespace OutgoingMessage

variable {kvs : List (String × Json)}

theorem read_create {id : Option String} {closeOnOwnerLeave : Option Bool} {mode : String}
    {username visitorId : Option String} {joinIfExist : Option Bool}
    (h : kvs.Perm ((create id closeOnOwnerLeave mode username visitorId joinIfExist).payload env)) :
    unmarshalStruct createFields createZero (.obj kvs) =
      some ⟨id.getD "", mode, closeOnOwnerLeave.getD false, username.getD "", visitorId.getD "",
        joinIfExist.getD false⟩ := by
  rw [unmarshalStruct_perm fields_create h]
  · cases id <;> cases closeOnOwnerLeave <;> cases username <;> cases visitorId <;> cases joinIfExist <;>
      rfl
  · cases id <;> cases closeOnOwnerLeave <;> cases username <;> cases visitorId <;> cases joinIfExist <;>
      simp [payload, property]
  · cases id <;> cases closeOnOwnerLeave <;> cases username <;> cases visitorId <;> cases joinIfExist <;>
      simp [payload, property, createFields, GoField.string, GoField.bool]

theorem read_join {id : String} {password username visitorId : Option String}
    (h : kvs.Perm ((join id password username visitorId).payload env)) :
    unmarshalStruct joinFields joinZero (.obj kvs) =
      some ⟨id, username.getD "", visitorId.getD ""⟩ := by
  -- the server has no field for a password
  have hpassword : fieldOf joinFields "password" = none := rfl
  have hfields : joinFields.map GoField.name = ["id", "username", "visitorId"] := rfl
  rw [unmarshalStruct_perm fields_join h]
  · cases password <;> cases username <;> cases visitorId <;> rfl
  · cases password <;> cases username <;> cases visitorId <;> simp [payload, property]
  · cases password <;> cases username <;> cases visitorId <;>
      simp [payload, property, hfields, hpassword]

theorem read_name {username : String} (h : kvs.Perm ((name username).payload env)) :
    unmarshalStruct nameFields "" (.obj kvs) = some username := by
  obtain rfl := List.perm_singleton.mp h
  rfl

theorem read_signal {k : Signal} {sid : XID} {value : Option Json}
    (h : kvs.Perm ((signal k sid value).payload env)) :
    readP2P X (.obj kvs) = some ⟨sid, (value.map rawText).getD ""⟩ := by
  have hsid : fieldOf (p2pFields X) "sid" =
      some ⟨"sid", fun j => (X.unmarshalJSON (rawText j)).map fun sid m => { m with sid := sid }⟩ := rfl
  have hvalue : fieldOf (p2pFields X) "value" =
      some ⟨"value", fun j => some fun m => { m with value := rawText j }⟩ := rfl
  rw [readP2P, unmarshalStruct_perm (fields_p2p X) h]
  · cases value <;> simp [payload, property, unmarshalFields, hsid, hvalue, X.unmarshalJSON_text, p2pZero]
  · cases value <;> simp [payload, property]
  · cases value <;> simp [payload, property, p2pFields]

/-- **The payload of a message is read as the event it is meant to be.** -/
theorem read_payload {m : OutgoingMessage} (h : kvs.Perm (m.payload env)) :
    ∃ read, (provider X).lookup m.type = some read ∧ read (.obj kvs) = some m.event := by
  cases m with
  | create id closeOnOwnerLeave mode username visitorId joinIfExist =>
    exact ⟨_, rfl, congrArg (Option.map Event.create) (read_create h)⟩
  | join id password username visitorId => exact ⟨_, rfl, congrArg (Option.map Event.join) (read_join h)⟩
  | name username => exact ⟨_, rfl, congrArg (Option.map Event.name) (read_name h)⟩
  | share =>
    obtain rfl := List.perm_nil.mp h
    exact ⟨_, rfl, rfl⟩
  | stopshare =>
    obtain rfl := List.perm_nil.mp h
    exact ⟨_, rfl, rfl⟩
  | signal k sid value =>
    have hread := read_signal X h
    cases k with
    | hostOffer => exact ⟨_, rfl, congrArg (Option.map Event.hostOffer) hread⟩
    | hostICE => exact ⟨_, rfl, congrArg (Option.map Event.hostICE) hread⟩
    | clientAnswer => exact ⟨_, rfl, congrArg (Option.map Event.clientAnswer) hread⟩
    | clientICE => exact ⟨_, rfl, congrArg (Option.map Event.clientICE) hread⟩

/-- **A message of the browser** is read as the event it is meant to be. -/
theorem Spells.read {m : OutgoingMessage} {text : List Char} (h : m.Spells env text) :
    readTypedIncoming X text = .ok m.event := by
  obtain ⟨esc, kvs, payload, rest, rfl, hkvs, hpayload⟩ := h
  have htyped : unmarshalStruct typedFields ("", none) (.obj kvs) =
      some (m.type, some (.obj payload)) := by
    rw [unmarshalStruct_perm fields_typed hkvs (by simp) (by simp [typedFields, GoField.string])]
    rfl
  obtain ⟨read, hlookup, hread⟩ := read_payload X hpayload
  simp only [readTypedIncoming, Json.parse_print_obj, htyped, hlookup, Option.bind_some, hread]

end OutgoingMessage

/-! ## What is read at all -/

end Screego
