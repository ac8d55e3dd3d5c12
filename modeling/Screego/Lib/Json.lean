import Mathlib.Data.List.Basic
import Mathlib.Data.String.Basic

/-!
# JSON between Go and JavaScript

* `Json`: JSON values; `Json.field`: a property of a parsed value; `Json.asString` and the like: the value
  of a type;
* `Json.text`: the string JavaScript makes of a value, as when the value is a property key;
* `Json.strictEq`: `===` for values out of two texts;
* `GoType`: what `encoding/json` knows of a Go type; `GoType.defined`: a new type defined from it.
-/

set_option autoImplicit false

namespace Screego.Lib

/-- A JSON value. -/
inductive Json where
  | null
  | bool (b : Bool)
  | num (n : ℕ)
  | str (s : String)
  | arr (l : List Json)
  | obj (fields : List (String × Json))

namespace Json

/-- The property `name` of an object. -/
def field (name : String) : Json → Option Json
  | obj fields => fields.lookup name
  | _ => none

/-- The value, where it is a string. -/
def asString : Json → Option String
  | str s => some s
  | _ => none

/-- The value, where it is a boolean. -/
def asBool : Json → Option Bool
  | bool b => some b
  | _ => none

/-- The elements, where it is an array. -/
def asArray : Json → Option (List Json)
  | arr l => some l
  | _ => none

/-- `Array.prototype.join`. -/
def join : List String → String
  | [] => ""
  | [s] => s
  | s :: t => s ++ "," ++ join t

mutual

/-- The string JavaScript makes of the value. -/
def text : Json → String
  | null => "null"
  | bool b => toString b
  | num n => toString n
  | str s => s
  | arr l => join (texts l)
  | obj _ => "[object Object]"

/-- The strings of the elements of an array; those of `null` are empty. -/
def texts : List Json → List String
  | [] => []
  | null :: l => "" :: texts l
  | j :: l => text j :: texts l

end

@[simp] theorem text_str (s : String) : (str s).text = s := by rw [text]

theorem length_texts (l : List Json) : (texts l).length = l.length := by
  induction l with
  | nil => rfl
  | cons j l ih => cases j <;> simp [texts, ih]

theorem comma_mem_join {l : List String} (hl : 2 ≤ l.length) : ',' ∈ (join l).toList := by
  match l, hl with
  | s :: s' :: t, _ => simp [join, String.toList_append]

/-- The string of an array of two or more elements contains a comma. -/
theorem comma_mem_text_arr {l : List Json} (hl : 2 ≤ l.length) : ',' ∈ (arr l).text.toList := by
  rw [text]
  exact comma_mem_join ((length_texts l).symm ▸ hl)

/-- `===` for values out of two texts: no array or object of one is an array or object of the
other. -/
def strictEq : Json → Json → Bool
  | null, null => true
  | bool a, bool b => a = b
  | num a, num b => a = b
  | str a, str b => a = b
  | _, _ => false

end Json

/-- **A Go type in `encoding/json`**: the encoding of its kind, and its marshalling method. -/
structure GoType (α : Type) where
  kind : α → Json
  marshalJSON : Option (α → Json)

namespace GoType

variable {α : Type}

/-- `json.Marshal`: the method, if the type has one. -/
def marshal (T : GoType α) (a : α) : Json :=
  match T.marshalJSON with
  | some marshalJSON => marshalJSON a
  | none => T.kind a

/-- **A newly defined type** has the kind of the type it is defined from, and none of its methods. -/
def defined (T : GoType α) : GoType α := ⟨T.kind, none⟩

/-- A type without methods. -/
def plain (kind : α → Json) : GoType α := ⟨kind, none⟩

end GoType

end Screego.Lib
