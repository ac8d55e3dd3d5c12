import Mathlib.Data.List.Pairwise
import Mathlib.Data.List.Perm.Basic
import Screego.Lib.Json

/-!
# `json.Unmarshal` into a struct

Members go to the field of their name, or of a name that differs in case; others are ignored, and `null`
leaves a field as it is. A value of another type is an error, whatever comes behind it.

* `GoField`: a field, and what a value makes of the struct; `GoField.string`, `GoField.bool`;
* `unmarshalStruct`;
* `GoField.Apart`: two fields that are stored in different places;
* **`unmarshalFields_perm`**: the order of the members does not matter.
-/

set_option autoImplicit false

namespace Screego.Lib

variable {α : Type}

/-- **A field of a struct**: what a value makes of the struct, if it has the right type. -/
structure GoField (α : Type) where
  name : String
  store : Json → Option (α → α)

namespace GoField

/-- A field of a string type. -/
def string (name : String) (set : String → α → α) : GoField α where
  name := name
  store
    | .str s => some (set s)
    | .null => some id
    | _ => none

/-- A field of type `bool`. -/
def bool (name : String) (set : Bool → α → α) : GoField α where
  name := name
  store
    | .bool b => some (set b)
    | .null => some id
    | _ => none

end GoField

/-- Letters that are the same but for their case: two of them are not in ASCII. -/
def foldRune (c : Char) : Char :=
  if c = 'ſ' then 'S' else if c = '\u212A' then 'K' else c.toUpper

/-- `foldName`. -/
def foldName (s : String) : List Char := s.toList.map foldRune

/-- The field a member goes to. -/
def fieldOf (fields : List (GoField α)) (key : String) : Option (GoField α) :=
  match fields.find? fun f => f.name = key with
  | some f => some f
  | none => fields.find? fun f => foldName f.name = foldName key

/-- The members of an object, one by one. -/
def unmarshalFields (fields : List (GoField α)) : List (String × Json) → α → Option α
  | [], a => some a
  | (key, j) :: kvs, a =>
    match fieldOf fields key with
    | none => unmarshalFields fields kvs a
    | some f => (f.store j).bind fun update => unmarshalFields fields kvs (update a)

/-- **`json.Unmarshal`** of a value into a struct. -/
def unmarshalStruct (fields : List (GoField α)) (zero : α) : Json → Option α
  | .null => some zero
  | .obj kvs => unmarshalFields fields kvs zero
  | _ => none

/-! ## Fields that are apart -/

/-- The updates of a field set a part of the struct, or nothing. -/
def GoField.Sets {β : Type} (f : GoField α) (set : β → α → α) : Prop :=
  ∀ j u, f.store j = some u → u = id ∨ ∃ b, u = set b

theorem GoField.sets_string (name : String) (set : String → α → α) : (string name set).Sets set := by
  intro j u h
  cases j with
  | null => exact .inl (Option.some.inj h).symm
  | str s => exact .inr ⟨s, (Option.some.inj h).symm⟩
  | _ => cases h

theorem GoField.sets_bool (name : String) (set : Bool → α → α) : (bool name set).Sets set := by
  intro j u h
  cases j with
  | null => exact .inl (Option.some.inj h).symm
  | bool b => exact .inr ⟨b, (Option.some.inj h).symm⟩
  | _ => cases h

/-- Two fields are apart. -/
def GoField.Apart (f g : GoField α) : Prop :=
  ∀ i j u v, f.store i = some u → g.store j = some v → ∀ a, u (v a) = v (u a)

/-- Fields that set different parts. -/
theorem GoField.Sets.apart {β γ : Type} {f g : GoField α} {set : β → α → α} {set' : γ → α → α}
    (hf : f.Sets set) (hg : g.Sets set') (h : ∀ b c a, set b (set' c a) = set' c (set b a)) :
    f.Apart g := by
  intro i j u v hu hv a
  obtain rfl | ⟨b, rfl⟩ := hf i u hu
  · rfl
  · obtain rfl | ⟨c, rfl⟩ := hg j v hv
    · rfl
    · exact h b c a

instance : Std.Symm (GoField.Apart (α := α)) where
  symm _ _ h := fun i j u v hu hv a => (h j i v u hv hu a).symm

/-- Two updates of fields that are apart. -/
theorem GoField.Apart.swap {f g : GoField α} (h : f.Apart g) (i j : Json) (a : α) (k : α → Option α) :
    ((f.store i).bind fun u => (g.store j).bind fun v => k (v (u a))) =
      (g.store j).bind fun v => (f.store i).bind fun u => k (u (v a)) := by
  cases hu : f.store i with
  | none => cases g.store j <;> rfl
  | some u =>
    cases hv : g.store j with
    | none => rfl
    | some v => simp only [Option.bind_some, h i j u v hu hv a]

/-! ## The order of the members -/

/-- The fields of a struct: their names differ, and so do the places they are stored in. -/
structure Fields (fields : List (GoField α)) : Prop where
  names : (fields.map GoField.name).Nodup
  apart : fields.Pairwise GoField.Apart

theorem fieldOf_name {fields : List (GoField α)} {key : String}
    (h : key ∈ fields.map GoField.name) : ∃ f ∈ fields, f.name = key ∧ fieldOf fields key = some f := by
  obtain ⟨g, hg, rfl⟩ := List.mem_map.mp h
  cases hf : fields.find? fun f => f.name = g.name with
  | none => exact absurd (List.find?_eq_none.mp hf g hg) (by simp)
  | some f =>
    refine ⟨f, List.mem_of_find?_eq_some hf, by simpa using List.find?_some hf, ?_⟩
    rw [fieldOf, hf]

/-- **The order of the members does not matter**, where every one has the name of a field or goes to
none. -/
theorem unmarshalFields_perm {fields : List (GoField α)} (h : Fields fields)
    {kvs kvs' : List (String × Json)} (hperm : kvs.Perm kvs') (hnodup : (kvs.map Prod.fst).Nodup)
    (hnames : ∀ key ∈ kvs.map Prod.fst, key ∈ fields.map GoField.name ∨ fieldOf fields key = none)
    (a : α) : unmarshalFields fields kvs a = unmarshalFields fields kvs' a := by
  induction hperm generalizing a with
  | nil => rfl
  | cons x hperm ih =>
    obtain ⟨key, j⟩ := x
    rw [List.map_cons] at hnodup hnames
    have ih' := ih hnodup.of_cons fun key hkey => hnames key (List.mem_cons_of_mem _ hkey)
    rw [unmarshalFields, unmarshalFields]
    split
    · exact ih' a
    · exact congrArg _ (funext fun update => ih' (update a))
  | swap x y l =>
    obtain ⟨key, j⟩ := x
    obtain ⟨key', j'⟩ := y
    simp only [List.map_cons] at hnodup hnames
    obtain hkey | hkey := hnames key (by simp)
    · obtain hkey' | hkey' := hnames key' (by simp)
      · obtain ⟨f, hf, hname, hof⟩ := fieldOf_name hkey
        obtain ⟨g, hg, hname', hof'⟩ := fieldOf_name hkey'
        have hne : g ≠ f := by
          rintro rfl
          simp [← hname, ← hname'] at hnodup
        have hapart := h.apart.forall hg hf hne
        simp only [unmarshalFields, hof, hof']
        exact hapart.swap j' j a fun a => unmarshalFields fields l a
      · simp only [unmarshalFields, hkey']
    · simp only [unmarshalFields, hkey]
  | trans hp hp' ih ih' =>
    rw [ih hnodup hnames]
    refine ih' ?_ ?_ a
    · exact (hp.map Prod.fst).nodup_iff.mp hnodup
    · exact fun key hkey => hnames key ((hp.map Prod.fst).mem_iff.mpr hkey)

end Screego.Lib
