import Mathlib.Data.List.AList

/-! Plain objects: the properties they own, those they inherit, and their way into JSON and back. -/
namespace Js

/-- Own properties by name. In what order they are enumerated is left open. -/
abbrev Record (α : Type) := AList fun _ : String => α

/-- What every plain object inherits. -/
def objectPrototype : List String :=
  ["constructor", "hasOwnProperty", "isPrototypeOf", "propertyIsEnumerable", "toLocaleString",
   "toString", "valueOf", "__proto__", "__defineGetter__", "__defineSetter__", "__lookupGetter__",
   "__lookupSetter__"]

/-- What a property access finds where it is not `undefined`. -/
inductive Found (α : Type) where
  | own (a : α)
  | inherited (property : String)
deriving DecidableEq

def Found.own? {α : Type} : Found α → Option α
  | .own a => some a
  | .inherited _ => none

/-- How a template or a computed key spells what was found. -/
def Found.text {α : Type} (own : α → String) : Found α → String
  | .own a => own a
  | .inherited property =>
    if property = "__proto__" then "[object Object]"
    else
      let name := if property = "constructor" then "Object" else property
      "function " ++ name ++ "() \x7b [native code] \x7d"

variable {α β : Type}

/-- The access `o[k]`. -/
def property (o : Record α) (k : String) : Option (Found α) :=
  match o.lookup k with
  | some a => some (.own a)
  | none => if k ∈ objectPrototype then some (.inherited k) else none

/-- The assignment `o[k] = a`, where `__proto__` is an accessor and no property. -/
def assign (o : Record α) (k : String) (a : α) : Record α :=
  if k = "__proto__" then o else o.insert k a

/-- `...a, ...b` -/
def spread (a b : Record α) : Record α := b ∪ a

/-- A loop over the entries of `o` that assigns some of them to a new object. -/
def collect (f : α → Option β) (o : Record α) : Record β :=
  o.foldl (fun out k a => match f a with
    | some b => assign out k b
    | none => out) ∅

inductive Json where
  | null
  | bool (b : Bool)
  | number (text : String)
  | string (text : String)
  | array (items : List Json)
  | object (fields : List (String × Json))

/-- The object parsed from the fields: of two with one name the later counts. -/
def record (fields : List (String × Json)) : Record Json :=
  fields.foldl (fun o field => o.insert field.1 field.2) ∅

def toJson (f : α → Json) (o : Record α) : List (String × Json) :=
  o.entries.map fun e => (e.1, f e.2)

variable {o : Record α} {k x : String} {a : α} {f : α → Option β}

theorem property_of_lookup (h : o.lookup k = some a) : property o k = some (.own a) := by
  rw [property, h]

theorem property_of_lookup_none (h : o.lookup k = none) :
    property o k = if k ∈ objectPrototype then some (.inherited k) else none := by
  rw [property, h]

@[simp] theorem property_own (o : Record α) (k : String) :
    (property o k).bind Found.own? = o.lookup k := by
  cases h : o.lookup k with
  | some a =>
    rw [property_of_lookup h]
    rfl
  | none =>
    rw [property_of_lookup_none h]
    split <;> rfl

theorem lookup_insert_if : (o.insert x a).lookup k = if k = x then some a else o.lookup k := by
  split
  · rename_i h
    rw [h, AList.lookup_insert]
  · rename_i h
    rw [AList.lookup_insert_ne h]

theorem lookup_assign (hx : x ≠ "__proto__") :
    (assign o x a).lookup k = if k = x then some a else o.lookup k := by
  rw [assign, if_neg hx, lookup_insert_if]

/-- A loop that at each entry sets at most that name: the induction is on the entries, whose names
are distinct, with any object to start from. -/
theorem lookup_foldl {step : Record β → String → α → Record β}
    (hstep : ∀ out x a, (step out x a).lookup k =
      if k = x then (f a).or (out.lookup k) else out.lookup k) (o : Record α) (out : Record β) :
    (o.foldl step out).lookup k = ((o.lookup k).bind f).or (out.lookup k) := by
  induction o using AList.insertRec generalizing out with
  | H0 =>
    rw [AList.lookup_empty, Option.bind_none, Option.none_or]
    rfl
  | IH x a o hx ih =>
    have hfold : (o.insert x a).foldl step out = o.foldl step (step out x a) := by
      simp only [AList.foldl, AList.entries_insert_of_notMem hx, List.foldl_cons]
    rw [hfold, ih, hstep, lookup_insert_if]
    split
    · rename_i hk
      rw [hk, AList.lookup_eq_none.mpr hx, Option.bind_none, Option.none_or, Option.bind_some]
    · rfl

theorem lookup_collect (hk : k ≠ "__proto__") :
    (collect f o).lookup k = (o.lookup k).bind f := by
  rw [collect, lookup_foldl (f := f), AList.lookup_empty, Option.or_none]
  intro out x a
  cases hf : f a with
  | none => simp
  | some b =>
    by_cases hx : x = "__proto__"
    · simp [assign, hx, hk]
    · simp [lookup_assign hx]

theorem lookup_collect_proto : (collect f o).lookup "__proto__" = none := by
  rw [collect, lookup_foldl (f := fun _ => none), AList.lookup_empty, Option.or_none]
  · cases o.lookup "__proto__" <;> rfl
  · intro out x a
    cases hf : f a with
    | none => simp
    | some b =>
      by_cases hx : x = "__proto__"
      · simp [assign, hx]
      · simp [lookup_assign hx, Ne.symm hx]

/-- What is written is read again, name by name. -/
theorem lookup_record_toJson (f : α → Json) (o : Record α) :
    (record (toJson f o)).lookup k = (o.lookup k).map f := by
  have hfold : record (toJson f o) = o.foldl (fun out x a => out.insert x (f a)) ∅ := by
    rw [record, toJson, List.foldl_map]
    rfl
  rw [hfold, lookup_foldl (f := fun a => some (f a)), AList.lookup_empty, Option.or_none,
    Option.map_eq_bind]
  · rfl
  · intro out x a
    rw [lookup_insert_if]
    rfl

end Js
