import Retrieval.Json.Tree

namespace Retrieval.Json

/-- Reads a value of type `α` out of a tree in which `room` containers may be nested. What a value
does not ask for, such as the parts under unknown keys, is not looked at. -/
abbrev Shape (α : Type) := (room : Nat) → Tree → Option α

namespace Shape

def string : Shape String
  | _, .string content => content
  | _, _ => none

def number : Shape Number
  | _, .number n => n.number?
  | _, _ => none

def integer (least bound : Int) : Shape Int := fun room t =>
  match number room t with
  | some (.int n) => if least ≤ n ∧ n < bound then some n else none
  | _ => none

def value : Shape Json := Tree.value?

def object : Shape (Dict Json)
  | room, .object members =>
    if room = 0 then none else (Tree.members? (room - 1) members).map Dict.ofList
  | _, _ => none

def option (shape : Shape α) : Shape (Option α)
  | _, .null => some none
  | room, t => (shape room t).map some

def list (shape : Shape α) : Shape (List α)
  | room, .array items => if room = 0 then none else items.mapM (shape (room - 1))
  | _, _ => none

/-- An object as a map; of a repeated key the last value stays. -/
def dict (shape : Shape α) : Shape (Dict α)
  | room, .object members =>
    if room = 0 then none
    else
      let entry (m : Option String × Tree) : Option (String × α) :=
        m.1.bind fun key => (shape (room - 1) m.2).map fun value => (key, value)
      (members.mapM entry).map Dict.ofList
  | _, _ => none

structure Fields where
  room : Nat
  present : List (String × Tree)

/-- Collects the known members of an object; one given twice is an error. -/
def collect (known : List String) : List (Option String × Tree) → Option (List (String × Tree))
  | [] => some []
  | (key, t) :: rest =>
    match key, collect known rest with
    | some k, some found =>
      if k ∉ known then some found
      else if (found.lookup k).isSome then none
      else some ((k, t) :: found)
    | _, _ => none

/-- A structure with the given fields, as an object or as an array of them in declaration order. -/
def fields (known : List String) : Shape Fields
  | room, .object members =>
    if room = 0 then none else (collect known members).map (⟨room - 1, ·⟩)
  | room, .array items =>
    if room = 0 || known.length < items.length then none
    else some ⟨room - 1, known.zip items⟩
  | _, _ => none

def Fields.required (f : Fields) (name : String) (shape : Shape α) : Option α :=
  (f.present.lookup name).bind (shape f.room)

/-- A field that may be absent, but not null unless its shape is. -/
def Fields.default (f : Fields) (name : String) (shape : Shape α) (absent : α) : Option α :=
  match f.present.lookup name with
  | none => some absent
  | some t => shape f.room t

def Fields.optional (f : Fields) (name : String) (shape : Shape α) : Option (Option α) :=
  f.default name shape.option none

def ofText? (shape : Shape α) (text : String) : Option α :=
  (Tree.ofChars? text.toList).bind (shape Tree.nestingLimit)

def ofSymbols? (shape : Shape α) (symbols : List (Option Char)) : Option α :=
  (Tree.ofSymbols? symbols).bind (shape Tree.nestingLimit)

end Shape

end Retrieval.Json
