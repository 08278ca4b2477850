import Retrieval.Field.Basic

namespace Retrieval

inductive FieldKind where
  | string
  | text
  | enum
  | int
  | id
  | ref
  | float
  | bool
  | date
  deriving DecidableEq, Repr

abbrev FieldDefinition := Dict Json

namespace FieldDefinition

def string? (d : FieldDefinition) (name : String) : Except Field.Error (Option String) :=
  match d.find? name with
  | none | some .null => .ok none
  | some (.string s) => .ok (some s)
  | some _ => .error (.invalidParam name .notString)

def integer? (d : FieldDefinition) (name : String) : Except Field.Error (Option Int) :=
  match d.find? name with
  | none | some .null => .ok none
  | some (.number n) =>
    match n.int64? with
    | some i => .ok (some i)
    | none => .error (.invalidParam name .notInteger)
  | some _ => .error (.invalidParam name .notInteger)

def stringItem? : Json → Option String
  | .string s => some s
  | _ => none

def strings? (d : FieldDefinition) (name : String) : Except Field.Error (Option (List String)) :=
  match d.find? name with
  | none | some .null => .ok none
  | some (.array items) =>
    match items.mapM stringItem? with
    | some strings => .ok (some strings)
    | none => .error (.invalidParam name .notStrings)
  | some _ => .error (.invalidParam name .notStrings)

def required (name : String) : Option α → Except Field.Error α
  | some a => .ok a
  | none => .error (.invalidParam name .required)

def maxLength? (d : FieldDefinition) : Except Field.Error (Option Nat) := do
  match ← d.integer? "maxLength" with
  | none => .ok none
  | some n => if n ≤ 0 then .error (.invalidParam "maxLength" .notPositive) else .ok (some n.toNat)

end FieldDefinition

def FieldKind.build (kind : FieldKind) (d : FieldDefinition) : Except Field.Error Field :=
  match kind with
  | .string => do
    let maxLength ← d.maxLength?
    .ok (.string maxLength)
  | .text => do
    let maxLength ← d.maxLength?
    .ok (.text maxLength)
  | .enum => do
    let choices ← d.strings? "choices"
    let choices ← FieldDefinition.required "choices" choices
    .ok (.enum choices)
  | .int => .ok .int
  | .id => .ok .id
  | .ref => do
    let collection ← d.string? "collection"
    let collection ← FieldDefinition.required "collection" collection
    .ok (.ref collection)
  | .float => .ok .float
  | .bool => .ok .bool
  | .date => .ok .date

/-- The type that each tag stands for. -/
abbrev FieldTypes := Dict FieldKind

namespace FieldTypes

def builtin : FieldTypes :=
  .ofList [("string", .string), ("text", .text), ("enum", .enum), ("int", .int),
    ("integer", .int), ("id", .id), ("ref", .ref), ("float", .float), ("decimal", .float),
    ("bool", .bool), ("boolean", .bool), ("date", .date), ("datetime", .date)]

def ofTag (r : FieldTypes) (tag : String) (d : FieldDefinition) : Except Field.Error Field :=
  match r.find? tag with
  | some kind => kind.build d
  | none => .error (.unknownType tag)

def ofDefinition (r : FieldTypes) (d : FieldDefinition) : Except Field.Error Field := do
  match ← d.string? "type" with
  | some tag => r.ofTag tag d
  | none => .error .missingType

end FieldTypes

end Retrieval
