import Retrieval.Json.Shape

namespace Retrieval

structure Condition where
  field : String
  comparator : String
  value : Json
  deriving Repr

/-- A field to sort by, downwards if the direction is negative. -/
structure SortEntry where
  field : String
  direction : Int32
  deriving Repr

structure Request where
  collection : String := ""
  pk : Option UInt64 := none
  fieldSet : Option String := none
  conditions : List Condition := []
  /-- Search terms by field path, or by `*` for all fields. -/
  search : Dict String := .empty
  sort : List SortEntry := []
  limit : Option Int64 := none
  offset : Option UInt64 := none
  deriving Repr

open Json

def uint64Shape : Shape UInt64 := fun room t =>
  (Shape.integer 0 UInt64.size room t).map fun n => UInt64.ofNat n.toNat

def int64Shape : Shape Int64 := fun room t =>
  (Shape.integer Int64.minValue.toInt (Int64.maxValue.toInt + 1) room t).map Int64.ofInt

def int32Shape : Shape Int32 := fun room t =>
  (Shape.integer Int32.minValue.toInt (Int32.maxValue.toInt + 1) room t).map Int32.ofInt

def Condition.shape : Shape Condition := fun room t => do
  let f ← Shape.fields ["field", "cmp", "val"] room t
  let field ← f.required "field" Shape.string
  let comparator ← f.required "cmp" Shape.string
  let value ← f.required "val" Shape.value
  pure { field, comparator, value }

def SortEntry.shape : Shape SortEntry := fun room t => do
  let f ← Shape.fields ["fieldName", "direction"] room t
  let field ← f.required "fieldName" Shape.string
  let direction ← f.required "direction" int32Shape
  pure { field, direction }

def Condition.toJson (c : Condition) : Json :=
  .object [("cmp", .string c.comparator), ("field", .string c.field), ("val", c.value)]

def SortEntry.toJson (s : SortEntry) : Json :=
  .object [("direction", .int s.direction.toInt), ("fieldName", .string s.field)]

namespace Request

def shape : Shape Request := fun room t => do
  let f ← Shape.fields
    ["collection", "pk", "fieldset", "where", "search", "sort", "limit", "offset"] room t
  let collection ← f.required "collection" Shape.string
  let pk ← f.optional "pk" uint64Shape
  let fieldSet ← f.optional "fieldset" Shape.string
  let conditions ← f.default "where" (Shape.list Condition.shape) []
  let search ← f.default "search" (Shape.dict Shape.string) .empty
  let sort ← f.default "sort" (Shape.list SortEntry.shape) []
  let limit ← f.optional "limit" int64Shape
  let offset ← f.optional "offset" uint64Shape
  pure { collection, pk, fieldSet, conditions, search, sort, limit, offset }

def ofText? (text : String) : Option Request :=
  shape.ofText? text

/-- The request as an object with all its members, absent ones as null or empty. -/
def toJson (r : Request) : Json :=
  .object [
    ("collection", .string r.collection),
    ("fieldset", .ofOption .string r.fieldSet),
    ("limit", .ofOption (fun n => .int n.toInt) r.limit),
    ("offset", .ofOption (fun n => .int n.toNat) r.offset),
    ("pk", .ofOption (fun n => .int n.toNat) r.pk),
    ("search", .ofDict (r.search.map fun _ term => .string term)),
    ("sort", .array (r.sort.map SortEntry.toJson)),
    ("where", .array (r.conditions.map Condition.toJson))]

def ofCollection (collection : String) : Request :=
  { collection }

def ofFieldSet (collection fieldSet : String) : Request :=
  { collection, fieldSet := some fieldSet }

def withKey (r : Request) (pk : UInt64) : Request :=
  { r with pk := some pk }

def withFieldSet (r : Request) (fieldSet : String) : Request :=
  { r with fieldSet := some fieldSet }

def withCondition (r : Request) (field comparator : String) (value : Json) : Request :=
  { r with conditions := r.conditions ++ [⟨field, comparator, value⟩] }

def withTerm (r : Request) (field term : String) : Request :=
  { r with search := r.search.insert field term }

def sortedBy (r : Request) (field : String) (direction : Int32) : Request :=
  { r with sort := r.sort ++ [⟨field, direction⟩] }

def limitedTo (r : Request) (limit : Int64) : Request :=
  { r with limit := some limit }

def startingAt (r : Request) (offset : UInt64) : Request :=
  { r with offset := some offset }

end Request

end Retrieval
