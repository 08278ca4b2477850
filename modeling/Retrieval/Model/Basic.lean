import Retrieval.Model.Hook
import Retrieval.Model.Path

namespace Retrieval

/-- A column computed by an SQL expression. Its `[path]` placeholders stand for columns, and the
`[collection]` placeholders of its join for table aliases. -/
structure ComputedField where
  path : String
  query : String
  join : Option String
  field : Field
  deriving Repr

inductive Member where
  | plain (path : Path)
  | computed (field : ComputedField)
  deriving Repr

def Member.path : Member → String
  | plain path => path.text
  | computed field => field.path

structure Collection where
  table : String
  fields : Dict Field
  fieldSets : Dict (List Member)
  computed : Dict ComputedField
  hooks : List Hook
  /-- The field that a search term starting with the key and a colon is redirected to. -/
  searchPrefixes : Dict String
  deriving Repr

structure Model where
  collections : Dict Collection
  templates : Dict QueryTemplate
  warnings : List Request.Error
  deriving Repr

def defaultFieldSet : String := "default"

def identityFieldSet : String := "identity"

def keyField : String := "id"

def Collection.fieldSet (c : Collection) (name : Option String) :
    Except Request.Error (List Member) :=
  let name := name.getD defaultFieldSet
  match c.fieldSets.find? name with
  | some members => .ok members
  | none => .error (.unknownFieldSet c.table name)

namespace Model

def collection (m : Model) (name : String) : Except Request.Error Collection :=
  match m.collections.find? name with
  | some c => .ok c
  | none => .error (.unknownCollection name)

def template (m : Model) (name : String) : Except Request.Error QueryTemplate :=
  match m.templates.find? name with
  | some q => .ok q
  | none => .error (.unknownQuery name)

def hooksOn (m : Model) (collection field event : String) : List Hook :=
  match m.collections.find? collection with
  | some c => c.hooks.filter (·.waitsFor field event)
  | none => []

end Model

end Retrieval
