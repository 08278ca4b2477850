import Retrieval.Field.Definition
import Retrieval.Json.Shape

namespace Retrieval

structure ComputedDocument where
  query : String
  dataType : String
  path : Option String
  join : Option String
  deriving Repr

structure CollectionDocument where
  fields : Dict FieldDefinition
  fieldSets : Dict (List String)
  computed : Dict ComputedDocument
  searchPrefixes : Dict String
  deriving Repr

structure TemplateDocument where
  query : String
  parameters : List FieldDefinition
  columns : Dict FieldDefinition
  deriving Repr

structure EmailDocument where
  recipient : String
  template : String
  deriving Repr

structure HookDocument where
  collection : String
  field : String
  event : String
  set : Option (Dict Json)
  email : Option EmailDocument
  raw : Option TemplateDocument
  deriving Repr

structure ModelDocument where
  collections : Dict CollectionDocument
  templates : Dict TemplateDocument
  hooks : List HookDocument
  deriving Repr

open Json

def ComputedDocument.shape : Shape ComputedDocument := fun room t => do
  let f ← Shape.fields ["query", "dataType", "path", "join"] room t
  let query ← f.required "query" Shape.string
  let dataType ← f.required "dataType" Shape.string
  let path ← f.optional "path" Shape.string
  let join ← f.optional "join" Shape.string
  pure { query, dataType, path, join }

def searchTarget : Shape String := fun room t => do
  let f ← Shape.fields ["field"] room t
  f.required "field" Shape.string

def CollectionDocument.shape : Shape CollectionDocument := fun room t => do
  let f ← Shape.fields ["fields", "fieldsets", "custom", "searchPrefixes"] room t
  let fields ← f.default "fields" (Shape.dict Shape.object) .empty
  let fieldSets ← f.default "fieldsets" (Shape.dict (Shape.list Shape.string)) .empty
  let computed ← f.default "custom" (Shape.dict ComputedDocument.shape) .empty
  let searchPrefixes ← f.default "searchPrefixes" (Shape.dict searchTarget) .empty
  pure { fields, fieldSets, computed, searchPrefixes }

def TemplateDocument.shape : Shape TemplateDocument := fun room t => do
  let f ← Shape.fields ["query", "parameters", "columns"] room t
  let query ← f.required "query" Shape.string
  let parameters ← f.default "parameters" (Shape.list Shape.object) []
  let columns ← f.default "columns" (Shape.dict Shape.object) .empty
  pure { query, parameters, columns }

def EmailDocument.shape : Shape EmailDocument := fun room t => do
  let f ← Shape.fields ["recipient", "template"] room t
  let recipient ← f.required "recipient" Shape.string
  let template ← f.required "template" Shape.string
  pure { recipient, template }

def hookTrigger : Shape (String × String) := fun room t => do
  let f ← Shape.fields ["field", "what"] room t
  let field ← f.required "field" Shape.string
  let event ← f.required "what" Shape.string
  pure (field, event)

def HookDocument.shape : Shape HookDocument := fun room t => do
  let f ← Shape.fields ["collection", "when", "set", "email", "raw"] room t
  let collection ← f.required "collection" Shape.string
  let (field, event) ← f.required "when" hookTrigger
  let set ← f.optional "set" Shape.object
  let email ← f.optional "email" EmailDocument.shape
  let raw ← f.optional "raw" TemplateDocument.shape
  pure { collection, field, event, set, email, raw }

def ModelDocument.shape : Shape ModelDocument := fun room t => do
  let f ← Shape.fields ["collections", "customQueries", "hooks"] room t
  let collections ← f.default "collections" (Shape.dict CollectionDocument.shape) .empty
  let templates ← f.default "customQueries" (Shape.dict TemplateDocument.shape) .empty
  let hooks ← f.default "hooks" (Shape.list HookDocument.shape) []
  pure { collections, templates, hooks }

end Retrieval
