import Retrieval.Model.Basic
import Retrieval.Model.Document
import Retrieval.Text.Placeholder
import Retrieval.Text.Utf8

namespace Retrieval

inductive Model.Error where
  | fileNotFound (path : String)
  /-- The document is not JSON or not of the right shape. -/
  | malformed
  | field (path : String) (cause : Field.Error)
  | missingIdentity (collection : String)
  | unknownReference (path collection : String)
  | unknownJoinCollection (path token : String)
  | placeholderCount (name : String) (placeholders parameters : Nat)
  | unknownHookBinding (collection field : String)
  | hookAction (collection field : String) (found : Nat)
  deriving Repr

def Model.Error.message : Model.Error → String
  | fileNotFound path => "File not found: " ++ path
  | malformed => "Failed to parse model: malformed document"
  | field path cause => "Error parsing " ++ path ++ " - " ++ cause.message
  | missingIdentity collection =>
    "No identity fieldset, and collection (" ++ collection ++
      ") doesn't have a 'name' field to fall back upon"
  | unknownReference path collection =>
    path ++ " references unknown collection '" ++ collection ++ "'"
  | unknownJoinCollection path token =>
    "Join of custom field " ++ path ++ " references unknown collection '" ++ token ++ "'"
  | placeholderCount name placeholders parameters =>
    "Custom query " ++ name ++ " has " ++ toString placeholders ++ " placeholders but " ++
      toString parameters ++ " parameters"
  | unknownHookBinding collection name =>
    "Hook query on " ++ collection ++ " binds unknown field '" ++ name ++ "'"
  | hookAction collection name found =>
    "Hook on " ++ collection ++ "." ++ name ++
      " must define exactly one of set, email or raw (found " ++ toString found ++ ")"

namespace Load

def locate (path : String) : Except Field.Error α → Except Model.Error α
  | .ok a => .ok a
  | .error cause => .error (.field path cause)

def parameter (r : FieldTypes) (path : String) (d : FieldDefinition) :
    Except Model.Error Parameter := do
  let field ← locate path (r.ofDefinition d)
  let bind ← locate path (d.string? "field")
  .ok ⟨field, bind⟩

def parameters (r : FieldTypes) (name : String) (index : Nat) :
    List FieldDefinition → Except Model.Error (List Parameter)
  | [] => .ok []
  | d :: rest => do
    let first ← parameter r (name ++ ".[in][" ++ toString index ++ "]") d
    let others ← parameters r name (index + 1) rest
    .ok (first :: others)

def template (r : FieldTypes) (name : String) (d : TemplateDocument) :
    Except Model.Error QueryTemplate := do
  let parameters ← parameters r name 0 d.parameters
  let columns ← d.columns.mapM fun column definition =>
    locate (name ++ ".[out][" ++ column ++ "]") (r.ofDefinition definition)
  let placeholders := Positional.count d.query
  if placeholders ≠ parameters.length then
    .error (.placeholderCount name placeholders parameters.length)
  else .ok ⟨name, d.query, parameters, columns⟩

/-- The key field is there whether it is declared or not. -/
def withKey (fields : Dict Field) : Dict Field :=
  if fields.contains keyField then fields else fields.insert keyField .id

def computedField (r : FieldTypes) (collection key : String) (d : ComputedDocument) :
    Except Model.Error ComputedField := do
  let field ← locate (collection ++ ".custom." ++ key) (r.ofTag d.dataType .empty)
  .ok ⟨d.path.getD key, d.query, d.join, field⟩

/-- The declared field-sets with the default one, of all declared fields, and the identity one, of
the field `name`, where they are not declared. -/
def fieldSetNames (collection : String) (d : CollectionDocument) :
    Except Model.Error (Dict (List String)) :=
  let sets := if d.fieldSets.contains defaultFieldSet then d.fieldSets
    else d.fieldSets.insert defaultFieldSet d.fields.keys
  if sets.contains identityFieldSet then .ok sets
  else if d.fields.contains "name" then .ok (sets.insert identityFieldSet ["name"])
  else .error (.missingIdentity collection)

def withKeyMember (members : List String) : List String :=
  if keyField ∈ members then members else members ++ [keyField]

def member (computed : Dict ComputedField) (name : String) : Member :=
  match computed.find? name with
  | some field => .computed field
  | none => .plain ⟨name⟩

def collection (r : FieldTypes) (name : String) (d : CollectionDocument) :
    Except Model.Error Collection := do
  let fields ← d.fields.mapM fun key definition =>
    locate (name ++ "." ++ key) (r.ofDefinition definition)
  let computed ← d.computed.mapM (computedField r name)
  let names ← fieldSetNames name d
  .ok {
    table := name
    fields := withKey fields
    fieldSets := names.map fun _ members => (withKeyMember members).map (member computed)
    computed := computed
    hooks := []
    searchPrefixes := d.searchPrefixes }

def checkReference (collections : Dict Collection) (path : String) (field : Field) :
    Except Model.Error Unit :=
  match field.references with
  | none => .ok ()
  | some target =>
    if collections.contains target then .ok () else .error (.unknownReference path target)

def checkJoin (collections : Dict Collection) (path : String) (join : Option String) :
    Except Model.Error Unit :=
  match join with
  | none => .ok ()
  | some join =>
    match (Placeholder.names join).find? (!collections.contains ·) with
    | none => .ok ()
    | some token => .error (.unknownJoinCollection path token)

def checkCollection (collections : Dict Collection) (name : String) (c : Collection) :
    Except Model.Error Unit := do
  c.fields.entries.forM fun e => checkReference collections (name ++ "." ++ e.1) e.2
  c.computed.entries.forM fun e =>
    checkJoin collections (name ++ "." ++ e.2.path) e.2.join

def checkCollections (collections : Dict Collection) : Except Model.Error Unit :=
  collections.entries.forM fun e => checkCollection collections e.1 e.2

/-- A hook does exactly one thing. -/
def hookAction (r : FieldTypes) (d : HookDocument) : Except Model.Error Hook.Action :=
  match d.set, d.email, d.raw with
  | some assignments, none, none => .ok (.set assignments)
  | none, some email, none => .ok (.email email.recipient email.template)
  | none, none, some query =>
    (template r ("hook " ++ d.collection ++ "." ++ d.field) query).map .query
  | set, email, raw =>
    .error (.hookAction d.collection d.field
      (set.isSome.toNat + email.isSome.toNat + raw.isSome.toNat))

/-- A record field that a hook query binds must be a field of the collection. -/
def checkBindings (c : Collection) (h : Hook) : Except Model.Error Unit :=
  match h.action with
  | .query q =>
    match (q.parameters.filterMap (·.bind)).find? (!c.fields.contains ·) with
    | none => .ok ()
    | some field => .error (.unknownHookBinding h.collection field)
  | _ => .ok ()

/-- A hook joins its collection; one on an unknown collection is only warned of. -/
def addHook (r : FieldTypes) (m : Model) (d : HookDocument) : Except Model.Error Model := do
  let action ← hookAction r d
  let hook : Hook := ⟨d.collection, d.field, d.event, action⟩
  match m.collections.find? d.collection with
  | none => .ok { m with warnings := m.warnings ++ [.unknownCollection d.collection] }
  | some c => do
    checkBindings c hook
    let attach (c : Collection) : Collection := { c with hooks := c.hooks ++ [hook] }
    .ok { m with collections := m.collections.modify d.collection attach }

end Load

namespace Model

/-- Query templates come first, then collections, then the references between collections, then
hooks; the first problem found in that order is the error. -/
def ofDocument (r : FieldTypes) (d : ModelDocument) : Except Model.Error Model := do
  let templates ← d.templates.mapM (Load.template r)
  let collections ← d.collections.mapM (Load.collection r)
  Load.checkCollections collections
  d.hooks.foldlM (Load.addHook r) ⟨collections, templates, []⟩

/-- A document that could not be read is no model. -/
def ofDocument? (r : FieldTypes) : Option ModelDocument → Except Model.Error Model
  | none => .error .malformed
  | some d => ofDocument r d

def ofText (r : FieldTypes) (text : String) : Except Model.Error Model :=
  ofDocument? r (ModelDocument.shape.ofText? text)

def ofBytes (r : FieldTypes) (bytes : List UInt8) : Except Model.Error Model :=
  ofDocument? r (ModelDocument.shape.ofSymbols? (Utf8.symbols bytes))

end Model

end Retrieval
