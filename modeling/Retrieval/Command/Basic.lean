import Retrieval.Command.Arguments
import Retrieval.Command.Host
import Retrieval.Json.Pretty
import Retrieval.Model.Load

namespace Retrieval

/-- The answer of a command: lines to print, and the line that tells why it failed. -/
structure Report where
  lines : List String := []
  problem : Option String := none
  deriving Repr

def Report.exitCode (r : Report) : Nat :=
  if r.problem.isSome then 1 else 0

namespace Command

abbrev Step (m : Type → Type) := ExceptT String m

variable {m : Type → Type} [Monad m]

def modelAt (h : Host m) (path : String) : Step m Model := do
  let loaded : Except Model.Error Model ← match ← h.read path with
    | .ok bytes => pure (Model.ofBytes .builtin bytes)
    | .error problem =>
      pure (.error (if problem.isPresent then .malformed else .fileNotFound path))
  match loaded with
  | .ok model => pure model
  | .error e => throw ("Error loading model '" ++ path ++ "': " ++ e.message)

def requestAt (h : Host m) (path : String) : Step m Request := do
  match ← h.text path with
  | .error problem => throw ("Error reading file '" ++ path ++ "': " ++ problem.message)
  | .ok text =>
    match Request.ofText? text with
    | some request => pure request
    | none => throw ("Invalid request '" ++ path ++ "': malformed request")

def chosen (h : Host m) (what : String) (given configured : Option String) : Step m String := do
  match given with
  | some path => pure path
  | none =>
    match ← h.expandPath configured with
    | .ok (some path) => pure path
    | .ok none => throw ("No " ++ what ++ " given and none configured")
    | .error e => throw ("Configuration error: " ++ e.message)

def openStore (h : Host m) (s : Settings) (locations : Locations) : Step m (Model × World) := do
  let modelPath ← chosen h "model" locations.model s.modelPath
  let databasePath ← chosen h "database" locations.database s.databasePath
  let model ← modelAt h modelPath
  match ← h.openDatabase databasePath s.poolSize with
  | .ok world => pure (model, world)
  | .error e => throw ("Error opening database '" ++ databasePath ++ "': " ++ e.message)

def count (n : Nat) (what : String) : String :=
  toString n ++ " " ++ what

def validateLines (model : Model) : List String :=
  model.warnings.map (fun w => "warning: " ++ w.message) ++
    ["Model is valid (" ++ count model.collections.size "collections" ++ ", " ++
      count model.templates.size "custom queries" ++ ")"]

def memberText : Member → String
  | .plain path => path.text
  | .computed field => field.path ++ "*"

def collectionLines (name : String) (c : Collection) : List String :=
  ["  " ++ name ++ " (" ++ count c.fields.size "fields" ++ ")"] ++
    c.fieldSets.entries.map (fun e =>
      "    - " ++ e.1 ++ ": " ++ ", ".intercalate (e.2.map memberText)) ++
    c.hooks.map fun hook =>
      "    hook: " ++ hook.field ++ " " ++ hook.event ++ " -> " ++ hook.action.kind

def listLines (path : String) (model : Model) : List String :=
  let queries := model.templates.entries.map fun e =>
    "  - " ++ e.1 ++ " (" ++ count e.2.parameters.length "parameters" ++ ")"
  ["File: " ++ path, "", "Collections:"] ++
    model.collections.entries.flatMap (fun e => collectionLines e.1 e.2) ++
    if queries.isEmpty then [] else ["", "Custom queries:"] ++ queries

def compileLines (path : String) (request : Request) (verbose : Bool) (q : Query) :
    List String :=
  if verbose then
    ["-- Quarry Compiled SQL", "-- Model: " ++ path, "-- Collection: " ++ request.collection] ++
      q.columns.map (fun c => "-- " ++ c.label ++ " -> " ++ c.path) ++ ["", q.sql]
  else [q.sql]

def runLine (what : String) (world : World) (x : Run α) : Step m α :=
  match (Run.after world [] x).1 with
  | .ok a => pure a
  | .error e => throw (what ++ ": " ++ e.message)

def perform (h : Host m) (s : Settings) : Command → Step m (List String)
  | .validate path => do
    let model ← modelAt h path
    pure (validateLines model)
  | .list path => do
    let model ← modelAt h path
    pure (listLines path model)
  | .compile path requestPath verbose => do
    let model ← modelAt h path
    let request ← requestAt h requestPath
    match Query.ofRequest model request with
    | .ok q => pure (compileLines path request verbose q)
    | .error e => throw ("Compilation error: " ++ e.message)
  | .query requestPath locations => do
    let request ← requestAt h requestPath
    let (model, world) ← openStore h s locations
    let rows ← runLine "Query error" world (model.records request)
    pure [(Json.array (rows.map .ofDict)).pretty]
  | .identity collection pk locations => do
    let (model, world) ← openStore h s locations
    let label ← runLine "Error" world (model.label collection pk)
    pure [label]

def run (h : Host m) (command : Command) : m Report := do
  match ← h.settings with
  | .error e => pure { problem := some ("Configuration error: " ++ e.message) }
  | .ok s =>
    match ← (perform h s command).run with
    | .ok lines => pure { lines }
    | .error problem => pure { problem := some problem }

end Command

end Retrieval
