import Retrieval.File.Problem
import Retrieval.Toml.Reader
import Retrieval.Text.Expansion

namespace Retrieval

structure Settings where
  modelPath : Option String := none
  databasePath : Option String := none
  poolSize : Nat := 4
  logFilter : String := "quarry=info"
  deriving DecidableEq, Repr

inductive Settings.Error where
  | fileNotFound (path : String)
  | unreadable (problem : FileProblem)
  | malformed
  | missingVariable (name : String)
  | emptyPool
  deriving DecidableEq, Repr

def Settings.Error.message : Settings.Error → String
  | fileNotFound path => "Config file not found: " ++ path
  | unreadable problem => "Failed to read config file: " ++ problem.message
  | malformed => "Failed to parse config file: malformed file"
  | missingVariable name => "Missing environment variable: " ++ name
  | emptyPool => "Invalid configuration: database.pool_size must be at least 1"

namespace Settings

/-- The entries of a table that may be absent. It may also be given as an array of the values of
its keys, and a time counts as a table with none of them. -/
def tableEntries? (keys : List String) :
    Option Toml.Value → Option (List (String × Toml.Value))
  | none => some []
  | some (.table entries) => some entries
  | some (.array items) => some (keys.zip items)
  | some .time => some []
  | some _ => none

def stringEntry? : Option Toml.Value → Option (Option String)
  | none => some none
  | some (.string s) => some (some s)
  | some _ => none

def sizeEntry? (absent : Nat) : Option Toml.Value → Option Nat
  | none => some absent
  | some (.integer n) => if 0 ≤ n ∧ n < UInt64.size then some n.toNat else none
  | some _ => none

def ofEntries? (root : List (String × Toml.Value)) : Option Settings := do
  let defaults : Settings := {}
  let model ← tableEntries? ["path"] (root.lookup "model")
  let database ← tableEntries? ["path", "pool_size"] (root.lookup "database")
  let log ← tableEntries? ["filter"] (root.lookup "log")
  let modelPath ← stringEntry? (model.lookup "path")
  let databasePath ← stringEntry? (database.lookup "path")
  let poolSize ← sizeEntry? defaults.poolSize (database.lookup "pool_size")
  let filter ← stringEntry? (log.lookup "filter")
  pure { modelPath, databasePath, poolSize, logFilter := filter.getD defaults.logFilter }

def ofText (text : String) : Except Settings.Error Settings :=
  match (Toml.read? text).bind ofEntries? with
  | none => .error .malformed
  | some s => if s.poolSize = 0 then .error .emptyPool else .ok s

def expandPath (env : Environment) : Option String → Except Settings.Error (Option String)
  | none => .ok none
  | some path =>
    match Expansion.expand env path with
    | .ok text => .ok (some text)
    | .error name => .error (.missingVariable name)

end Settings

end Retrieval
