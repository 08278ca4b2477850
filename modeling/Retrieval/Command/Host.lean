import Retrieval.File.Problem
import Retrieval.Run.Basic
import Retrieval.Settings.Basic

namespace Retrieval

/-- The machine a command runs on. -/
structure Host (m : Type → Type) where
  read : (path : String) → m (Except FileProblem (List UInt8))
  environment : (name : String) → m (Option String)
  home : m (Option String)
  openDatabase : (path : String) → (size : Nat) → m (Except Run.Error World)

namespace Host

variable {m : Type → Type} [Monad m]

def text (h : Host m) (path : String) : m (Except FileProblem String) := do
  let bytes ← h.read path
  pure (bytes.bind textOf)

def «exists» (h : Host m) (path : String) : m Bool := do
  match ← h.read path with
  | .ok _ => pure true
  | .error problem => pure problem.isPresent

def environmentFor (h : Host m) (text : String) : m Environment := do
  let names := (Expansion.scan .plain text.toList).filterMap fun
    | .char _ => none
    | .var name => some (String.ofList name)
  let found ← names.mapM fun name => do
    let value ← h.environment name
    pure (value.map fun value => (name, value))
  pure ⟨.ofList (found.filterMap id)⟩

def expandPath (h : Host m) (path : Option String) : m (Except Settings.Error (Option String)) := do
  let env ← h.environmentFor (path.getD "")
  pure (Settings.expandPath env path)

def settingsFrom (h : Host m) (path : String) : m (Except Settings.Error Settings) := do
  match ← h.text path with
  | .ok text => pure (Settings.ofText text)
  | .error problem =>
    pure (.error (if problem.isPresent then .unreadable problem else .fileNotFound path))

def configDirectory (h : Host m) : m (Option String) := do
  let named ← h.environment "XDG_CONFIG_HOME"
  match named.filter (·.startsWith "/") with
  | some directory => pure (some directory)
  | none =>
    let home ← h.home
    pure (home.map (· ++ "/.config"))

def settingsPath (h : Host m) : m (Option String) := do
  match ← h.environment "QUARRY_CONFIG" with
  | some path => pure (some path)
  | none =>
    if ← h.exists "quarry.toml" then pure (some "quarry.toml")
    else
      match ← h.configDirectory with
      | none => pure none
      | some directory =>
        let path := directory ++ "/quarry/config.toml"
        if ← h.exists path then pure (some path) else pure none

def settings (h : Host m) : m (Except Settings.Error Settings) := do
  match ← h.settingsPath with
  | none => pure (.ok {})
  | some path => h.settingsFrom path

end Host

end Retrieval
