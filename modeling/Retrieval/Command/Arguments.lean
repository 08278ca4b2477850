import Retrieval.Number.Reading

namespace Retrieval

structure Locations where
  model : Option String := none
  database : Option String := none
  deriving DecidableEq, Repr

inductive Command where
  | validate (model : String)
  | list (model : String)
  | compile (model request : String) (verbose : Bool)
  | query (request : String) (locations : Locations)
  | identity (collection : String) (pk : UInt64) (locations : Locations)
  deriving DecidableEq, Repr

structure Arguments where
  positional : List String := []
  options : List (String × String) := []
  deriving Repr

namespace Arguments

def attached? (argument : List Char) : Option (String × String) :=
  match argument with
  | '-' :: '-' :: rest =>
    (Text.cutAt? '=' rest).map fun cut => (String.ofList cut.1, String.ofList cut.2)
  | '-' :: name :: '=' :: value => some (String.ofList [name], String.ofList value)
  | '-' :: name :: c :: value => some (String.ofList [name], String.ofList (c :: value))
  | _ => none

def detached? (argument : List Char) : Option String :=
  match argument with
  | '-' :: '-' :: c :: rest => some (String.ofList (c :: rest))
  | ['-', '-'] => none
  | ['-', name] => some (String.ofList [name])
  | _ => none

def addPositional (a : Arguments) (value : String) : Arguments :=
  { a with positional := value :: a.positional }

def addOption (a : Arguments) (option : String × String) : Arguments :=
  { a with options := option :: a.options }

def ofList? : List String → Option Arguments
  | [] => some {}
  | [last] =>
    match attached? last.toList, detached? last.toList with
    | some option, _ => some (addOption {} option)
    | none, some _ => none
    | none, none => if last = "--" then some {} else some (addPositional {} last)
  | argument :: next :: rest =>
    match attached? argument.toList, detached? argument.toList with
    | some option, _ => (ofList? (next :: rest)).map (·.addOption option)
    | none, some name => (ofList? rest).map (·.addOption (name, next))
    | none, none =>
      if argument = "--" then some { positional := next :: rest }
      else (ofList? (next :: rest)).map (·.addPositional argument)

def option? (a : Arguments) (names : List String) : Option String :=
  (a.options.find? fun o => o.1 ∈ names).map (·.2)

def onlyHas (a : Arguments) (names : List String) : Bool :=
  a.options.all fun o => o.1 ∈ names

def locations (a : Arguments) : Locations :=
  ⟨a.option? ["model"], a.option? ["database"]⟩

end Arguments

namespace Command

def verbose? (a : Arguments) : Option Bool :=
  match a.option? ["o", "output"] with
  | none => some false
  | some format =>
    if format = "sql" then some false else if format = "verbose" then some true else none

def ofArguments? (name : String) (a : Arguments) : Option Command :=
  match name, a.positional with
  | "validate", [model] => if a.onlyHas [] then some (.validate model) else none
  | "list", [model] => if a.onlyHas [] then some (.list model) else none
  | "compile", [model, request] =>
    if a.onlyHas ["o", "output"] then (verbose? a).map (.compile model request) else none
  | "query", [request] =>
    if a.onlyHas ["model", "database"] then some (.query request a.locations) else none
  | "identity", [collection, pk] =>
    if a.onlyHas ["model", "database"] then
      (readUInt64? pk.toList).map (.identity collection · a.locations)
    else none
  | _, _ => none

def ofList? : List String → Option Command
  | [] => none
  | name :: rest => (Arguments.ofList? rest).bind (ofArguments? name)

end Command

end Retrieval
