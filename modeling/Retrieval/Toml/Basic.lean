namespace Retrieval.Toml

/-- A TOML value. Floats and times are told apart from other values, but not evaluated. -/
inductive Value where
  | string (s : String)
  | integer (n : Int)
  | float
  | boolean (b : Bool)
  | time
  | array (items : List Value)
  | table (entries : List (String × Value))
  deriving Repr, Inhabited

inductive Node where
  | value (v : Value)
  /-- A table; `implied` until a header names it, `dotted` if dotted keys made it. -/
  | table (implied dotted : Bool) (entries : List (String × Node))
  | tables (done : List (List (String × Node)))
  deriving Repr, Inhabited

abbrev Entries := List (String × Node)

def replace (key : String) (n : Node) (entries : Entries) : Entries :=
  entries.map fun e => if e.1 = key then (key, n) else e

/-- Changes the table that a path leads to from a table. Missing tables on the way are made, by
dotted keys if `dotted`. Dotted keys do not reach into tables that a header declared, and no path
reaches into values. The change is told whether dotted keys made the table that it changes. -/
def descend (dotted : Bool) (change : Bool → Entries → Option Entries) (wasDotted : Bool) :
    List String → Entries → Option Entries
  | [], entries => change wasDotted entries
  | key :: path, entries =>
    match entries.lookup key with
    | none =>
      (descend dotted change dotted path []).map fun inner =>
        entries ++ [(key, .table true dotted inner)]
    | some (.table implied wasDotted inner) =>
      if dotted && !implied then none
      else
        (descend dotted change wasDotted path inner).map fun inner =>
          replace key (.table implied wasDotted inner) entries
    | some (.tables (last :: others)) =>
      (descend dotted change false path last).map fun last =>
        replace key (.tables (last :: others)) entries
    | some (.tables []) | some (.value _) => none

def assignKey (key : String) (v : Value) (entries : Entries) : Option Entries :=
  if (entries.lookup key).isSome then none else some (entries ++ [(key, .value v)])

/-- Assigns to a dotted key. Only dotted keys add to a table that dotted keys made, and they add to
no other. -/
def assign (keys : List String) (v : Value) (entries : Entries) : Option Entries :=
  match keys.getLast? with
  | none => none
  | some key =>
    let path := keys.dropLast
    let change (wasDotted : Bool) (entries : Entries) : Option Entries :=
      if wasDotted = !path.isEmpty then assignKey key v entries else none
    descend true change false path entries

def declareKey (key : String) (entries : Entries) : Option Entries :=
  match entries.lookup key with
  | none => some (entries ++ [(key, .table false false [])])
  | some (.table true false inner) => some (replace key (.table false false inner) entries)
  | some _ => none

def declareItem (key : String) (entries : Entries) : Option Entries :=
  match entries.lookup key with
  | none => some (entries ++ [(key, .tables [[]])])
  | some (.tables done) => some (replace key (.tables ([] :: done)) entries)
  | some _ => none

mutual

def Node.toValue : Node → Value
  | .value v => v
  | .table _ _ entries => .table (entryValues entries)
  | .tables done => .array (tableValues done).reverse

def entryValues : List (String × Node) → List (String × Value)
  | [] => []
  | (key, n) :: rest => (key, n.toValue) :: entryValues rest

def tableValues : List (List (String × Node)) → List Value
  | [] => []
  | entries :: rest => .table (entryValues entries) :: tableValues rest

end

inductive Statement where
  | assign (keys : List String) (v : Value)
  | header (keys : List String)
  | itemHeader (keys : List String)
  deriving Repr

structure Document where
  entries : Entries := []
  current : List String := []

def atHeader (change : Entries → Option Entries) : List String → Entries → Option Entries :=
  descend false (fun _ => change) false

def Document.add (d : Document) : Statement → Option Document
  | .assign keys v =>
    (atHeader (assign keys v) d.current d.entries).map fun entries => { d with entries }
  | .header keys =>
    match keys.getLast? with
    | none => none
    | some key => (atHeader (declareKey key) keys.dropLast d.entries).map (⟨·, keys⟩)
  | .itemHeader keys =>
    match keys.getLast? with
    | none => none
    | some key => (atHeader (declareItem key) keys.dropLast d.entries).map (⟨·, keys⟩)

end Retrieval.Toml
